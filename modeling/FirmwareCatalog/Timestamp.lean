import FirmwareCatalog.Text.Numeral

/-!
# Timestamps

Seconds since the start of 1970 as a date and time of the Gregorian calendar in
UTC.
-/

namespace FirmwareCatalog

open Numeral

structure Timestamp where
  seconds : Int
deriving DecidableEq, Inhabited

namespace Timestamp

structure Date where
  year : Int
  month : Nat
  day : Nat

/-- The date of a day, counted from 1970. Years are taken to begin in March, so that the leap day is their
last, and 400 of them have 146097 days. -/
def dateOfDay (day : Int) : Date :=
  let shifted := day + 719468
  let era := shifted.fdiv 146097
  let dayOfEra := (shifted.fmod 146097).toNat
  let yearOfEra := (dayOfEra - dayOfEra / 1460 + dayOfEra / 36524 - dayOfEra / 146096) / 365
  let dayOfYear := dayOfEra - (365 * yearOfEra + yearOfEra / 4 - yearOfEra / 100)
  let shiftedMonth := (5 * dayOfYear + 2) / 153
  let day := dayOfYear - (153 * shiftedMonth + 2) / 5 + 1
  let month := if shiftedMonth < 10 then shiftedMonth + 3 else shiftedMonth - 9
  let year := era * 400 + yearOfEra
  ⟨if month ≤ 2 then year + 1 else year, month, day⟩

def date (t : Timestamp) : Date := dateOfDay (t.seconds.fdiv 86400)

/-- The years that are kept. -/
def inRange (t : Timestamp) : Bool := -262143 ≤ t.date.year && t.date.year ≤ 262142

def padded (width n : Nat) : String :=
  let digits := decimal n
  String.ofList (List.replicate (width - digits.length) '0' ++ digits)

/-- Four digits; a year that needs more, or is negative, has a sign. -/
def yearText (year : Int) : String :=
  let sign := if year < 0 then "-" else if 9999 < year then "+" else ""
  sign ++ padded 4 year.natAbs

/-- `2023-11-14T22:13:20Z`. -/
def render (t : Timestamp) : String :=
  let date := t.date
  let time := (t.seconds.fmod 86400).toNat
  yearText date.year ++ "-" ++ padded 2 date.month ++ "-" ++ padded 2 date.day ++ "T" ++ padded 2 (time / 3600)
    ++ ":" ++ padded 2 (time / 60 % 60) ++ ":" ++ padded 2 (time % 60) ++ "Z"

end Timestamp

end FirmwareCatalog
