import FirmwareCatalog.Decimal.Reading
import FirmwareCatalog.Text.Trim
import FirmwareCatalog.Toml.Basic

/-!
# TOML numbers and moments

Integers of 64 bits in four bases, floats, dates and times of day. Single
underscores may part the digits of a number.
-/

namespace FirmwareCatalog.Toml

open Numeral Text

/-! ## Digits -/

/-- Further digits of a number, without the underscores between them. -/
def moreDigits (p : Char → Bool) : List Char → List Char × List Char
  | [] => ([], [])
  | '_' :: c :: cs =>
    if p c then
      let (ds, rest) := moreDigits p cs
      (c :: ds, rest)
    else ([], '_' :: c :: cs)
  | c :: cs =>
    if p c then
      let (ds, rest) := moreDigits p cs
      (c :: ds, rest)
    else ([], c :: cs)

def digitRun? (p : Char → Bool) : List Char → Option (List Char × List Char)
  | [] => none
  | c :: cs => if p c then some ((c :: (moreDigits p cs).1), (moreDigits p cs).2) else none

def isDigitOf (base : Nat) (c : Char) : Bool := (digitValue? base c).isSome

def takeSignChar : List Char → List Char × List Char
  | '+' :: cs => (['+'], cs)
  | '-' :: cs => (['-'], cs)
  | cs => ([], cs)

/-- A sign and decimal digits without superfluous zeros, as text. -/
def decimal? (cs : List Char) : Option (List Char × List Char) :=
  let (sign, cs) := takeSignChar cs
  match cs with
  | '0' :: cs => some (sign ++ ['0'], cs)
  | _ => (digitRun? Char.isDigit cs).map fun p => (sign ++ p.1, p.2)

/-! ## Integers -/

/-- The base that the start of an integer announces. -/
def baseOf? : List Char → Option (Nat × List Char)
  | '0' :: 'x' :: cs => some (16, cs)
  | '0' :: 'o' :: cs => some (8, cs)
  | '0' :: 'b' :: cs => some (2, cs)
  | _ => none

def integer? (cs : List Char) : Option (Toml × List Char) := do
  let (base, digits, cs) ← match baseOf? cs with
    | some (base, cs) => (digitRun? (isDigitOf base) cs).map fun p => (base, p.1, p.2)
    | none => (decimal? cs).map fun p => (10, p.1, p.2)
  return (.integer (← signed? base digits), cs)

/-! ## Floats -/

def fraction? : List Char → Option (List Char × List Char)
  | '.' :: cs => (digitRun? Char.isDigit cs).map fun p => ('.' :: p.1, p.2)
  | _ => none

def exponent? : List Char → Option (List Char × List Char)
  | c :: cs =>
    if c = 'e' || c = 'E' then
      let (sign, cs) := takeSignChar cs
      (digitRun? Char.isDigit cs).map fun p => ('e' :: sign ++ p.1, p.2)
    else none
  | [] => none

/-- Digits with a fraction, an exponent or both. -/
def floatText? (cs : List Char) : Option (List Char × List Char) := do
  let (whole, cs) ← decimal? cs
  match exponent? cs with
  | some (exponent, cs) => return (whole ++ exponent, cs)
  | none =>
    let (fraction, cs) ← fraction? cs
    let (exponent, cs) := (exponent? cs).getD ([], cs)
    return (whole ++ fraction ++ exponent, cs)

/-- A number above the largest float is refused; one below the least is infinite. -/
def readFloat? (text : List Char) : Option Float :=
  (Decimal.read? text).filter fun x => !(x.isInf && x > 0)

def namedFloat? (cs : List Char) : Option (Toml × List Char) :=
  let (sign, cs) := takeSignChar cs
  let value (x : Float) : Toml := .float (Decimal.withSign (sign = ['-']) x)
  ((after? "inf".toList cs).map fun cs => (value (1.0 / 0.0), cs)).or
    ((after? "nan".toList cs).map fun cs => (value (0.0 / 0.0), cs))

def float? (cs : List Char) : Option (Toml × List Char) :=
  match floatText? cs with
  | some (text, cs) => (readFloat? text).map fun x => (.float x, cs)
  | none => namedFloat? cs

/-! ## Moments -/

/-- Exactly `count` digits, and their value. -/
def fixedDigits? (count : Nat) (cs : List Char) : Option (Nat × List Char) :=
  if (cs.take count).length = count && (cs.take count).all Char.isDigit then
    (digits? 10 (cs.take count)).map fun n => (n, cs.drop count)
  else none

/-- Two digits for a number between bounds. -/
def pair? (least greatest : Nat) (cs : List Char) : Option (Nat × List Char) :=
  (fixedDigits? 2 cs).filter fun p => least ≤ p.1 && p.1 ≤ greatest

def isLeapYear (year : Nat) : Bool := year % 4 = 0 && (year % 100 ≠ 0 || year % 400 = 0)

def daysOfMonth (year month : Nat) : Nat :=
  if month = 2 then (if isLeapYear year then 29 else 28)
  else if month = 4 || month = 6 || month = 9 || month = 11 then 30
  else 31

/-- What follows a date. -/
def date? (cs : List Char) : Option (List Char) := do
  let (year, cs) ← fixedDigits? 4 cs
  let (month, cs) ← pair? 1 12 (← after? ['-'] cs)
  let (day, cs) ← pair? 1 31 (← after? ['-'] cs)
  if day ≤ daysOfMonth year month then some cs else none

def secondFraction? (cs : List Char) : Option (List Char) := do
  let cs ← after? ['.'] cs
  if (cs.head?.any Char.isDigit) then some (cs.dropWhile Char.isDigit) else none

/-- What follows a time of day. Seconds have to be there, and may be leap seconds. -/
def time? (cs : List Char) : Option (List Char) := do
  let (_, cs) ← pair? 0 23 cs
  let (_, cs) ← pair? 0 59 (← after? [':'] cs)
  let (_, cs) ← pair? 0 60 (← after? [':'] cs)
  return (secondFraction? cs).getD cs

/-- What follows the distance from universal time. -/
def offset? (cs : List Char) : Option (List Char) :=
  match cs with
  | 'Z' :: cs | 'z' :: cs => some cs
  | '+' :: cs | '-' :: cs => do
    let (_, cs) ← pair? 0 23 cs
    let (_, cs) ← pair? 0 59 (← after? [':'] cs)
    return cs
  | _ => none

def startsTime (c : Char) : Bool := c = 'T' || c = 't' || c = ' '

/-- The time of day behind a date, with its offset. -/
def timeOfDate? : List Char → Option (List Char)
  | [] => none
  | c :: cs =>
    if startsTime c then (time? cs).map fun cs => (offset? cs).getD cs
    else none

def moment? (cs : List Char) : Option (Toml × List Char) :=
  let rest? := ((date? cs).map fun rest => (timeOfDate? rest).getD rest).or (time? cs)
  rest?.map fun rest => (.moment (String.ofList (cs.take (cs.length - rest.length))), rest)

/-- A number or a moment. -/
def scalar? (cs : List Char) : Option (Toml × List Char) := (moment? cs).or ((float? cs).or (integer? cs))

end FirmwareCatalog.Toml
