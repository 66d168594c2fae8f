import FirmwareCatalog.Text.Numeral

/-!
# Reading floats

A sign, digits with at most one point among or around them, and an optional
exponent. The value is the float nearest to the decimal, ties to even; beyond the
largest float it is infinite.
-/

namespace FirmwareCatalog.Decimal

open Numeral

/-- The float nearest to `digits * 10 ^ exponent`. Exponents far outside the range of floats are decided
by the position of the leading digit. -/
def nearest (digits : Nat) (exponent : Int) : Float :=
  if digits = 0 then 0
  else
    let leading := (decimal digits).length + exponent
    if leading > 310 then Float.ofScientific 1 false 400
    else if leading < -330 then 0
    else Float.ofScientific digits (exponent < 0) exponent.natAbs

def withSign (negative : Bool) (x : Float) : Float := if negative then -x else x

/-- Takes a sign off the front; `true` for minus. -/
def takeSign : List Char → Bool × List Char
  | '-' :: cs => (true, cs)
  | '+' :: cs => (false, cs)
  | cs => (false, cs)

/-- An exponent mark with an integer behind it, or nothing. -/
def exponent? : List Char → Option Int
  | [] => some 0
  | c :: cs =>
    if c = 'e' ∨ c = 'E' then
      let (negative, ds) := takeSign cs
      (digits? 10 ds).map fun n => if negative then -(n : Int) else n
    else none

/-- The float that a whole text denotes. -/
def read? (cs : List Char) : Option Float :=
  let (negative, cs) := takeSign cs
  let whole := cs.takeWhile Char.isDigit
  let cs := cs.dropWhile Char.isDigit
  let (fraction, cs) := match cs with
    | '.' :: cs => (cs.takeWhile Char.isDigit, cs.dropWhile Char.isDigit)
    | _ => ([], cs)
  match digits? 10 (whole ++ fraction), exponent? cs with
  | some digits, some e => some (withSign negative (nearest digits (e - fraction.length)))
  | _, _ => none

end FirmwareCatalog.Decimal
