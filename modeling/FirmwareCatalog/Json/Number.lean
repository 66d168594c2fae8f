import FirmwareCatalog.Decimal.Reading
import FirmwareCatalog.Json.Basic

/-!
# Reading JSON numbers

The digits of a number are collected into a significand of 64 bits and an
exponent; digits that no longer fit only move the exponent, and behind the point
they end the collection. The float is the significand times or divided by a
power of ten.
-/

namespace FirmwareCatalog.JsonNumber

/-- A significand and a power of ten. -/
structure Parts where
  significand : Nat
  exponent : Int

def fits (n : Nat) : Bool := n < 18446744073709551616

def digitOf (c : Char) : Nat := c.toNat - 48

/-- Digits before the point: from the first that does not fit, all only raise the exponent. -/
def collectWhole : Parts → List Char → Parts
  | p, [] => p
  | p, c :: cs =>
    if fits (p.significand * 10 + digitOf c) then
      collectWhole ⟨p.significand * 10 + digitOf c, p.exponent⟩ cs
    else ⟨p.significand, p.exponent + (cs.length + 1)⟩

/-- Digits behind the point: from the first that does not fit, all are dropped. -/
def collectFraction : Parts → List Char → Parts
  | p, [] => p
  | p, c :: cs =>
    if fits (p.significand * 10 + digitOf c) then
      collectFraction ⟨p.significand * 10 + digitOf c, p.exponent - 1⟩ cs
    else p

def powerOfTen (n : Nat) : Float := Float.ofScientific 1 false n

/-- The float of the parts, or nothing when it is beyond the largest one. Each of the `count` steps divides by
the largest power of ten; three of them take every significand to zero. -/
def scale : (count : Nat) → Float → (exponent : Int) → Option Float
  | count, x, e =>
    if e.natAbs ≤ 308 then
      if 0 ≤ e then
        let y := x * powerOfTen e.natAbs
        if y.isInf then none else some y
      else some (x / powerOfTen e.natAbs)
    else if x == 0 then some x
    else if 0 ≤ e then none
    else match count with
      | 0 => some 0
      | count + 1 => scale count (x / powerOfTen 308) (e + 308)

def Parts.toFloat? (p : Parts) : Option Float := scale 3 (Float.ofNat p.significand) p.exponent

/-- The value of a number without point and exponent. -/
def ofWhole? (negative : Bool) (p : Parts) : Option JsonNumber :=
  let n := p.significand
  if p.exponent ≠ 0 then p.toFloat?.map fun x => .real (Decimal.withSign negative x)
  else if !negative then some (.integer n)
  else if n = 0 ∨ 9223372036854775808 < n then some (.real (-(Float.ofNat n)))
  else some (.integer (-(n : Int)))

/-- The value of a number with a written exponent. A huge exponent is an error above, and zero below. -/
def ofExponent? (negative : Bool) (p : Parts) (negativeExponent : Bool) (exponent : Nat) : Option JsonNumber :=
  let x? :=
    if 2147483648 ≤ exponent then if p.significand ≠ 0 ∧ !negativeExponent then none else some 0
    else Parts.toFloat? ⟨p.significand, if negativeExponent then p.exponent - exponent else p.exponent + exponent⟩
  x?.map fun x => .real (Decimal.withSign negative x)

/-- The digits at the front, if there are any. -/
def takeDigits? (cs : List Char) : Option (List Char × List Char) :=
  if (cs.takeWhile Char.isDigit).isEmpty then none else some (cs.takeWhile Char.isDigit, cs.dropWhile Char.isDigit)

/-- Whole part without superfluous zeros, then a point with digits, then an exponent with digits. -/
def read? (cs : List Char) : Option (JsonNumber × List Char) := do
  let (negative, cs) := match cs with
    | '-' :: cs => (true, cs)
    | cs => (false, cs)
  let (digits, cs) ← takeDigits? cs
  if digits.head? = some '0' ∧ digits.length ≠ 1 then none
  let whole := collectWhole ⟨0, 0⟩ digits
  let (parts, isWhole, cs) ← match cs with
    | '.' :: cs => do
      let (digits, cs) ← takeDigits? cs
      pure (collectFraction whole digits, false, cs)
    | cs => pure (whole, true, cs)
  let marked := match cs with
    | c :: cs => if c = 'e' ∨ c = 'E' then some cs else none
    | [] => none
  match marked with
  | some cs =>
    let (negativeExponent, cs) := Decimal.takeSign cs
    let (digits, cs) ← takeDigits? cs
    let exponent ← Numeral.digits? 10 digits
    return (← ofExponent? negative parts negativeExponent exponent, cs)
  | none =>
    if isWhole then return (← ofWhole? negative parts, cs)
    else return (.real (Decimal.withSign negative (← parts.toFloat?)), cs)

end FirmwareCatalog.JsonNumber
