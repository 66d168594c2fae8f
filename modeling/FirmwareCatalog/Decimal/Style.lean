import FirmwareCatalog.Decimal.Shortest
import FirmwareCatalog.Text.Numeral

/-!
# Float texts

How the digits of a float are laid out: positionally with a point while the
leading digit stands near the point, otherwise with an exponent. A whole number
keeps one zero behind the point.
-/

namespace FirmwareCatalog.Decimal

open Numeral

/-- The decisions of one format. Exponents of the leading digit from `plainFrom` to 15 are written positionally. -/
structure Style where
  plainFrom : Int
  plusSign : Bool
  tie : Tie

def zeros (n : Nat) : List Char := List.replicate n '0'

/-- Digits before and behind the point, `point` of them before it. -/
def positional (digits : List Char) (point : Int) : List Char :=
  if point ≤ 0 then '0' :: '.' :: zeros (-point).toNat ++ digits
  else
    let n := point.toNat
    if digits.length ≤ n then digits ++ zeros (n - digits.length) ++ ['.', '0']
    else digits.take n ++ '.' :: digits.drop n

def Style.exponential (style : Style) (digits : List Char) (e : Int) : List Char :=
  let mantissa := match digits with
    | [] => []
    | [d] => [d]
    | d :: ds => d :: '.' :: ds
  let sign := if e < 0 then ['-'] else if style.plusSign then ['+'] else []
  mantissa ++ 'e' :: sign ++ decimal e.natAbs

/-- The text of a positive value. -/
def Style.magnitude (style : Style) (x : Dyadic) : List Char :=
  let d := x.shortest style.tie
  let digits := decimal d.digits
  let e := d.exponent + digits.length - 1
  if style.plainFrom ≤ e ∧ e < 16 then positional digits (e + 1) else style.exponential digits e

def Style.render (style : Style) (x : Float) : String :=
  let bits := x.toBits
  let sign := if bits >>> 63 = 1 then "-" else ""
  if x.isNaN then "NaN"
  else if x.isInf then sign ++ "inf"
  else
    let value := Dyadic.ofBits bits
    if value.mantissa = 0 then sign ++ "0.0" else sign ++ String.ofList (style.magnitude value)

end FirmwareCatalog.Decimal
