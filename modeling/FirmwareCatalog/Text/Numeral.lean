/-!
# Numerals

Writing natural numbers and integers in base ten and sixteen, and the readers of
integers: an optional sign, then one or more ASCII digits, the value within its
bounds. Leading zeros are read, separators are not.
-/

namespace FirmwareCatalog.Numeral

/-- The digit characters up to fifteen, letters in upper case. -/
def digitChar (d : Nat) : Char := Char.ofNat (if d < 10 then 48 + d else 55 + d)

/-- The decimal digits of a number, without leading zeros. -/
def decimal (n : Nat) : List Char :=
  if n < 10 then [digitChar n] else decimal (n / 10) ++ [digitChar (n % 10)]

def decimalText (n : Nat) : String := String.ofList (decimal n)

def integerText : Int → String
  | .ofNat n => decimalText n
  | .negSucc n => "-" ++ decimalText (n + 1)

/-- The last `width` hexadecimal digits of a number. -/
def hexadecimal : (width : Nat) → Nat → List Char
  | 0, _ => []
  | width + 1, n => hexadecimal width (n / 16) ++ [digitChar (n % 16)]

/-- The value of an ASCII digit or letter, below the base. -/
def digitValue? (base : Nat) (c : Char) : Option Nat :=
  let value? :=
    if '0' ≤ c ∧ c ≤ '9' then some (c.toNat - 48)
    else if 'a' ≤ c ∧ c ≤ 'z' then some (c.toNat - 87)
    else if 'A' ≤ c ∧ c ≤ 'Z' then some (c.toNat - 55)
    else none
  value?.filter (· < base)

/-- The value of digits behind those of value `acc`. -/
def digitsFrom? (base : Nat) : Nat → List Char → Option Nat
  | acc, [] => some acc
  | acc, c :: cs => (digitValue? base c).bind fun d => digitsFrom? base (acc * base + d) cs

/-- One or more digits. -/
def digits? (base : Nat) (cs : List Char) : Option Nat :=
  if cs.isEmpty then none else digitsFrom? base 0 cs

/-- A natural number of at most `bits` binary digits, with an optional plus sign. -/
def unsigned? (bits base : Nat) (cs : List Char) : Option Nat :=
  let digits := match cs with
    | '+' :: rest => rest
    | _ => cs
  (digits? base digits).filter (· < Nat.pow 2 bits)

/-- An integer of 64 bits with an optional sign. -/
def signed? (base : Nat) (cs : List Char) : Option Int :=
  let value? := match cs with
    | '-' :: rest => (digits? base rest).map fun n => -(n : Int)
    | '+' :: rest => (digits? base rest).map Int.ofNat
    | _ => (digits? base cs).map Int.ofNat
  value?.filter fun v => -9223372036854775808 ≤ v && v < 9223372036854775808

end FirmwareCatalog.Numeral
