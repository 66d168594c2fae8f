import FirmwareCatalog.Text.Numeral

/-!
# JSON strings

Writing escapes the quote, the backslash and the controls. Reading knows every
escape of the format; a surrogate has to be half of a pair.
-/

namespace FirmwareCatalog.JsonText

open Numeral

/-- The letter of a short escape. -/
def escapeLetter? : Char → Option Char
  | '"' => some '"'
  | '\\' => some '\\'
  | '\x08' => some 'b'
  | '\x0c' => some 'f'
  | '\n' => some 'n'
  | '\r' => some 'r'
  | '\t' => some 't'
  | _ => none

def lowerHexDigit (d : Nat) : Char := Char.ofNat (if d < 10 then 48 + d else 87 + d)

def escape (c : Char) : List Char :=
  match escapeLetter? c with
  | some letter => ['\\', letter]
  | none =>
    if c.toNat < 0x20 then ['\\', 'u', '0', '0', lowerHexDigit (c.toNat / 16), lowerHexDigit (c.toNat % 16)]
    else [c]

def quote (s : String) : List Char := '"' :: s.toList.flatMap escape ++ ['"']

/-- The character of a short escape. -/
def unescapeLetter? : Char → Option Char
  | '"' => some '"'
  | '\\' => some '\\'
  | '/' => some '/'
  | 'b' => some '\x08'
  | 'f' => some '\x0c'
  | 'n' => some '\n'
  | 'r' => some '\r'
  | 't' => some '\t'
  | _ => none

/-- How far the reading of an escape has come; `high` is the first half of a pair. -/
inductive State where
  | plain
  | backslash
  | unit (missing value : Nat) (high : Option Nat)
  | secondBackslash (high : Nat)
  | secondLetter (high : Nat)

/-- What a unit of 16 bits leads to: a character or the wait for the other half of a pair. -/
def finishUnit (value : Nat) (high : Option Nat) : Option (Char ⊕ Nat) :=
  match high with
  | some h =>
    if 0xDC00 ≤ value ∧ value ≤ 0xDFFF then
      some (.inl (Char.ofNat (0x10000 + (h - 0xD800) * 0x400 + (value - 0xDC00))))
    else none
  | none =>
    if 0xDC00 ≤ value ∧ value ≤ 0xDFFF then none
    else if 0xD800 ≤ value ∧ value ≤ 0xDBFF then some (.inr value)
    else some (.inl (Char.ofNat value))

/-- The characters up to the closing quote, and what follows it. -/
def readFrom : State → List Char → Option (List Char × List Char)
  | _, [] => none
  | .plain, c :: cs =>
    if c = '"' then some ([], cs)
    else if c = '\\' then readFrom .backslash cs
    else if c.toNat < 0x20 then none
    else (readFrom .plain cs).map fun p => (c :: p.1, p.2)
  | .backslash, c :: cs =>
    if c = 'u' then readFrom (.unit 3 0 none) cs
    else match unescapeLetter? c with
      | some d => (readFrom .plain cs).map fun p => (d :: p.1, p.2)
      | none => none
  | .unit missing value high, c :: cs =>
    match digitValue? 16 c with
    | none => none
    | some d =>
      match missing with
      | missing + 1 => readFrom (.unit missing (16 * value + d) high) cs
      | 0 =>
        match finishUnit (16 * value + d) high with
        | none => none
        | some (.inl c) => (readFrom .plain cs).map fun p => (c :: p.1, p.2)
        | some (.inr high) => readFrom (.secondBackslash high) cs
  | .secondBackslash high, c :: cs => if c = '\\' then readFrom (.secondLetter high) cs else none
  | .secondLetter high, c :: cs => if c = 'u' then readFrom (.unit 3 0 (some high)) cs else none

/-- Reads behind the opening quote. -/
def read? (cs : List Char) : Option (List Char × List Char) := readFrom .plain cs

end FirmwareCatalog.JsonText
