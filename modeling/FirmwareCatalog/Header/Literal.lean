import FirmwareCatalog.Header.Scan
import FirmwareCatalog.Text.Numeral
import FirmwareCatalog.Text.Utf8

/-!
# String literals

A literal runs from a quote to the next quote that no backslash precedes. Its
escapes stand for bytes; what they spell is read as UTF-8.
-/

namespace FirmwareCatalog.Header

/-- What stands before the closing quote, and what follows it. An escape may not be broken by a line end. -/
def literalBody? : (escaped : Bool) → List Char → Option (List Char × List Char)
  | _, [] => none
  | true, c :: cs => if c = '\n' then none else (literalBody? false cs).map fun p => (c :: p.1, p.2)
  | false, c :: cs =>
    if c = '"' then some ([], cs)
    else (literalBody? (c = '\\') cs).map fun p => (c :: p.1, p.2)

theorem literalBody?_length : ∀ {cs : List Char} {escaped : Bool} {body rest : List Char},
    literalBody? escaped cs = some (body, rest) → rest.length < cs.length
  | [], escaped, _, _, h => by cases escaped <;> simp [literalBody?] at h
  | c :: cs, true, body, rest, h => by
    simp only [literalBody?] at h
    split at h
    · cases h
    · obtain ⟨p, hp, he⟩ := Option.map_eq_some_iff.mp h
      have := literalBody?_length hp
      simp only [Prod.mk.injEq] at he
      rw [List.length_cons, ← he.2]; omega
  | c :: cs, false, body, rest, h => by
    simp only [literalBody?] at h
    split at h
    · simp only [Option.some.injEq, Prod.mk.injEq] at h
      rw [List.length_cons, ← h.2]; omega
    · obtain ⟨p, hp, he⟩ := Option.map_eq_some_iff.mp h
      have := literalBody?_length hp
      simp only [Prod.mk.injEq] at he
      rw [List.length_cons, ← he.2]; omega

theorem skipBlanks_length (cs : List Char) : (skipBlanks cs).length ≤ cs.length :=
  (List.dropWhile_suffix _).length_le

/-- The bodies of the literals that follow each other at the front of a text, and what comes behind them
and the blanks between them. -/
def literals : List Char → List (List Char) × List Char
  | '"' :: cs =>
    match _h : literalBody? false cs with
    | none => ([], '"' :: cs)
    | some (body, rest) =>
      let (bodies, rest) := literals (skipBlanks rest)
      (body :: bodies, rest)
  | cs => ([], cs)
termination_by cs => cs.length
decreasing_by
  have := literalBody?_length _h
  have := skipBlanks_length rest
  simp only [List.length_cons]; omega

/-! ## Escapes -/

/-- How far the reading of an escape has come. -/
inductive EscapeState where
  | none
  | backslash
  /-- Behind `\x`. -/
  | hex
  /-- Behind `\x` and one digit. -/
  | hexDigit (value : Nat)

/-- The byte of a one-letter escape. -/
def escapeByte? : Char → Option UInt8
  | 'n' => some 10
  | 't' => some 9
  | 'r' => some 13
  | '0' => some 0
  | '\\' => some 92
  | '"' => some 34
  | '\'' => some 39
  | '?' => some 63
  | _ => none

def hexValue? (c : Char) : Option Nat := Numeral.digitValue? 16 c

/-- The bytes that a literal body spells. `\x` takes up to two digits; an escape that means nothing stays as
it is written. -/
def literalBytesFrom : EscapeState → List Char → Bytes
  | .none, [] => []
  | .backslash, [] => [92]
  | .hex, [] => [92, 120]
  | .hexDigit value, [] => [UInt8.ofNat value]
  | .none, c :: cs =>
    if c = '\\' then literalBytesFrom .backslash cs else String.utf8EncodeChar c ++ literalBytesFrom .none cs
  | .backslash, c :: cs =>
    if c = 'x' then literalBytesFrom .hex cs
    else match escapeByte? c with
      | some b => b :: literalBytesFrom .none cs
      | none => 92 :: String.utf8EncodeChar c ++ literalBytesFrom .none cs
  | .hex, c :: cs =>
    match hexValue? c with
    | some value => literalBytesFrom (.hexDigit value) cs
    | none =>
      92 :: 120 :: if c = '\\' then literalBytesFrom .backslash cs
        else String.utf8EncodeChar c ++ literalBytesFrom .none cs
  | .hexDigit high, c :: cs =>
    match hexValue? c with
    | some low => UInt8.ofNat (16 * high + low) :: literalBytesFrom .none cs
    | none =>
      UInt8.ofNat high :: if c = '\\' then literalBytesFrom .backslash cs
        else String.utf8EncodeChar c ++ literalBytesFrom .none cs

/-- The text that a literal body spells. -/
def decodeLiteral (body : List Char) : List Char := Utf8.decodeLossy (literalBytesFrom .none body)

def joinLiterals (bodies : List (List Char)) : List Char := bodies.flatMap decodeLiteral

/-- The text of one or more literals with only blanks around them; nothing else is a string. -/
def stringValue? (text : List Char) : Option (List Char) :=
  match literals (Text.trim text) with
  | ([], _) => none
  | (_, _ :: _) => none
  | (bodies, []) => some (joinLiterals bodies)

end FirmwareCatalog.Header
