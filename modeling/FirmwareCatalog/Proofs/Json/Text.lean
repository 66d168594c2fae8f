import FirmwareCatalog.Json.Text
import Mathlib.Tactic.IntervalCases

/-!
# Strings read back

Reading undoes the escapes one character at a time. Controls without a letter
are written by their code, every other character by itself or its letter.
-/

namespace FirmwareCatalog.JsonText

open Numeral

theorem digitValue?_lowerHexDigit {d : Nat} (h : d < 16) : digitValue? 16 (lowerHexDigit d) = some d := by
  interval_cases d <;> decide

theorem unescapeLetter?_of_escapeLetter? {c letter : Char} (h : escapeLetter? c = some letter) :
    letter ≠ 'u' ∧ unescapeLetter? letter = some c := by
  unfold escapeLetter? at h
  split at h <;> cases h <;> decide

theorem ne_of_escapeLetter?_eq_none {c : Char} (h : escapeLetter? c = none) : c ≠ '"' ∧ c ≠ '\\' := by
  constructor <;> rintro rfl <;> cases h

theorem finishUnit_of_lt {n : Nat} (h : n < 0x20) : finishUnit n none = some (.inl (Char.ofNat n)) := by
  have low : ¬ (0xDC00 ≤ n ∧ n ≤ 0xDFFF) := by omega
  have high : ¬ (0xD800 ≤ n ∧ n ≤ 0xDBFF) := by omega
  simp only [finishUnit, if_neg low, if_neg high]

theorem readFrom_code {c : Char} (h : c.toNat < 0x20) (rest : List Char) :
    readFrom .plain
        (['\\', 'u', '0', '0', lowerHexDigit (c.toNat / 16), lowerHexDigit (c.toNat % 16)] ++ rest) =
      (readFrom .plain rest).map fun p => (c :: p.1, p.2) := by
  have zero : digitValue? 16 '0' = some 0 := by decide
  have first := digitValue?_lowerHexDigit (d := c.toNat / 16) (by omega)
  have second := digitValue?_lowerHexDigit (d := c.toNat % 16) (by omega)
  have value : 16 * (c.toNat / 16) + c.toNat % 16 = c.toNat := by omega
  simp [readFrom, zero, first, second, value, finishUnit_of_lt h]

theorem readFrom_escape (c : Char) (rest : List Char) :
    readFrom .plain (escape c ++ rest) = (readFrom .plain rest).map fun p => (c :: p.1, p.2) := by
  unfold escape
  cases h : escapeLetter? c with
  | some letter =>
    obtain ⟨notCode, back⟩ := unescapeLetter?_of_escapeLetter? h
    simp [readFrom, notCode, back]
  | none =>
    obtain ⟨notQuote, notBackslash⟩ := ne_of_escapeLetter?_eq_none h
    by_cases low : c.toNat < 0x20
    · simp only [if_pos low]
      exact readFrom_code low rest
    · simp [readFrom, notQuote, notBackslash, low]

theorem read?_escaped (cs rest : List Char) : read? (cs.flatMap escape ++ '"' :: rest) = some (cs, rest) := by
  unfold read?
  induction cs with
  | nil => simp [readFrom]
  | cons c cs ih => rw [List.flatMap_cons, List.append_assoc, readFrom_escape, ih]; rfl

end FirmwareCatalog.JsonText
