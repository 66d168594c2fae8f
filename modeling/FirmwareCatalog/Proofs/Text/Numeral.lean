import FirmwareCatalog.Character.Blank
import FirmwareCatalog.Character.DecimalDigit
import FirmwareCatalog.Text.Numeral
import Mathlib.Tactic.IntervalCases

/-!
# Written numbers read back

The digits of a number are decimal digits, without a sign before them, and spell
the number again.
-/

namespace FirmwareCatalog.Numeral

/-! ## Digits -/

@[simp] theorem toList_decimalText (n : Nat) : (decimalText n).toList = decimal n :=
  String.toList_ofList

theorem forall_mem_decimal {p : Char → Prop} (h : ∀ d < 10, p (digitChar d)) (n : Nat) :
    ∀ c ∈ decimal n, p c := by
  induction n using Nat.strongRecOn with
  | ind n ih =>
    intro c hc
    rw [decimal] at hc
    split at hc
    · rename_i hn
      rw [List.mem_singleton.mp hc]
      exact h n hn
    · rename_i hn
      rcases List.mem_append.mp hc with hc | hc
      · exact ih (n / 10) (by omega) c hc
      · rw [List.mem_singleton.mp hc]
        exact h _ (Nat.mod_lt n (by decide))

theorem isDecimalDigit_of_mem_decimal {n : Nat} : ∀ c ∈ decimal n, Character.isDecimalDigit c = true :=
  forall_mem_decimal (fun d hd => by interval_cases d <;> decide) n

theorem isBlank_of_mem_decimal {n : Nat} : ∀ c ∈ decimal n, Character.isBlank c = false :=
  forall_mem_decimal (fun d hd => by interval_cases d <;> decide) n

theorem notMem_decimal {c : Char} (h : c.isDigit = false) (n : Nat) : c ∉ decimal n := fun hc =>
  forall_mem_decimal (p := fun c => c.isDigit ≠ false)
    (fun d hd => by interval_cases d <;> decide) n c hc h

theorem decimal_ne_nil (n : Nat) : decimal n ≠ [] := by
  rw [decimal]
  split <;> simp

/-! ## Values -/

theorem digitValue?_digitChar {d : Nat} (h : d < 10) : digitValue? 10 (digitChar d) = some d := by
  interval_cases d <;> decide

theorem digitsFrom?_append (base acc : Nat) (a b : List Char) :
    digitsFrom? base acc (a ++ b) = (digitsFrom? base acc a).bind fun n => digitsFrom? base n b := by
  induction a generalizing acc with
  | nil => rfl
  | cons c a ih =>
    rw [List.cons_append, digitsFrom?, digitsFrom?]
    cases digitValue? base c with
    | none => rfl
    | some d => exact ih _

theorem digitsFrom?_decimal (n : Nat) : digitsFrom? 10 0 (decimal n) = some n := by
  induction n using Nat.strongRecOn with
  | ind n ih =>
    rw [decimal]
    split
    · rename_i hn
      simp [digitsFrom?, digitValue?_digitChar hn]
    · rename_i hn
      rw [digitsFrom?_append, ih (n / 10) (by omega), Option.bind_some, digitsFrom?,
        digitValue?_digitChar (Nat.mod_lt n (by decide)), Option.bind_some, digitsFrom?]
      congr 1
      omega

theorem unsigned?_decimal_eq (bits n : Nat) :
    unsigned? bits 10 (decimal n) = (some n).filter (· < 2 ^ bits) := by
  have hdigits : digits? 10 (decimal n) = some n := by
    rw [digits?, if_neg (by simpa using decimal_ne_nil n), digitsFrom?_decimal]
  have hsign : ∀ rest, decimal n ≠ '+' :: rest := fun rest he =>
    notMem_decimal (c := '+') (by decide) n (he ▸ List.mem_cons_self)
  unfold unsigned?
  simp only [hdigits, Nat.pow_eq]

theorem unsigned?_decimal {bits n : Nat} (h : n < 2 ^ bits) :
    unsigned? bits 10 (decimal n) = some n := by
  rw [unsigned?_decimal_eq]
  exact Option.filter_some_pos (by simpa using h)

theorem unsigned?_decimal_eq_none {bits n : Nat} (h : 2 ^ bits ≤ n) :
    unsigned? bits 10 (decimal n) = none := by
  rw [unsigned?_decimal_eq]
  exact Option.filter_some_neg (by simpa using h)

end FirmwareCatalog.Numeral
