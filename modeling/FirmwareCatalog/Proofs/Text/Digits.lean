import FirmwareCatalog.Character.DecimalDigit
import FirmwareCatalog.Proofs.Character.Ascii
import FirmwareCatalog.Text.Numeral
import Mathlib.Data.List.Basic
import Mathlib.Data.Nat.Digits.Defs
import Mathlib.Tactic.Ring

/-!
# Numerals that are read

The readers of numbers take exactly the numerals of their base, with the signs
they know, and give the number that the digits have in positional notation.
-/

namespace FirmwareCatalog.Numeral

open Character

/-! ## Digits -/

/-- The value of a digit up to `z` in any case; 36 for every other character. -/
def weight (c : Char) : Nat := "0123456789abcdefghijklmnopqrstuvwxyz".toList.idxOf c.toLower

theorem weight_of_le {c : Char} (h : 128 ≤ c.toNat) : weight c = 36 := by
  rw [weight, toLower_of_le h]
  refine List.idxOf_eq_length fun hmem => ?_
  have hascii : ∀ d ∈ "0123456789abcdefghijklmnopqrstuvwxyz".toList, d.toNat < 128 := by decide
  exact absurd (hascii c hmem) (Nat.not_lt.mpr h)

theorem toNat_lt_of_weight {c : Char} (h : weight c < 36) : c.toNat < 128 := by
  by_contra hlarge
  rw [weight_of_le (Nat.not_lt.mp hlarge)] at h
  exact Nat.lt_irrefl 36 h

theorem forall_weight {n : Nat} (hn : n ≤ 36) {p : Char → Prop}
    (h : ∀ k < 128, weight (Char.ofNat k) < n → p (Char.ofNat k)) {c : Char} (hc : weight c < n) : p c :=
  forall_ascii (p := fun c => weight c < n → p c) h (toNat_lt_of_weight (Nat.lt_of_lt_of_le hc hn)) hc

theorem isDecimalDigit_of_weight {c : Char} (h : weight c < 10) : isDecimalDigit c = true :=
  forall_weight (p := fun c => isDecimalDigit c = true) (by decide) (by decide +kernel) h

theorem digitValue?_thirtySix (c : Char) : digitValue? 36 c = if weight c < 36 then some (weight c) else none := by
  by_cases hc : c.toNat < 128
  · exact forall_ascii (p := fun c => digitValue? 36 c = if weight c < 36 then some (weight c) else none)
      (by decide +kernel) hc
  · have hlarge := Nat.not_lt.mp hc
    have habove {d : Char} (hd : d.toNat < 128) : ¬ c ≤ d := fun hle =>
      absurd (UInt32.le_iff_toNat_le.mp hle) (Nat.not_le.mpr (Nat.lt_of_lt_of_le hd hlarge))
    rw [digitValue?, if_neg fun h => habove (by decide) h.2, if_neg fun h => habove (by decide) h.2,
      if_neg fun h => habove (by decide) h.2, weight_of_le hlarge]
    rfl

theorem digitValue?_eq_ite {base : Nat} (hbase : base ≤ 36) (c : Char) :
    digitValue? base c = if weight c < base then some (weight c) else none := by
  -- the digits of a base are those of the largest one with values below it
  have hlargest : digitValue? base c = (digitValue? 36 c).filter (· < base) := by
    have hboth (n : Nat) : (decide (n < 36) && decide (n < base)) = decide (n < base) := by
      rw [← Bool.decide_and, decide_eq_decide]
      omega
    unfold digitValue?
    rw [Option.filter_filter]
    simp only [hboth]
  rw [hlargest, digitValue?_thirtySix]
  by_cases hc : weight c < 36
  · rw [if_pos hc, Option.filter_some]
    simp
  · rw [if_neg hc, if_neg fun h => hc (Nat.lt_of_lt_of_le h hbase)]
    rfl

/-- The number that digits stand for in positional notation, the highest digit first. -/
def magnitude (base : Nat) (digits : List Char) : Nat := Nat.ofDigits base (digits.reverse.map weight)

theorem magnitude_cons (base : Nat) (c : Char) (cs : List Char) :
    magnitude base (c :: cs) = weight c * base ^ cs.length + magnitude base cs := by
  rw [magnitude, List.reverse_cons, List.map_append, List.map_singleton, Nat.ofDigits_append, Nat.ofDigits_singleton,
    List.length_map, List.length_reverse, magnitude, Nat.add_comm, Nat.mul_comm]

def IsNumeral (base : Nat) (digits : List Char) : Prop := digits ≠ [] ∧ ∀ c ∈ digits, weight c < base

section
variable {base : Nat} (hbase : base ≤ 36)
include hbase

theorem digitsFrom?_eq_some_iff {n : Nat} (cs : List Char) : ∀ {acc : Nat}, digitsFrom? base acc cs = some n ↔
    (∀ c ∈ cs, weight c < base) ∧ acc * base ^ cs.length + magnitude base cs = n := by
  induction cs with
  | nil => simp [digitsFrom?, magnitude]
  | cons c cs ih =>
    intro acc
    rw [digitsFrom?, digitValue?_eq_ite hbase, List.forall_mem_cons]
    by_cases hc : weight c < base
    · have hvalue : (acc * base + weight c) * base ^ cs.length + magnitude base cs =
          acc * base ^ (c :: cs).length + magnitude base (c :: cs) := by
        rw [magnitude_cons, List.length_cons]
        ring
      rw [if_pos hc, Option.bind_some, ih, hvalue]
      simp only [hc, true_and]
    · simp [hc]

theorem digits?_eq_some_iff {cs : List Char} {n : Nat} :
    digits? base cs = some n ↔ IsNumeral base cs ∧ magnitude base cs = n := by
  unfold digits? IsNumeral
  split
  · rename_i hempty
    simp [List.isEmpty_iff.mp hempty]
  · rename_i hempty
    rw [digitsFrom?_eq_some_iff hbase, Nat.zero_mul, Nat.zero_add,
      and_iff_right (a := cs ≠ []) (by simpa using hempty)]

end

/-! ## Signs -/

/-- The natural numbers of a base as they are written, with or without a plus sign. -/
inductive Unsigned (base : Nat) : List Char → Nat → Prop
  | plain {digits : List Char} (numeral : IsNumeral base digits) : Unsigned base digits (magnitude base digits)
  | plus {digits : List Char} (numeral : IsNumeral base digits) : Unsigned base ('+' :: digits) (magnitude base digits)

inductive Signed (base : Nat) : List Char → Int → Prop
  | natural {cs : List Char} {n : Nat} (written : Unsigned base cs n) : Signed base cs n
  | minus {digits : List Char} (numeral : IsNumeral base digits) : Signed base ('-' :: digits) (-magnitude base digits)

section
variable {base : Nat} (hbase : base ≤ 36)
include hbase

theorem not_isNumeral_of_sign {c : Char} (hc : weight c = 36) (cs : List Char) : ¬ IsNumeral base (c :: cs) := by
  intro h
  have hlt := h.2 c List.mem_cons_self
  omega

theorem unsigned?_eq_some_iff {bits n : Nat} {cs : List Char} :
    unsigned? bits base cs = some n ↔ Unsigned base cs n ∧ n < 2 ^ bits := by
  unfold unsigned?
  rw [Option.filter_eq_some_iff, decide_eq_true_eq, Nat.pow_eq]
  refine and_congr_left fun _ => ?_
  split
  · rename_i digits
    rw [digits?_eq_some_iff hbase]
    constructor
    · rintro ⟨hnumeral, rfl⟩
      exact .plus hnumeral
    · rintro (hnumeral | hnumeral)
      · exact absurd hnumeral (not_isNumeral_of_sign hbase (by decide) _)
      · exact ⟨hnumeral, rfl⟩
  · rename_i hsign
    rw [digits?_eq_some_iff hbase]
    constructor
    · rintro ⟨hnumeral, rfl⟩
      exact .plain hnumeral
    · rintro (hnumeral | hnumeral)
      · exact ⟨hnumeral, rfl⟩
      · exact absurd rfl (hsign _)

theorem signed?_eq_some_iff {v : Int} {cs : List Char} :
    signed? base cs = some v ↔ Signed base cs v ∧ -2 ^ 63 ≤ v ∧ v < 2 ^ 63 := by
  unfold signed?
  rw [Option.filter_eq_some_iff, Bool.and_eq_true, decide_eq_true_eq, decide_eq_true_eq]
  refine and_congr_left fun _ => ?_
  split
  · rename_i digits
    simp only [Option.map_eq_some_iff, Option.bind_eq_bind, Option.bind_eq_some_iff, Option.pure_def, Option.some.injEq,
      digits?_eq_some_iff hbase]
    constructor
    · rintro ⟨_, ⟨n, ⟨hnumeral, rfl⟩, rfl⟩, rfl⟩
      exact .minus hnumeral
    · intro h
      cases h with
      | natural written =>
        cases written with
        | plain hnumeral => exact absurd hnumeral (not_isNumeral_of_sign hbase (by decide) _)
      | minus hnumeral => exact ⟨_, ⟨_, ⟨hnumeral, rfl⟩, rfl⟩, rfl⟩
  · rename_i digits
    simp only [Option.map_eq_some_iff, digits?_eq_some_iff hbase]
    constructor
    · rintro ⟨n, ⟨hnumeral, rfl⟩, rfl⟩
      exact .natural (.plus hnumeral)
    · intro h
      cases h with
      | natural written =>
        cases written with
        | plain hnumeral => exact absurd hnumeral (not_isNumeral_of_sign hbase (by decide) _)
        | plus hnumeral => exact ⟨_, ⟨hnumeral, rfl⟩, rfl⟩
  · rename_i hminus hplus
    simp only [Option.map_eq_some_iff, digits?_eq_some_iff hbase]
    constructor
    · rintro ⟨n, ⟨hnumeral, rfl⟩, rfl⟩
      exact .natural (.plain hnumeral)
    · intro h
      cases h with
      | natural written =>
        cases written with
        | plain hnumeral => exact ⟨_, ⟨hnumeral, rfl⟩, rfl⟩
        | plus hnumeral => exact absurd rfl (hplus _)
      | minus hnumeral => exact absurd rfl (hminus _)

end

/-! ## Characters -/

theorem Signed.exists_digits {base : Nat} {cs : List Char} {v : Int} (h : Signed base cs v) :
    ∃ sign digits, cs = sign ++ digits ∧ (∀ c ∈ sign, c = '+' ∨ c = '-') ∧ IsNumeral base digits := by
  cases h with
  | natural written =>
    cases written with
    | plain numeral => exact ⟨[], _, rfl, by simp, numeral⟩
    | plus numeral => exact ⟨['+'], _, rfl, by simp, numeral⟩
  | minus numeral => exact ⟨['-'], _, rfl, by simp, numeral⟩

theorem Signed.sign_or_digit {base : Nat} {cs : List Char} {v : Int} (h : Signed base cs v) :
    ∀ c ∈ cs, (c = '+' ∨ c = '-') ∨ weight c < base := by
  obtain ⟨sign, digits, rfl, hsign, hdigits⟩ := h.exists_digits
  intro c hc
  exact (List.mem_append.mp hc).imp (hsign c) (hdigits.2 c)

theorem Signed.ne_nil {base : Nat} {cs : List Char} {v : Int} (h : Signed base cs v) : cs ≠ [] := by
  obtain ⟨sign, digits, rfl, -, hdigits⟩ := h.exists_digits
  exact List.append_ne_nil_of_right_ne_nil sign hdigits.1

theorem Signed.weight_getLast {base : Nat} {cs : List Char} {v : Int} (h : Signed base cs v) :
    ∀ c ∈ cs.getLast?, weight c < base := by
  obtain ⟨sign, digits, rfl, -, hdigits⟩ := h.exists_digits
  intro c hc
  rw [List.getLast?_append_of_ne_nil sign hdigits.1] at hc
  exact hdigits.2 c (List.mem_of_getLast? hc)

end FirmwareCatalog.Numeral
