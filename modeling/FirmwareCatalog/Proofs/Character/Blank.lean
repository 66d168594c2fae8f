import FirmwareCatalog.Character.Blank
import FirmwareCatalog.Character.DecimalDigit
import FirmwareCatalog.Character.Word

/-!
# Blanks and words

No character is both, so a word ends where blanks begin.
-/

namespace FirmwareCatalog.Character

theorem Ranges.exists_of_contains {n : Nat} : ∀ {ranges : Ranges}, ranges.contains n = true →
    ∃ range ∈ ranges, range.1 ≤ n ∧ n ≤ range.2
  | (low, high) :: ranges, h => by
    simp only [contains] at h
    split at h
    · cases h
    · rcases Bool.or_eq_true_iff.mp h with hhigh | hrest
      · exact ⟨(low, high), List.mem_cons_self, by omega, by simpa using hhigh⟩
      · obtain ⟨range, hmem, hrange⟩ := exists_of_contains hrest
        exact ⟨range, List.mem_cons_of_mem _ hmem, hrange⟩

theorem isBlank_of_mem_nil : ∀ c ∈ ([] : List Char), isBlank c = true := List.forall_mem_nil _

theorem forall_blank {p : Nat → Prop} (h : ∀ range ∈ blankRanges, ∀ k < range.2 - range.1 + 1, p (range.1 + k))
    {c : Char} (hc : isBlank c = true) : p c.toNat := by
  obtain ⟨range, hmem, hlow, hhigh⟩ := Ranges.exists_of_contains hc
  have hp := h range hmem (c.toNat - range.1) (by omega)
  rwa [Nat.add_sub_cancel' hlow] at hp

theorem isWord_eq_false_of_isBlank {c : Char} (h : isBlank c = true) : isWord c = false :=
  forall_blank (p := fun n => wordRanges.contains n = false) (by decide +kernel) h

theorem isDecimalDigit_eq_false_of_isBlank {c : Char} (h : isBlank c = true) : isDecimalDigit c = false :=
  forall_blank (p := fun n => decimalDigitRanges.contains n = false) (by decide +kernel) h

theorem isBlank_eq_false_of_isWord {c : Char} (h : isWord c = true) : isBlank c = false :=
  Bool.eq_false_iff.mpr fun hblank => Bool.eq_false_iff.mp (isWord_eq_false_of_isBlank hblank) h

theorem isBlank_eq_false_of_isDecimalDigit {c : Char} (h : isDecimalDigit c = true) : isBlank c = false :=
  Bool.eq_false_iff.mpr fun hblank => Bool.eq_false_iff.mp (isDecimalDigit_eq_false_of_isBlank hblank) h

end FirmwareCatalog.Character
