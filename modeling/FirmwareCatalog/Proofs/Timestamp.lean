import FirmwareCatalog.Proofs.Text.Numeral
import FirmwareCatalog.Timestamp

/-!
# The characters of timestamps

A timestamp is written with digits, signs and the marks between them.
-/

namespace FirmwareCatalog.Timestamp

open Numeral

theorem notMem_padded {c : Char} (h : c.isDigit = false) (width n : Nat) :
    c ∉ (padded width n).toList := by
  unfold padded
  simp only [String.toList_ofList, List.mem_append, List.mem_replicate, not_or, not_and]
  refine ⟨fun _ he => ?_, notMem_decimal h n⟩
  rw [he] at h
  exact absurd h (by decide)

theorem notMem_render {c : Char} (h : c.isDigit = false) (hsign : c ∉ ['-', '+', 'T', ':', 'Z'])
    (t : Timestamp) :
    c ∉ t.render.toList := by
  simp only [List.mem_cons, List.not_mem_nil, or_false, not_or] at hsign
  have hyear : c ∉ (yearText t.date.year).toList := by
    unfold yearText
    simp only [String.toList_append, List.mem_append, not_or]
    refine ⟨?_, notMem_padded h 4 _⟩
    split
    · simpa using hsign.1
    · split
      · simpa using hsign.2.1
      · simp
  unfold render
  simp [hyear, notMem_padded h, hsign]

end FirmwareCatalog.Timestamp
