import FirmwareCatalog.Proofs.Bytewise.Text
import FirmwareCatalog.Proofs.Header.Scan

/-!
# Matches by byte offsets

A scan says how many characters stand before a match; a search over bytes says
how many bytes.
-/

namespace FirmwareCatalog.Bytewise

open Header Utf8

variable {α : Type}

def startByte (text : List Char) (m : Match α) : Nat := width (text.take m.start)

def stopByte (text : List Char) (m : Match α) : Nat := startByte text m + width m.text

/-- Where a match stands in a text: between `a` and `b`. -/
structure Located (read : Reader α) (text : List Char) (m : Match α) (a b : List Char) : Prop where
  text_eq : text = a ++ (m.text ++ b)
  start_eq : m.start = a.length
  ne_nil : m.text ≠ []
  reads : read (behind none a) (m.text ++ b) = some (m.value, b)

theorem exists_located {read : Reader α} (hread : Consumes read) {text : List Char} {m : Match α}
    (hm : m ∈ scan read text) : ∃ a b, Located read text m a b := by
  obtain ⟨a, b, htext, hstart, hvalue⟩ := exists_of_mem_scanFrom hread hm
  refine ⟨a, b, htext, by rw [hstart, Nat.zero_add], ?_, hvalue⟩
  intro hnil
  obtain ⟨taken, hne, heq⟩ := hread hvalue
  rw [hnil, List.nil_append] at heq
  exact hne (by simpa using heq)

section

variable {read : Reader α} {text : List Char} {m : Match α} {a b : List Char} (h : Located read text m a b)
include h

theorem Located.startByte_eq : startByte text m = width a := by
  rw [startByte, h.text_eq, h.start_eq, List.take_left]

theorem Located.stopByte_eq : stopByte text m = width (a ++ m.text) := by
  rw [stopByte, h.startByte_eq, width_append]

theorem Located.startByte_lt : startByte text m < stopByte text m := by
  have hpos : width m.text ≠ 0 := fun hzero => h.ne_nil (width_eq_zero_iff.mp hzero)
  rw [stopByte]
  omega

end

end FirmwareCatalog.Bytewise
