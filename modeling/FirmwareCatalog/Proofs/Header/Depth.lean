import FirmwareCatalog.Proofs.Header.Element

/-!
# The depth of braces

How many braces are open is counted over a piece of a marked text. What closes a
brace is the first closer behind it that leaves as many open as there were before
it, and a body that ends at the closer of its own brace opens as many as it closes.
-/

namespace FirmwareCatalog.Header

/-! ## Counting -/

def braceStep (m : Marked) : Int :=
  if m = ('\x7b', .code) then 1 else if m = ('\x7d', .code) then -1 else 0

def openBraces : List Marked → Int
  | [] => 0
  | m :: marked => braceStep m + openBraces marked

@[simp] theorem openBraces_nil : openBraces [] = 0 := rfl

@[simp] theorem openBraces_cons (m : Marked) (marked : List Marked) :
    openBraces (m :: marked) = braceStep m + openBraces marked := rfl

@[simp] theorem openBraces_append (a b : List Marked) : openBraces (a ++ b) = openBraces a + openBraces b := by
  induction a with
  | nil => exact (Int.zero_add _).symm
  | cons m a ih => rw [List.cons_append, openBraces_cons, openBraces_cons, ih, Int.add_assoc]

@[simp] theorem braceStep_opener : braceStep ('\x7b', .code) = 1 := rfl

@[simp] theorem braceStep_closer : braceStep ('\x7d', .code) = -1 := rfl

theorem braceStep_of_neutral {m : Marked} (h : IsNeutral '\x7b' '\x7d' m) : braceStep m = 0 :=
  bracketStep_of_neutral h

theorem openBraces_of_neutral {piece : List Marked} (h : ∀ m ∈ piece, IsNeutral '\x7b' '\x7d' m) :
    openBraces piece = 0 := by
  induction piece with
  | nil => rfl
  | cons m piece ih =>
    obtain ⟨hm, h⟩ := List.forall_mem_cons.mp h
    rw [openBraces_cons, braceStep_of_neutral hm, ih h, Int.add_zero]

/-- Braces that match: a closer stands behind its opener, and each opener has one. -/
structure BracesMatch (marked : List Marked) : Prop where
  opened : ∀ k, 0 ≤ openBraces (marked.take k)
  closed : openBraces marked = 0

theorem openBraces_eq (marked : List Marked) : openBraces marked = openBrackets '\x7b' '\x7d' marked := by
  induction marked with
  | nil => rfl
  | cons m marked ih => rw [openBraces_cons, openBrackets_cons, ih]; rfl

theorem openBraces_of_splitClosing {marked : List Marked} {depth : Int} {inner rest : List Marked}
    (hdepth : 1 ≤ depth)
    (h : splitClosing '\x7b' '\x7d' depth marked = some (inner, rest)) :
    (∀ k, 1 ≤ depth + openBraces (inner.take k)) ∧ depth + openBraces inner = 1 := by
  simp only [openBraces_eq]
  exact ((splitClosing_eq_some_iff (by decide) hdepth).mp h).2

theorem bracesMatch_of_splitClosing {marked body rest : List Marked}
    (h : splitClosing '\x7b' '\x7d' 1 marked = some (body, rest)) : BracesMatch body := by
  obtain ⟨hopen, hend⟩ := openBraces_of_splitClosing (Int.le_refl 1) h
  exact ⟨fun k => by have := hopen k; omega, by omega⟩

/-! ## Openers and closers -/

section
variable (marked : List Marked)

/-- A brace that opens where none is open. -/
def OpensAt (k : Nat) : Prop := marked[k]? = some ('\x7b', .code) ∧ openBraces (marked.take k) = 0

instance (k : Nat) : Decidable (OpensAt marked k) := inferInstanceAs (Decidable (_ ∧ _))

/-- The first closer behind an opener that leaves as many braces open as there are before it. -/
structure ClosesAt (opening closing : Nat) : Prop where
  behind : opening < closing
  closer : marked[closing]? = some ('\x7d', .code)
  ends : openBraces (marked.take (closing + 1)) = openBraces (marked.take opening)
  first : ∀ k, opening < k → k ≤ closing → openBraces (marked.take opening) < openBraces (marked.take k)

end

theorem opensAt_braced {front : List Marked} (htop : openBraces front = 0) (inner rest : List Marked) :
    OpensAt (front ++ (braced inner ++ rest)) front.length := by
  refine ⟨?_, by rw [List.take_left, htop]⟩
  rw [List.getElem?_append_right (Nat.le_refl _), Nat.sub_self]
  rfl

section
variable {front inner rest : List Marked}
  (hinner : splitClosing '\x7b' '\x7d' 1 (inner ++ ('\x7d', .code) :: rest) = some (inner, rest))

theorem take_braced (k : Nat) (hk : k ≤ inner.length) :
    (front ++ (braced inner ++ rest)).take (front.length + (k + 1)) = front ++ ('\x7b', .code) :: inner.take k := by
  rw [List.take_length_add_append, braced_append, List.take_succ_cons, List.take_append_of_le_length hk]

include hinner

theorem openBraces_braced : openBraces (braced inner) = 0 := by
  have hend := (openBraces_of_splitClosing (Int.le_refl 1) hinner).2
  simp only [braced, openBraces_cons, openBraces_append, openBraces_nil, braceStep_opener, braceStep_closer]
  omega

theorem closesAt_braced :
    ClosesAt (front ++ (braced inner ++ rest)) front.length (front.length + (inner.length + 1)) := by
  obtain ⟨hopen, hend⟩ := openBraces_of_splitClosing (Int.le_refl 1) hinner
  have hfront : (front ++ (braced inner ++ rest)).take front.length = front := List.take_left
  refine ⟨by omega, ?_, ?_, fun k hk hle => ?_⟩
  · rw [List.getElem?_append_right (by omega), Nat.add_sub_cancel_left, braced_append, List.getElem?_cons_succ,
      List.getElem?_append_right (Nat.le_refl _), Nat.sub_self]
    rfl
  · rw [hfront, Nat.add_assoc, List.take_length_add_append, List.take_append_of_le_length (by simp [braced]),
      List.take_of_length_le (by simp [braced])]
    simp [braced]
    omega
  · obtain ⟨j, rfl⟩ : ∃ j, k = front.length + (j + 1) := ⟨k - front.length - 1, by omega⟩
    rw [hfront, take_braced j (by omega)]
    have := hopen j
    simp
    omega

theorem filter_opensAt_braced (htop : openBraces front = 0) :
    (List.range' front.length (braced inner).length).filter (OpensAt (front ++ (braced inner ++ rest))) =
      [front.length] := by
  have hcloses : ClosesAt (front ++ (braced inner ++ rest)) _ _ := closesAt_braced hinner
  have hfront : (front ++ (braced inner ++ rest)).take front.length = front := List.take_left
  rw [length_braced, List.range'_succ, List.filter_cons_of_pos (by simpa using opensAt_braced htop inner rest),
    List.cons.injEq]
  refine ⟨rfl, List.filter_eq_nil_iff.mpr fun k hk hopen => ?_⟩
  rw [List.mem_range'_1] at hk
  have hinside := hcloses.first k (by omega) (by omega)
  have hat : OpensAt (front ++ (braced inner ++ rest)) k := by simpa using hopen
  rw [hfront, htop, hat.2] at hinside
  exact Int.lt_irrefl 0 hinside

end

theorem filter_opensAt_of_neutral {front gap rest : List Marked} (h : ∀ m ∈ gap, IsNeutral '\x7b' '\x7d' m) :
    (List.range' front.length gap.length).filter (OpensAt (front ++ (gap ++ rest))) = [] := by
  refine List.filter_eq_nil_iff.mpr fun k hk hopen => ?_
  obtain ⟨hle, hlt⟩ := List.mem_range'_1.mp hk
  have hat : OpensAt (front ++ (gap ++ rest)) k := by simpa using hopen
  have hget := hat.1
  rw [List.getElem?_append_right hle, List.getElem?_append_left (by omega)] at hget
  exact (h _ (List.mem_of_getElem? hget) rfl).2 rfl

end FirmwareCatalog.Header
