import Mathlib.Data.List.Infix
import Mathlib.Data.List.TakeWhile

/-!
# Where a needle can stand

A needle does not reach over a character that it does not hold, so where a text
is put together from parts with such characters between them, it stands in one
of the parts. What is asked of all its characters is decided along the text.
-/

namespace FirmwareCatalog.Text

variable {α : Type} {needle : List α}

theorem prefix_of_prefix_append_cons {a b : List α} {c : α} (hc : c ∉ needle)
    (h : needle <+: a ++ c :: b) :
    needle <+: a := by
  obtain ⟨rest, h⟩ := h
  rcases List.append_eq_append_iff.mp h with ⟨x, rfl, -⟩ | ⟨x, rfl, hx⟩
  · exact List.prefix_append _ _
  · cases x with
    | nil => simp
    | cons d x =>
      rw [List.cons_append, List.cons.injEq] at hx
      exact absurd (by simp [← hx.1]) hc

theorem infix_of_infix_append_cons : ∀ {a b : List α} {c : α}, c ∉ needle → needle <:+: a ++ c :: b →
    needle <:+: a ∨ needle <:+: b
  | [], b, c, hc, h => by
    rcases List.infix_cons_iff.mp h with h | h
    · exact .inl (prefix_of_prefix_append_cons hc (a := []) h).isInfix
    · exact .inr h
  | d :: a, b, c, hc, h => by
    rcases List.infix_cons_iff.mp h with h | h
    · exact .inl (prefix_of_prefix_append_cons hc (a := d :: a) h).isInfix
    · exact (infix_of_infix_append_cons hc h).imp_left List.infix_cons

theorem infix_of_first_notMem {a b : List α} {c : α} (hc : c ∉ a) (h : c :: needle <:+: a ++ b) :
    c :: needle <:+: b := by
  induction a with
  | nil => exact h
  | cons d a ih =>
    rw [List.mem_cons, not_or] at hc
    rcases List.infix_cons_iff.mp h with h | h
    · exact absurd (List.cons_prefix_cons.mp h).1 hc.1
    · exact ih hc.2 h

theorem infix_of_last_notMem {a b : List α} {c : α} (hc : c ∉ b) (h : needle ++ [c] <:+: a ++ b) :
    needle ++ [c] <:+: a := by
  rw [← List.reverse_infix, List.reverse_append] at h ⊢
  refine infix_of_first_notMem (a := b.reverse) (by simpa using hc) ?_
  simpa using h

/-! ## Lines -/

def ofLines (lines : List (List Char)) : List Char := lines.flatMap (· ++ ['\n'])

@[simp] theorem ofLines_nil : ofLines [] = [] := rfl

@[simp] theorem ofLines_cons (line : List Char) (lines : List (List Char)) :
    ofLines (line :: lines) = line ++ '\n' :: ofLines lines := by
  rw [ofLines, List.flatMap_cons, ofLines, List.append_assoc, List.singleton_append]

@[simp] theorem ofLines_append (a b : List (List Char)) : ofLines (a ++ b) = ofLines a ++
  ofLines b := by
  rw [ofLines, List.flatMap_append, ofLines, ofLines]

theorem infix_line_of_prefix_drop {needle rest : List Char} (hneedle : '\n' ∉ needle) :
    ∀ {lines : List (List Char)} {k : Nat}, k < (ofLines lines).length →
      needle <+: (ofLines lines ++ rest).drop k → ∃ line ∈ lines, needle <:+: line
  | [], k, hk, _ => absurd hk (Nat.not_lt_zero k)
  | line :: lines, k, hk, h => by
    rw [ofLines_cons, List.append_assoc, List.cons_append] at h
    rcases Nat.lt_or_ge line.length k with hlt | hge
    · rw [ofLines_cons, List.length_append, List.length_cons] at hk
      obtain ⟨j, rfl⟩ := Nat.exists_eq_add_of_lt hlt
      rw [Nat.add_assoc, List.drop_append, List.drop_of_length_le (Nat.le_add_right _ _),
        List.nil_append,
        Nat.add_sub_cancel_left, List.drop_succ_cons] at h
      obtain ⟨line', hmem, hin⟩ := infix_line_of_prefix_drop hneedle (by omega) h
      exact ⟨line', List.mem_cons_of_mem _ hmem, hin⟩
    · rw [List.drop_append_of_le_length hge] at h
      exact ⟨line, List.mem_cons_self,
        (prefix_of_prefix_append_cons hneedle h).isInfix.trans (List.drop_suffix k line).isInfix⟩

/-- A list is gone through part by part, each up to where it is split. -/
theorem splitOnP_induction {p : α → Bool} {motive : List α → List (List α) → Prop}
    (last : ∀ part, (∀ a ∈ part, p a = false) → motive part [part])
    (cut : ∀ part sep rest, (∀ a ∈ part, p a = false) → p sep = true → motive rest (rest.splitOnP p) →
      motive (part ++ sep :: rest) (part :: rest.splitOnP p)) (l : List α) : motive l (l.splitOnP p) := by
  induction h : l.length using Nat.strongRecOn generalizing l with
  | ind n ih =>
    subst h
    have hpart : ∀ a ∈ l.takeWhile fun a => !p a, p a = false := fun a ha => by
      simpa using List.mem_takeWhile_imp ha
    have hsplit := List.takeWhile_append_dropWhile (p := fun a => !p a) (l := l)
    cases hrest : l.dropWhile fun a => !p a with
    | nil =>
      rw [hrest, List.append_nil] at hsplit
      rw [hsplit] at hpart
      rw [List.splitOnP_eq_singleton hpart]
      exact last l hpart
    | cons sep rest =>
      have hsep : p sep = true := by simpa [hrest] using List.head?_dropWhile_not (fun a => !p a) l
      rw [hrest] at hsplit
      have hlength : rest.length < l.length := by
        rw [← hsplit, List.length_append, List.length_cons]
        omega
      rw [← hsplit, List.splitOnP_append_cons_of_forall_mem hpart _ hsep]
      exact cut _ sep rest hpart hsep (ih _ hlength rest rfl)

/-- The library decides such a statement over all characters there are. -/
instance decidableForallMem {p : Char → Prop} [DecidablePred p] (text : List Char) :
    Decidable (∀ c ∈ text, p c) :=
  List.decidableBAll p text

end FirmwareCatalog.Text
