import FirmwareCatalog.Proofs.Header.Element
import FirmwareCatalog.Proofs.Removal.Stripped

/-!
# Exact and final removal of comments

Comments that touch leave one space, and every other character stays in its
zone. What is left holds no comment, so it is not changed again.
-/

namespace FirmwareCatalog.Header

/-- What is left of a marked text: one space in code for each run of comment characters, as many as stand together,
and every other character with its zone. -/
inductive Cleared : List Marked → List Marked → Prop
  | nil : Cleared [] []
  | kept {m : Marked} {marked left : List Marked} (outside : m.2.isComment = false) (rest : Cleared marked left) :
      Cleared (m :: marked) (m :: left)
  | run {run marked left : List Marked} (ne : run ≠ []) (inside : ∀ m ∈ run, m.2.isComment = true)
      (whole : Apart run marked) (rest : Cleared marked left) : Cleared (run ++ marked) ((' ', .code) :: left)

theorem Cleared.noComment {marked left : List Marked} (h : Cleared marked left) :
    ∀ m ∈ left, m.2.isComment = false := by
  induction h with
  | nil => exact fun m hm => nomatch hm
  | kept outside _ ih => exact List.forall_mem_cons.mpr ⟨outside, ih⟩
  | run _ _ _ _ ih => exact List.forall_mem_cons.mpr ⟨rfl, ih⟩

theorem bare_run_append {run rest : List Marked} (hne : run ≠ []) (hrun : ∀ m ∈ run, m.2.isComment = true)
    (hrest : Apart run rest) : bare false (run ++ rest) = (' ', .code) :: bare false rest := by
  rw [bare_append, bare_of_comment hrun, if_neg (by simp [hne]), bare_of_head (hrest.head hne hrun)]
  rfl

theorem cleared_bare (marked : List Marked) : Cleared marked (bare false marked) := by
  -- a run is passed at once, so the induction is on the length
  induction h : marked.length using Nat.strongRecOn generalizing marked with
  | ind n ih =>
    subst h
    cases marked with
    | nil => exact .nil
    | cons m marked =>
      by_cases hm : m.2.isComment = true
      · obtain ⟨run, rest, hsplit, hne, hrun, hrest⟩ := exists_run hm marked
        have hlength : rest.length < (m :: marked).length := by
          have := List.length_pos_iff.mpr hne
          rw [hsplit, List.length_append]
          omega
        rw [hsplit, bare_run_append hne hrun hrest]
        exact .run hne hrun hrest (ih _ hlength rest rfl)
      · rw [bare, if_neg hm]
        exact .kept (by simpa using hm) (ih _ (by simp) marked rfl)

theorem bare_of_noComment {piece : List Marked} (h : ∀ m ∈ piece, m.2.isComment = false) (run : Bool) :
    bare run piece = piece := by
  induction piece generalizing run with
  | nil => rfl
  | cons m piece ih =>
    obtain ⟨hm, h⟩ := List.forall_mem_cons.mp h
    rw [bare, if_neg (by simp [hm]), ih h]

theorem bare_piece {piece : List Marked} (hne : piece ≠ []) (h : ∀ m ∈ piece, m.2.isComment = false)
    (before behind : List Marked) :
    bare false (before ++ (piece ++ behind)) = bare false before ++ (piece ++ bare false behind) := by
  have hlast := List.getLast?_eq_some_getLast hne
  rw [bare_append, bare_append, bare_of_noComment h, hlast, Option.map_some, Option.getD_some,
    h _ (List.getLast_mem hne)]

/-- **Removing comments is exact and final.** What is left is marked as the text was, with one space in code for each
run of comments. It holds no comment, so removing comments again changes nothing; and any piece without comments, such
as a literal that looks like one, stands in it between what is left of its surroundings. -/
theorem stripComments_exact (text : List Char) :
    Cleared (mark text) (mark (stripComments text)) ∧
    (∀ m ∈ mark (stripComments text), m.2.isComment = false) ∧
    stripComments (stripComments text) = stripComments text ∧
    ∀ before piece behind, mark text = before ++ (piece ++ behind) → piece ≠ [] →
      (∀ m ∈ piece, m.2.isComment = false) → ∃ before' behind', Cleared before before' ∧
      Cleared behind behind' ∧
        mark (stripComments text) = before' ++ (piece ++ behind') := by
  have hcleared : Cleared (mark text) (mark (stripComments text)) := by
    rw [mark_stripComments]
    exact cleared_bare (mark text)
  refine ⟨hcleared, hcleared.noComment, stripComments_of_noComment hcleared.noComment, ?_⟩
  intro before piece behind hmark hne hpiece
  refine ⟨bare false before, bare false behind, cleared_bare before, cleared_bare behind, ?_⟩
  rw [mark_stripComments, hmark, bare_piece hne hpiece]

def quotedComment : List Char := "a/*b*///c\n\"//d\"/**/".toList

theorem stripComments_exact_quotedComment : ∃ before' behind', Cleared (mark "a/*b*///c\n".toList) before' ∧
    Cleared (inZone .blockComment "/**/".toList) behind' ∧
    mark (stripComments quotedComment) = before' ++ (inZone .string "\"//d\"".toList ++ behind') ∧
    stripComments quotedComment = "a \n\"//d\" ".toList := by
  obtain ⟨-, -, -, hpieces⟩ := stripComments_exact quotedComment
  obtain ⟨before', behind', hbefore, hbehind, hleft⟩ := hpieces (mark "a/*b*///c\n".toList)
    (inZone .string "\"//d\"".toList) (inZone .blockComment "/**/".toList) (by decide) (by decide) (by decide)
  exact ⟨before', behind', hbefore, hbehind, hleft, by decide⟩

end FirmwareCatalog.Header
