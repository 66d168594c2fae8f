import FirmwareCatalog.Proofs.Header.Lexed
import FirmwareCatalog.Proofs.Removal.Place

/-!
# Texts without their comments

Where each run of comments has become one space, what is left is lexed as it was
in the text: no comment and no literal begins that was not there before.
-/

namespace FirmwareCatalog.Header

open LexState

/-! ## One space for each run -/

/-- A marked text with one space for each run of comment characters; `run` says whether one has begun. -/
def bare : (run : Bool) → List Marked → List Marked
  | _, [] => []
  | run, (c, zone) :: rest =>
    if zone.isComment then
      if run then bare true rest else (' ', .code) :: bare true rest
    else (c, zone) :: bare false rest

theorem bare_append (run : Bool) (a b : List Marked) :
    bare run (a ++ b) = bare run a ++ bare ((a.getLast?.map (·.2.isComment)).getD run) b := by
  induction a generalizing run with
  | nil => rfl
  | cons m a ih =>
    obtain ⟨c, zone⟩ := m
    rw [List.cons_append, bare, bare, ih, ih, inComment_cons]
    by_cases hzone : zone.isComment = true
    · cases run <;> simp [hzone]
    · simp [hzone]

theorem bare_of_comment {run : List Marked} (h : ∀ m ∈ run, m.2.isComment = true) (begun : Bool) :
    bare begun run = if begun = true ∨ run = [] then [] else [(' ', .code)] := by
  induction run generalizing begun with
  | nil => simp [bare]
  | cons m run ih =>
    obtain ⟨hm, h⟩ := List.forall_mem_cons.mp h
    rw [bare, if_pos hm, ih h]
    cases begun <;> simp

theorem bare_of_head {marked : List Marked} (h : ∀ m ∈ marked.head?, m.2.isComment = false) (run : Bool) :
    bare run marked = bare false marked := by
  cases marked with
  | nil => rfl
  | cons m marked => rw [bare, bare, if_neg (by simp [h m rfl]), if_neg (by simp [h m rfl])]

/-! ## Lexing again -/

def LexState.uncommented : LexState → LexState
  | .inside zone => if zone.isComment then .inside .code else .inside zone
  | .second zone after => if zone.isComment then .inside .code else .second zone after

theorem uncommented_of_isComment {zone : Zone} {s : LexState} (hs : Behind zone s) (h : zone.isComment = true) :
    s.uncommented = .inside .code := by
  cases s with
  | inside zone' =>
    rcases hs with rfl | rfl
    · exact if_pos h
    · rfl
  | second zone' after =>
    obtain ⟨rfl, -⟩ := hs
    exact if_pos h

theorem uncommented_of_not_isComment {zone : Zone} {s : LexState} (hs : Behind zone s)
    (h : zone.isComment = false) : s.uncommented = s := by
  cases s with
  | inside zone' =>
    rcases hs with rfl | rfl
    · exact if_neg (by simp [h])
    · rfl
  | second zone' after =>
    obtain ⟨rfl, -⟩ := hs
    exact if_neg (by simp [h])

theorem uncommented_of_step {s : LexState} {c : Char} {next : Option Char}
    (h : (s.step c next).1.isComment = true) : s.uncommented = .inside .code := by
  cases s with
  | second zone after => exact if_pos h
  | inside zone =>
    cases zone with
    | code => rfl
    | lineComment => rfl
    | blockComment => rfl
    | string =>
      rw [step, literalStep_zone] at h
      cases h
    | character =>
      rw [step, literalStep_zone] at h
      cases h

theorem eq_slash_of_step {c : Char} {next : Option Char}
    (h : ((inside .code).step c next).1.isComment = true) : c = '/' := by
  by_contra hc
  simp only [step, hc, false_and, if_false] at h
  split at h
  · cases h
  · split at h <;> cases h

/-- Where a character is kept, the lexer that has not seen the comments steps as the other. -/
theorem step_uncommented {s : LexState} {c : Char} {next : Option Char}
    (h : (s.step c next).1.isComment = false) {next' : Option Char}
    (hnext : next' = next ∨ next = some '/' ∧ next' = some ' ' ∧ (s.step c next).2 = .inside .code) :
    s.uncommented.step c next' = s.step c next := by
  have same (hs : s.uncommented = s) : s.uncommented.step c next' = s.step c next := by
    rcases hnext with rfl | ⟨rfl, rfl, hcode⟩
    · rw [hs]
    · rw [hs, step_slash hcode]
  cases s with
  | second zone after => exact same (if_neg (by simpa [step] using h))
  | inside zone =>
    cases zone with
    | code => exact same rfl
    | string => exact same rfl
    | character => exact same rfl
    | lineComment =>
      by_cases hc : c = '\n'
      · subst hc
        rfl
      · simp [step, hc] at h
        cases h
    | blockComment =>
      simp only [step] at h
      split at h <;> cases h

theorem markFrom_stripRuns (text : List Char) : ∀ {s : LexState} {zone : Zone} (run : Bool), Behind zone s →
    markFrom s.uncommented (stripRuns run (markFrom s text)) = bare run (markFrom s text) := by
  induction text with
  | nil => exact fun _ _ => rfl
  | cons c text ih =>
    intro s zone run hs
    have hs' := behind_step hs c text.head?
    by_cases hz : (s.step c text.head?).1.isComment = true
    · have hrest := ih true hs'
      rw [uncommented_of_isComment hs' hz] at hrest
      rw [uncommented_of_step hz, markFrom, stripRuns, bare, if_pos hz, if_pos hz]
      cases run with
      | true => exact hrest
      | false =>
        rw [if_neg (by simp), if_neg (by simp), markFrom,
          step_code (by decide) (by decide) (by decide)]
        exact congrArg _ hrest
    · have hz : (s.step c text.head?).1.isComment = false := by simpa using hz
      have hrest := ih false hs'
      rw [uncommented_of_not_isComment hs' hz] at hrest
      -- the next character is kept, or it opens a comment and a space takes its place
      have hnext : (stripRuns false (markFrom (s.step c text.head?).2 text)).head? = text.head? ∨
          text.head? = some '/' ∧
            (stripRuns false (markFrom (s.step c text.head?).2 text)).head? = some ' ' ∧
              (s.step c text.head?).2 = .inside .code := by
        cases text with
        | nil => exact .inl rfl
        | cons d text =>
          by_cases hd : ((s.step c (d :: text).head?).2.step d text.head?).1.isComment = true
          · have hcode := eq_code_of_comment hs' hz hd
            have hslash : d = '/' := eq_slash_of_step (by rwa [hcode] at hd)
            refine .inr ⟨congrArg some hslash, ?_, hcode⟩
            rw [markFrom, stripRuns, if_pos hd, if_neg (by simp)]
            rfl
          · refine .inl ?_
            rw [markFrom, stripRuns, if_neg hd]
            rfl
      rw [markFrom, stripRuns, bare, if_neg (by simp [hz]), if_neg (by simp [hz]), markFrom,
        step_uncommented hz hnext, hrest]

theorem mark_stripComments (text : List Char) : mark (stripComments text) = bare false (mark text) :=
  markFrom_stripRuns text false behind_start

end FirmwareCatalog.Header
