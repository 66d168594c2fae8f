import FirmwareCatalog.Header.StructArray
import FirmwareCatalog.Proofs.Header.Bracket
import FirmwareCatalog.Proofs.Header.Token

/-!
# Cutting out elements

The source of an element, from the comment that announces its index on, is a
piece of the array body that gives the same block wherever a body holds it.
-/

namespace FirmwareCatalog.Header

open Text

/-! ## Pieces -/

/-- Comments that touch are one, so a comment is cut off only where another character follows. -/
def Apart (a b : List Marked) : Prop :=
  ∀ m ∈ a.getLast?, m.2.isComment = true → ∀ m' ∈ b.head?, m'.2.isComment = false

theorem Apart.behind {a b rest : List Marked} (h : Apart b rest) (hne : b ≠ []) :
    Apart (a ++ b) rest := by
  intro m hm
  rw [List.getLast?_append_of_ne_nil _ hne] at hm
  exact h m hm

theorem Apart.before {a b rest : List Marked} (h : Apart a b) (hne : b ≠ []) :
    Apart a (b ++ rest) := by
  intro m hm hcomment m' hm'
  cases b with
  | nil => exact absurd rfl hne
  | cons d b => exact h m hm hcomment m' hm'

theorem Apart.within {a b c d : List Marked} (h : Apart (a ++ b) (c ++ d)) : Apart b c := by
  intro m hm hcomment m' hm'
  refine h m ?_ hcomment m' ?_
  · rw [List.getLast?_append, Option.mem_def.mp hm, Option.some_or, Option.mem_some_iff]
  · rw [List.head?_append, Option.mem_def.mp hm', Option.some_or, Option.mem_some_iff]

theorem apart_of_head {a rest : List Marked} {m : Marked} (h : m.2.isComment = false) :
    Apart a (m :: rest) := by
  intro _ _ _ m' hm'
  rw [List.head?_cons, Option.mem_some_iff] at hm'
  rw [← hm', h]

theorem apart_of_last {a rest : List Marked} {m : Marked} (h : m.2.isComment = false) :
    Apart (a ++ [m]) rest := by
  intro m' hm' hcomment
  rw [List.getLast?_concat, Option.mem_some_iff] at hm'
  rw [← hm', h] at hcomment
  cases hcomment

theorem Apart.head {run rest : List Marked} (h : Apart run rest) (hne : run ≠ [])
    (hrun : ∀ m ∈ run, m.2.isComment = true) : ∀ m ∈ rest.head?, m.2.isComment = false :=
  h _ (List.getLast?_eq_some_getLast hne) (hrun _ (List.getLast_mem hne))

theorem pieces_comment {run rest : List Marked} (hne : run ≠ [])
    (hrun : ∀ m ∈ run, m.2.isComment = true)
    (hrest : Apart run rest) : pieces (run ++ rest) = .comment (plain run) :: pieces rest := by
  have hstop := hrest.head hne hrun
  have htake (front : List Marked) (hfront : ∀ m ∈ front, m.2.isComment = true) :
      (front ++ rest).takeWhile (fun m : Marked => m.2.isComment) = front := by
    rw [List.takeWhile_append_of_pos hfront]
    cases rest with
    | nil => simp
    | cons d rest => rw [List.takeWhile_cons_of_neg (by simpa using hstop d rfl), List.append_nil]
  have hdrop (front : List Marked) (hfront : ∀ m ∈ front, m.2.isComment = true) :
      (front ++ rest).dropWhile (fun m : Marked => m.2.isComment) = rest := by
    rw [List.dropWhile_append_of_pos hfront]
    cases rest with
    | nil => rfl
    | cons d rest => rw [List.dropWhile_cons_of_neg (by simpa using hstop d rfl)]
  cases run with
  | nil => exact absurd rfl hne
  | cons m run =>
    obtain ⟨c, zone⟩ := m
    obtain ⟨hfirst, hfront⟩ := List.forall_mem_cons.mp hrun
    rw [List.cons_append, pieces, if_pos hfirst, htake run hfront, hdrop run hfront, plain_cons]

theorem pieces_element {inner rest : List Marked}
    (h : splitClosing '\x7b' '\x7d' 1 (inner ++ ('\x7d', .code) :: rest) = some (inner, rest)) :
    pieces (('\x7b', .code) :: (inner ++ ('\x7d', .code) :: rest)) = .element
      (plain inner) :: pieces rest := by
  rw [pieces, if_neg (by decide), if_pos ⟨rfl, rfl⟩]
  split
  · rename_i hnone
    rw [h] at hnone
    cases hnone
  · rename_i hsome
    rw [h] at hsome
    cases hsome
    rfl

theorem pieces_unclosed {rest : List Marked} (h : splitClosing '\x7b' '\x7d' 1 rest = none) :
    pieces (('\x7b', .code) :: rest) = [] := by
  rw [pieces, if_neg (by decide), if_pos ⟨rfl, rfl⟩]
  split
  · rfl
  · rename_i hsome
    rw [h] at hsome
    cases hsome

theorem pieces_other {m : Marked} (hcomment : m.2.isComment = false) (hopen : m ≠ ('\x7b', .code))
    (rest : List Marked) :
    pieces (m :: rest) = .other m.1 :: pieces rest := by
  obtain ⟨c, zone⟩ := m
  have hneg : ¬ (zone = .code ∧ c = '\x7b') := fun h => hopen (by rw [h.1, h.2])
  rw [pieces, if_neg (by simpa using hcomment), if_neg hneg]

/-! ## Gaps and leads -/

/-- A piece between elements that announces no index. -/
structure IsGap (piece : List Marked) : Prop where
  ne : piece ≠ []
  neutral : ∀ m ∈ piece, IsNeutral '\x7b' '\x7d' m
  passes : ∀ pending rest, Apart piece rest → blocksFrom pending (pieces (piece ++ rest)) =
    blocksFrom (pending.map fun p => (p.1, p.2 ++ plain piece)) (pieces rest)

theorem isNeutral_of_isComment {opener closer : Char} {m : Marked} (h : m.2.isComment = true) :
    IsNeutral opener closer m := by
  intro hcode
  rw [hcode] at h
  cases h

theorem isGap_comment {run : List Marked} (hne : run ≠ []) (hrun : ∀ m ∈ run, m.2.isComment = true)
    (hannounced : announcedIndex? (plain run) = none) : IsGap run where
  ne := hne
  neutral := fun m hm => isNeutral_of_isComment (hrun m hm)
  passes := fun pending rest hrest => by
    rw [pieces_comment hne hrun hrest, blocksFrom, hannounced]

theorem isGap_other {m : Marked} (hcomment : m.2.isComment = false)
    (hneutral : IsNeutral '\x7b' '\x7d' m) : IsGap [m] where
  ne := List.cons_ne_nil _ _
  neutral := fun m' hm' => List.mem_singleton.mp hm' ▸ hneutral
  passes := fun pending rest _ => by
    have hopen : m ≠ ('\x7b', .code) := fun he => (hneutral (by rw [he])).2 (by rw [he])
    rw [List.singleton_append, pieces_other hcomment hopen, blocksFrom]
    rfl

/-- A piece that begins with the announcement of an index and holds no element yet. -/
structure IsLead (index : Nat) (text : List Char) (piece : List Marked) : Prop where
  plain : plain piece = text
  head : ∃ zone rest, piece = ('/', zone) :: rest ∧ zone.isComment = true
  neutral : ∀ m ∈ piece, IsNeutral '\x7b' '\x7d' m
  opens : ∀ rest, Apart piece rest → blocksFrom none (pieces (piece ++ rest)) =
    blocksFrom (some (index, text)) (pieces rest)

theorem head_of_announcedIndex? {comment : List Char} {index : Nat}
    (h : announcedIndex? comment = some index) :
    comment.head? = some '/' := by
  unfold announcedIndex? at h
  simp only [Option.bind_eq_bind, Option.bind_eq_some_iff, Option.orElse_eq_orElse,
    Option.orElse_eq_or,
    Option.or_eq_some_iff, text?_eq_some_iff] at h
  obtain ⟨rest, rfl | ⟨-, rfl⟩, -⟩ := h <;> rfl

theorem isLead_comment {run : List Marked} {index : Nat} (hrun : ∀ m ∈ run, m.2.isComment = true)
    (hannounced : announcedIndex? (plain run) = some index) : IsLead index (plain run) run := by
  have hhead := head_of_announcedIndex? hannounced
  cases run with
  | nil => cases hhead
  | cons m run =>
    obtain ⟨c, zone⟩ := m
    obtain rfl : c = '/' := by simpa using hhead
    refine ⟨rfl, ⟨zone, run, rfl, hrun _ List.mem_cons_self⟩,
      fun m hm => isNeutral_of_isComment (hrun m hm), ?_⟩
    intro rest hrest
    rw [pieces_comment (List.cons_ne_nil _ _) hrun hrest, blocksFrom, hannounced]

theorem IsLead.append {index : Nat} {text : List Char} {lead gap : List Marked}
    (h : IsLead index text lead)
    (hapart : Apart lead gap) (hgap : IsGap gap) :
    IsLead index (text ++ Header.plain gap) (lead ++ gap) where
  plain := by rw [plain_append, h.plain]
  head := by
    obtain ⟨zone, rest, rfl, hzone⟩ := h.head
    exact ⟨zone, rest ++ gap, rfl, hzone⟩
  neutral := fun m hm => (List.mem_append.mp hm).elim (h.neutral m) (hgap.neutral m)
  opens := fun rest hrest => by
    have hbehind : Apart gap rest :=
      fun m hm => hrest m (by rwa [List.getLast?_append_of_ne_nil _ hgap.ne])
    rw [List.append_assoc, h.opens _ (hapart.before hgap.ne), hgap.passes _ _ hbehind]
    rfl

/-- What stands before an element since the announcement of its index, if there is one. -/
def Pends : Option (Nat × List Char) → List Marked → Prop
  | none, piece => piece = []
  | some (index, text), piece => IsLead index text piece

theorem Pends.neutral {pending : Option (Nat × List Char)} {piece : List Marked}
    (h : Pends pending piece) :
    ∀ m ∈ piece, IsNeutral '\x7b' '\x7d' m := by
  cases pending with
  | none => rw [show piece = [] from h]; exact fun m hm => absurd hm List.not_mem_nil
  | some p => exact IsLead.neutral h

/-! ## Elements -/

/-- A piece that gives the same block wherever an array holds it. -/
structure IsElement (piece : List Marked) (block : RawBlock) : Prop where
  closed : Closed piece
  balanced : Balanced '\x7b' '\x7d' piece
  raw : plain piece = block.raw.toList
  head : ∃ c, (plain piece).head? = some c ∧ (c = '/' ∨ c = '\x7b')
  last : piece.getLast? = some ('\x7d', .code)
  reads : ∀ rest, blocksFrom none (pieces (piece ++ rest)) = block :: blocksFrom none (pieces rest)

theorem blocksFrom_element (pending : Option (Nat × List Char)) (inner : List Char)
    (rest : List Piece) :
    blocksFrom pending (.element inner :: rest) =
      elementBlock (pending.map (·.1))
        ((pending.map (·.2)).getD []) inner :: blocksFrom none rest := by
  cases pending <;> rfl

def braced (inner : List Marked) : List Marked := ('\x7b', .code) :: (inner ++ [('\x7d', .code)])

theorem braced_append (inner rest : List Marked) :
    braced inner ++ rest = ('\x7b', .code) :: (inner ++ ('\x7d', .code) :: rest) := by
  simp [braced]

theorem length_braced (inner : List Marked) : (braced inner).length = inner.length + 1 + 1 := by
  simp [braced]

theorem balanced_braced {inner rest : List Marked}
    (h : splitClosing '\x7b' '\x7d' 1 (inner ++ ('\x7d', .code) :: rest) = some (inner, rest)) :
    Balanced '\x7b' '\x7d' (braced inner) := balanced_bracketed (by decide) h

theorem Pends.isElement {pending : Option (Nat × List Char)} {lead inner rest : List Marked}
    (h : Pends pending lead)
    (hinner : splitClosing '\x7b' '\x7d' 1 (inner ++ ('\x7d', .code) :: rest) = some (inner, rest))
    (hclosed : Closed (lead ++ braced inner)) :
    IsElement (lead ++ braced inner) (elementBlock (pending.map (·.1)) ((pending.map (·.2)).getD [])
      (plain inner)) := by
  -- what follows the closer does not count for where it is
  have hreads (rest' : List Marked) : pieces (braced inner ++ rest') =
      .element (plain inner) :: pieces rest' := by
    rw [braced_append]
    exact pieces_element (splitClosing_replace (by decide) hinner rest')
  refine ⟨hclosed, (balanced_of_neutral h.neutral).append (balanced_braced hinner), ?_, ?_, ?_,
    fun rest' => ?_⟩
  · cases pending with
    | none =>
      rw [show lead = [] from h]
      simp [elementBlock, braced]
    | some p =>
      have hplain := IsLead.plain h
      simp [elementBlock, braced, hplain]
  · cases pending with
    | none =>
      rw [show lead = [] from h]
      exact ⟨_, rfl, .inr rfl⟩
    | some p =>
      obtain ⟨zone, rest', rfl, -⟩ := IsLead.head h
      exact ⟨_, rfl, .inl rfl⟩
  · rw [braced, ← List.cons_append, ← List.append_assoc, List.getLast?_concat]
  · have hapart : Apart lead (braced inner ++ rest') := by
      rw [braced_append]
      exact apart_of_head rfl
    have hlead : blocksFrom none (pieces (lead ++ (braced inner ++ rest'))) =
        blocksFrom pending (pieces (braced inner ++ rest')) := by
      cases pending with
      | none => rw [show lead = [] from h, List.nil_append]
      | some p => exact IsLead.opens h _ hapart
    rw [List.append_assoc, hlead, hreads, blocksFrom_element]

theorem closing_behind {a b c rest : List Marked} (ha : Balanced '\x7b' '\x7d' a)
    (h : splitClosing '\x7b' '\x7d' 1 (a ++ b) = some (a ++ c, rest)) :
    splitClosing '\x7b' '\x7d' 1 b = some (c, rest) := by
  rw [ha 1 (Int.le_refl 1)] at h
  obtain ⟨⟨c', rest'⟩, hb, he⟩ := Option.map_eq_some_iff.mp h
  simp only [Prod.mk.injEq, List.append_cancel_left_eq] at he
  rw [hb, he.1, he.2]

theorem Pends.closed {pending : Option (Nat × List Char)} {text : List Char}
    {before lead inner rest : List Marked}
    (h : Pends pending lead) (hmark : mark text = before ++ (lead ++ (braced inner ++ rest)))
    (hapart : Apart before (lead ++ (braced inner ++ rest))) : Closed (lead ++ braced inner) := by
  have hrestart : lead ++ (braced inner ++ rest) = mark (plain (lead ++ (braced inner ++ rest))) := by
    cases pending with
    | none =>
      rw [show lead = [] from h, List.nil_append] at hmark ⊢
      exact eq_mark_of_code hmark (braced_append _ _)
    | some p =>
      obtain ⟨zone, rest', rfl, hzone⟩ := IsLead.head h
      refine eq_mark_of_comment hmark (List.cons_append ..) hzone fun m hm => ?_
      by_contra hcomment
      have := hapart m hm (by simpa using hcomment) ('/', zone) rfl
      rw [hzone] at this
      cases this
  have hend : mark (plain (lead ++ (braced inner ++ rest))) =
      (lead ++ (('\x7b', .code) :: inner)) ++ ('\x7d', .code) :: rest := by
    rw [← hrestart, braced_append]
    simp
  have hclosed := closed_of_mark (by decide) (by decide) hend
  rwa [List.append_assoc, List.cons_append] at hclosed

theorem exists_run {m : Marked} (hm : m.2.isComment = true) (rest : List Marked) :
    ∃ run behind, m :: rest = run ++ behind ∧ run ≠ [] ∧ (∀ m ∈ run, m.2.isComment = true) ∧
      Apart run behind := by
  refine ⟨(m :: rest).takeWhile fun m : Marked => m.2.isComment,
    (m :: rest).dropWhile fun m : Marked => m.2.isComment,
    List.takeWhile_append_dropWhile.symm, ?_,
      fun m' hm' => @List.mem_takeWhile_imp _ (fun m : Marked => m.2.isComment) _ _ hm',
      fun _ _ _ m' hm' => ?_⟩
  · simp [hm]
  · have := List.head?_dropWhile_not (fun m : Marked => m.2.isComment) (m :: rest)
    rw [Option.mem_def.mp hm'] at this
    simpa using this

/-! ## Going through a body -/

theorem exists_closed {left : List Marked}
    (h : splitClosing '\x7b' '\x7d' 1 (('\x7b', .code) :: left ++ [('\x7d', .code)]) =
      some (('\x7b', .code) :: left, [])) :
    ∃ inner rest, splitClosing '\x7b' '\x7d' 1 left = some (inner, rest) := by
  rw [List.cons_append, splitClosing_opener (by decide)] at h
  obtain ⟨⟨left', rest⟩, hboth, he⟩ := Option.map_eq_some_iff.mp h
  simp only [Prod.mk.injEq, List.cons.injEq, true_and] at he
  obtain ⟨rfl, rfl⟩ := he
  obtain ⟨inner, tail, rest, hleft, hinner⟩ := exists_splitClosing_of_le (by decide) (Int.le_refl 1)
    (by decide) hboth
  have hend := eq_append_of_splitClosing (by decide) hinner
  cases tail with
  | nil =>
    -- the last closer cannot end both
    rw [List.append_nil] at hleft
    subst hleft
    have hone := ((splitClosing_eq_some_iff (by decide) (Int.le_refl 1)).mp hinner).2.2
    have htwo := ((splitClosing_eq_some_iff (by decide) (by decide)).mp hboth).2.2
    omega
  | cons m tail =>
    rw [hleft, List.append_assoc, List.cons_append, List.append_cancel_left_eq, List.cons.injEq] at hend
    obtain ⟨rfl, hrest⟩ := hend
    rw [hleft, List.append_assoc, List.cons_append, hrest] at hinner
    exact ⟨inner, tail, by rw [hleft, splitClosing_replace (by decide) hinner]⟩

/-- A marked text is gone through comment by comment, element by element, and else by single characters, up to a
brace that nothing closes. -/
@[elab_as_elim] theorem pieces_induction {motive : List Marked → Prop} (nil : motive [])
    (comment : ∀ run rest, run ≠ [] → (∀ m ∈ run, m.2.isComment = true) → Apart run rest → motive rest →
      motive (run ++ rest))
    (unclosed : ∀ rest, splitClosing '\x7b' '\x7d' 1 rest = none → motive (('\x7b', .code) :: rest))
    (element : ∀ inner rest, splitClosing '\x7b' '\x7d' 1 (inner ++ ('\x7d', .code) :: rest) = some (inner, rest) →
      motive rest → motive (braced inner ++ rest))
    (other : ∀ m rest, m.2.isComment = false → m ≠ ('\x7b', .code) → motive rest → motive (m :: rest))
    (marked : List Marked) : motive marked := by
  -- a run of comment characters is passed at once, so the induction is on the length
  induction h : marked.length using Nat.strongRecOn generalizing marked with
  | ind n ih =>
    subst h
    cases marked with
    | nil => exact nil
    | cons m marked =>
      by_cases hcomment : m.2.isComment = true
      · obtain ⟨run, rest, hsplit, hne, hrun, hrest⟩ := exists_run hcomment marked
        rw [hsplit] at ih ⊢
        have hpos := List.length_pos_iff.mpr hne
        exact comment run rest hne hrun hrest (ih _ (by rw [List.length_append]; omega) rest rfl)
      · by_cases hopen : m = ('\x7b', .code)
        · subst hopen
          cases hinner : splitClosing '\x7b' '\x7d' 1 marked with
          | none => exact unclosed marked hinner
          | some p =>
            obtain ⟨inner, rest⟩ := p
            obtain rfl := eq_append_of_splitClosing (by decide) hinner
            rw [← braced_append] at ih ⊢
            exact element inner rest hinner
              (ih _ (by rw [List.length_append, length_braced]; omega) rest rfl)
        · exact other m marked (by simpa using hcomment) hopen (ih _ (by simp) marked rfl)

@[elab_as_elim] theorem body_induction {motive : List Marked → Prop} (nil : motive [])
    (comment : ∀ run rest, run ≠ [] → (∀ m ∈ run, m.2.isComment = true) → Apart run rest → motive rest →
      motive (run ++ rest))
    (element : ∀ inner rest, splitClosing '\x7b' '\x7d' 1 (inner ++ ('\x7d', .code) :: rest) = some (inner, rest) →
      motive rest → motive (braced inner ++ rest))
    (other : ∀ m rest, m.2.isComment = false → IsNeutral '\x7b' '\x7d' m → motive rest → motive (m :: rest))
    (left : List Marked) (hclosing : splitClosing '\x7b' '\x7d' 1 (left ++ [('\x7d', .code)]) = some (left, [])) :
    motive left := by
  revert hclosing
  induction left using pieces_induction with
  | nil => exact fun _ => nil
  | comment run rest hne hrun hrest ih =>
    intro hclosing
    rw [List.append_assoc] at hclosing
    have hneutral : ∀ m ∈ run, IsNeutral '\x7b' '\x7d' m := fun m hm => isNeutral_of_isComment (hrun m hm)
    exact comment run rest hne hrun hrest (ih (closing_behind (balanced_of_neutral hneutral) hclosing))
  | unclosed rest hnone =>
    intro hclosing
    obtain ⟨inner, behind, hinner⟩ := exists_closed hclosing
    rw [hnone] at hinner
    cases hinner
  | element inner rest hinner ih =>
    intro hclosing
    rw [List.append_assoc] at hclosing
    exact element inner rest hinner (ih (closing_behind (balanced_braced hinner) hclosing))
  | other m rest hcode hopen ih =>
    intro hclosing
    rcases bracket_cases '\x7b' '\x7d' m with rfl | rfl | hneutral
    · -- a closer at the top would have closed the body
      rw [List.cons_append, splitClosing_closer_one] at hclosing
      cases hclosing
    · exact absurd rfl hopen
    · have hneutral' : ∀ m' ∈ [m], IsNeutral '\x7b' '\x7d' m' := fun m' hm' =>
        List.mem_singleton.mp hm' ▸ hneutral
      exact other m rest hcode hneutral (ih (closing_behind (balanced_of_neutral hneutral') hclosing))

/-- A body of which this is left. What was passed since the announcement of an index waits for its element. -/
structure Passed (body : List Char) (before lead : List Marked) (pending : Option (Nat × List Char))
    (left : List Marked) : Prop where
  split : mark body = before ++ (lead ++ left)
  pends : Pends pending lead
  apart : Apart before (lead ++ left)
  reached : Apart (before ++ lead) left

section
variable {body : List Char} {before lead : List Marked} {pending : Option (Nat × List Char)}

theorem passed_nothing (body : List Char) : Passed body [] [] none (mark body) where
  split := rfl
  pends := rfl
  apart := fun _ hm => nomatch hm
  reached := fun _ hm => nomatch hm

theorem Passed.gap {gap rest : List Marked} (h : Passed body before lead pending (gap ++ rest))
    (hgap : IsGap gap) (hrest : Apart gap rest) :
    ∃ before' lead', Passed body before' lead' (pending.map fun p => (p.1, p.2 ++ plain gap)) rest := by
  cases pending with
  | none =>
    obtain rfl : lead = [] := h.pends
    refine ⟨before ++ gap, [], by rw [h.split]; simp, rfl, hrest.behind hgap.ne, ?_⟩
    rw [List.append_nil]
    exact hrest.behind hgap.ne
  | some p =>
    refine ⟨before, lead ++ gap, by rw [h.split]; simp, IsLead.append h.pends h.reached.within hgap,
      ?_, ?_⟩
    · rw [List.append_assoc]
      exact h.apart
    · rw [← List.append_assoc]
      exact hrest.behind hgap.ne

theorem Passed.announcement {run rest : List Marked} {index : Nat}
    (h : Passed body before lead pending (run ++ rest)) (hne : run ≠ [])
    (hrun : ∀ m ∈ run, m.2.isComment = true) (hrest : Apart run rest)
    (hannounced : announcedIndex? (plain run) = some index) :
    Passed body (before ++ lead) run (some (index, plain run)) rest where
  split := by rw [h.split, List.append_assoc]
  pends := isLead_comment hrun hannounced
  apart := h.reached
  reached := hrest.behind hne

theorem Passed.element {inner rest : List Marked} (h : Passed body before lead pending (braced inner ++ rest)) :
    Passed body (before ++ (lead ++ braced inner)) [] none rest := by
  have hlast : Apart (before ++ (lead ++ braced inner)) rest := by
    rw [braced, ← List.cons_append, ← List.append_assoc, ← List.append_assoc]
    exact apart_of_last rfl
  refine ⟨by rw [h.split]; simp, rfl, hlast, ?_⟩
  rwa [List.append_nil]

end

theorem Passed.exists_isElement {body : List Char} {block : RawBlock} {left : List Marked}
    (hclosing : splitClosing '\x7b' '\x7d' 1 (left ++ [('\x7d', .code)]) = some (left, [])) :
    ∀ {before lead pending}, Passed body before lead pending left → block ∈ blocksFrom pending (pieces left) →
      ∃ piece, piece <:+: mark body ∧ IsElement piece block := by
  refine body_induction (motive := fun left => ∀ {before lead pending}, Passed body before lead pending left →
    block ∈ blocksFrom pending (pieces left) → ∃ piece, piece <:+: mark body ∧ IsElement piece block)
    ?_ ?_ ?_ ?_ left hclosing
  · intro _ _ _ _ hblock
    simp [pieces, blocksFrom] at hblock
  · intro run rest hne hrun hrest ih _ _ _ hpassed hblock
    cases hannounced : announcedIndex? (plain run) with
    | none =>
      have hgap := isGap_comment hne hrun hannounced
      obtain ⟨_, _, hpassed'⟩ := hpassed.gap hgap hrest
      exact ih hpassed' (by rwa [hgap.passes _ _ hrest] at hblock)
    | some index =>
      rw [pieces_comment hne hrun hrest, blocksFrom, hannounced] at hblock
      exact ih (hpassed.announcement hne hrun hrest hannounced) hblock
  · intro inner rest hinner ih before lead _ hpassed hblock
    rw [braced_append, pieces_element hinner, blocksFrom_element, List.mem_cons] at hblock
    rcases hblock with rfl | hblock
    · refine ⟨lead ++ braced inner, ⟨before, rest, by rw [hpassed.split]; simp⟩, ?_⟩
      exact hpassed.pends.isElement hinner (hpassed.pends.closed hpassed.split hpassed.apart)
    · exact ih hpassed.element hblock
  · intro m rest hcode hneutral ih _ _ _ hpassed hblock
    have hgap := isGap_other hcode hneutral
    have hrest : Apart [m] rest := apart_of_last (a := []) hcode
    obtain ⟨_, _, hpassed'⟩ := Passed.gap (show Passed _ _ _ _ ([m] ++ rest) from hpassed) hgap hrest
    exact ih hpassed' (by rwa [← List.singleton_append, hgap.passes _ _ hrest] at hblock)

theorem exists_isElement_of_mem {body : List Char} {block : RawBlock}
    (hclosing : splitClosing '\x7b' '\x7d' 1 (mark body ++ [('\x7d', .code)]) = some (mark body, []))
    (h : block ∈ arrayElements body) : ∃ piece, piece <:+: mark body ∧ IsElement piece block :=
  (passed_nothing body).exists_isElement hclosing h

end FirmwareCatalog.Header
