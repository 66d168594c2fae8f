import FirmwareCatalog.Proofs.Removal.Announcement
import FirmwareCatalog.Proofs.Removal.Declaration
import FirmwareCatalog.Proofs.Removal.Field
import Mathlib.Data.List.Forall2

/-!
# Elements around a comment

The elements of an array are read alike with a comment and with a space in its
place, but for their sources: up to the comment the two runs pass the same
pieces, and behind it the same again.
-/

namespace FirmwareCatalog.Header

open Character

/-! ## Blocks but for their sources -/

def SameBlock (a b : RawBlock) : Prop := b = { a with raw := b.raw }

instance : Std.Refl SameBlock := ⟨fun _ => rfl⟩

theorem blocksFrom_same (pieces : List Piece) : ∀ {pending pending' : Option (Nat × List Char)},
    pending'.map (·.1) = pending.map (·.1) →
      List.Forall₂ SameBlock (blocksFrom pending pieces) (blocksFrom pending' pieces) := by
  induction pieces with
  | nil => exact fun _ => .nil
  | cons piece pieces ih =>
    intro pending pending' h
    have hpasses (f : Nat × List Char → List Char) (g : Nat × List Char → List Char) :
        (pending'.map fun p => (p.1, g p)).map (·.1) = (pending.map fun p => (p.1, f p)).map (·.1) := by
      simpa [Option.map_map, Function.comp_def] using h
    cases piece with
    | comment text =>
      rw [blocksFrom, blocksFrom]
      cases announcedIndex? text with
      | some index => exact List.forall₂_refl _
      | none => exact ih (hpasses (fun p => p.2 ++ text) (fun p => p.2 ++ text))
    | other c => exact ih (hpasses (fun p => p.2 ++ [c]) (fun p => p.2 ++ [c]))
    | element inner =>
      rw [blocksFrom_element, blocksFrom_element, h]
      exact .cons rfl (List.forall₂_refl _)

/-! ## Steps -/

theorem blocksFrom_run {run rest : List Marked} (hrun : ∀ m ∈ run, m.2.isComment = true)
    (hrest : ∀ m ∈ rest.head?, m.2.isComment = false) (pending : Option (Nat × List Char)) :
    ∃ pending', blocksFrom pending (pieces (run ++ rest)) = blocksFrom pending' (pieces rest) ∧
      pending'.map (·.1) = (announcedIndex? (plain run)).or (pending.map (·.1)) := by
  by_cases hne : run = []
  · exact ⟨pending, by rw [hne]; rfl, by rw [hne]; rfl⟩
  · rw [pieces_comment hne hrun fun _ _ _ => hrest, blocksFrom]
    cases announcedIndex? (plain run) with
    | some index => exact ⟨_, rfl, rfl⟩
    | none => exact ⟨_, rfl, by cases pending <;> rfl⟩

theorem blocksFrom_other {m : Marked} (hcomment : m.2.isComment = false) (hopen : m ≠ ('\x7b', .code))
    (rest : List Marked) (pending : Option (Nat × List Char)) :
    ∃ pending', blocksFrom pending (pieces (m :: rest)) = blocksFrom pending' (pieces rest) ∧
      pending'.map (·.1) = pending.map (·.1) := by
  rw [pieces_other hcomment hopen]
  exact ⟨_, rfl, by cases pending <;> rfl⟩

theorem pieces_closed {marked inner rest : List Marked}
    (h : splitClosing '\x7b' '\x7d' 1 marked = some (inner, rest)) :
    pieces (('\x7b', .code) :: marked) = .element (plain inner) :: pieces rest := by
  obtain rfl := eq_append_of_splitClosing (by decide) h
  exact pieces_element h

/-- What an element that a piece leaves open holds of the piece. -/
def openElement? : List Marked → Option (List Marked)
  | [] => none
  | (c, zone) :: rest =>
    if zone = .code ∧ c = '\x7b' then
      match _h : splitClosing '\x7b' '\x7d' 1 rest with
      | none => some rest
      | some (_, rest) => openElement? rest
    else openElement? rest
termination_by marked => marked.length
decreasing_by
  · have := splitClosing_length _h
    simp only [List.length_cons]; omega
  · simp

theorem openElement?_other {m : Marked} (hopen : m ≠ ('\x7b', .code)) (rest : List Marked) :
    openElement? (m :: rest) = openElement? rest := by
  obtain ⟨c, zone⟩ := m
  rw [openElement?, if_neg]
  rintro ⟨rfl, rfl⟩
  exact hopen rfl

theorem openElement?_of_comment {run : List Marked} (hrun : ∀ m ∈ run, m.2.isComment = true)
    (rest : List Marked) : openElement? (run ++ rest) = openElement? rest := by
  induction run with
  | nil => rfl
  | cons m run ih =>
    obtain ⟨hm, hrun⟩ := List.forall_mem_cons.mp hrun
    have hopen : m ≠ ('\x7b', .code) := by
      rintro rfl
      cases hm
    rw [List.cons_append, openElement?_other hopen, ih hrun]

theorem openElement?_closed {marked inner rest : List Marked}
    (h : splitClosing '\x7b' '\x7d' 1 marked = some (inner, rest)) :
    openElement? (('\x7b', .code) :: marked) = openElement? rest := by
  rw [openElement?, if_pos ⟨rfl, rfl⟩]
  split
  · rename_i hnone
    rw [h] at hnone
    cases hnone
  · rename_i hsome
    rw [h] at hsome
    cases hsome
    rfl

theorem openElement?_unclosed {rest : List Marked} (h : splitClosing '\x7b' '\x7d' 1 rest = none) :
    openElement? (('\x7b', .code) :: rest) = some rest := by
  rw [openElement?, if_pos ⟨rfl, rfl⟩]
  split
  · rfl
  · rename_i hsome
    rw [h] at hsome
    cases hsome

theorem suffix_of_openElement? {marked inner : List Marked} (h : openElement? marked = some inner) :
    inner <:+ marked := by
  induction marked using pieces_induction with
  | nil =>
    rw [openElement?] at h
    cases h
  | comment run rest hne hrun hrest ih =>
    rw [openElement?_of_comment hrun] at h
    exact (ih h).trans (List.suffix_append _ _)
  | unclosed rest hclosing =>
    rw [openElement?_unclosed hclosing] at h
    obtain rfl := Option.some.inj h
    exact List.suffix_cons _ _
  | element inner' rest hclosing ih =>
    rw [braced_append, openElement?_closed hclosing] at h
    exact (ih h).trans (List.suffix_append _ _)
  | other m rest hcode hopener ih =>
    rw [openElement?_other hopener] at h
    exact (ih h).trans (List.suffix_cons _ _)

/-! ## Runs -/

namespace CommentPlace

variable {place : CommentPlace}

/-- Between two pieces of an array body: between elements, no announcement stands right behind the comment; in an
element, it does not stand in the middle of a value where it touches another comment. -/
structure ApartFromElements (place : CommentPlace) (a b : List Marked) : Prop where
  between : openElement? a = none → announcedIndex? (plain (b.takeWhile (·.2.isComment))) = none
  within : ∀ {inner c rest}, openElement? a = some inner →
    splitClosing '\x7b' '\x7d' 1 (inner ++ (place.gap ++ b)) = some (inner ++ (place.gap ++ c), rest) →
      Touches inner c → ¬ DividesField inner c

/-- The pieces around the comment, the first from behind a piece of the body. -/
structure Around (place : CommentPlace) (a b : List Marked) : Prop extends ApartFromElements place a b where
  front : ∃ before, place.front = before ++ a ∧ Header.Apart before a
  rear : ∃ behind, place.rear = b ++ behind

theorem Around.drop {x a b : List Marked} (h : place.Around (x ++ a) b) (hne : x ≠ []) (hapart : Header.Apart x a)
    (hopen : openElement? (x ++ a) = openElement? a) : place.Around a b where
  front := by
    obtain ⟨before, hfront, -⟩ := h.front
    exact ⟨before ++ x, by rw [hfront, List.append_assoc], hapart.behind hne⟩
  rear := h.rear
  between := fun hnone => h.between (hopen.trans hnone)
  within := fun hsome => h.within (hopen.trans hsome)

theorem Around.announcedIndex?_run {run b : List Marked} (h : place.Around run b)
    (hrun : ∀ m ∈ run, m.2.isComment = true) {run' rest : List Marked}
    (hrun' : ∀ m ∈ run', m.2.isComment = true)
    (hb : b = run' ++ rest) :
    announcedIndex? (plain (run ++ (place.gap ++ run'))) = announcedIndex? (plain run) := by
  obtain ⟨before, hfront, hapart⟩ := h.front
  obtain ⟨behind, hrear⟩ := h.rear
  by_cases hne : run = []
  · rw [hne]
    exact place.announcedIndex?_gap hrun' (by rw [hrear, hb, List.append_assoc])
  · rw [plain_append]
    refine place.announcedIndex?_behind hfront (fun m hm => ?_) hne hrun _
    by_contra hcomment
    obtain ⟨m', run, rfl⟩ := List.exists_cons_of_ne_nil hne
    have := hapart m hm (by simpa using hcomment) m' rfl
    rw [hrun m' List.mem_cons_self] at this
    cases this

theorem Around.blocksFrom_run {run b : List Marked} (h : place.Around run b)
    (hrun : ∀ m ∈ run, m.2.isComment = true) {pending pending' : Option (Nat × List Char)}
    (hpending : pending'.map (·.1) = pending.map (·.1)) :
    List.Forall₂ SameBlock (blocksFrom pending (pieces (run ++ (place.gap ++ b))))
      (blocksFrom pending' (pieces (run ++ (space ++ b)))) := by
  have hnone : openElement? run = none := by
    rw [← List.append_nil run, openElement?_of_comment hrun, openElement?]
  have hannounced := h.between hnone
  obtain ⟨run', hb, hrun', hrest, -⟩ := exists_run_before b
  have htake : b.takeWhile (·.2.isComment) = run' :=
    List.append_cancel_right (List.takeWhile_append_dropWhile.trans hb)
  rw [htake] at hannounced
  have hwhole := h.announcedIndex?_run hrun hrun' hb
  generalize b.dropWhile (·.2.isComment) = rest at hb hrest
  have hall : ∀ m ∈ run ++ (place.gap ++ run'), m.2.isComment = true := by
    simpa only [List.forall_mem_append] using ⟨hrun, place.isComment_of_mem_gap, hrun'⟩
  obtain ⟨q, hwritten, hq⟩ := Header.blocksFrom_run hall hrest pending
  have hspace : ∀ m ∈ (space ++ (run' ++ rest)).head?, m.2.isComment = false := fun m hm => by
    obtain rfl : (' ', Zone.code) = m := Option.some.inj hm
    rfl
  obtain ⟨q₁, hfirst, hq₁⟩ := Header.blocksFrom_run hrun hspace pending'
  obtain ⟨q₂, hpassed, hq₂⟩ := blocksFrom_other (m := (' ', .code)) rfl (by decide) (run' ++ rest) q₁
  obtain ⟨q₃, hlast, hq₃⟩ := Header.blocksFrom_run hrun' hrest q₂
  rw [List.append_assoc, List.append_assoc, ← hb] at hwritten
  rw [hwritten, hb, hfirst, show space ++ (run' ++ rest) = (' ', .code) :: (run' ++ rest) from rfl, hpassed, hlast]
  refine blocksFrom_same _ ?_
  rw [hq₃, hannounced, Option.none_or, hq₂, hq₁, hq, hwhole, hpending]

theorem Around.blocksFrom_element {inner b : List Marked} (h : place.Around (('\x7b', .code) :: inner) b)
    (hopen : splitClosing '\x7b' '\x7d' 1 inner = none) {pending pending' : Option (Nat × List Char)}
    (hpending : pending'.map (·.1) = pending.map (·.1)) :
    List.Forall₂ SameBlock (blocksFrom pending (pieces (('\x7b', .code) :: inner ++ (place.gap ++ b))))
      (blocksFrom pending' (pieces (('\x7b', .code) :: inner ++ (space ++ b)))) := by
  -- neither the comment nor the space has a brace, so both texts close the element at the same place
  obtain ⟨depth, hdepth, hclosing⟩ := exists_splitClosing_of_none (by decide) (by decide) hopen
  have hgap := hclosing (place.gap ++ b)
  have hspace := hclosing (space ++ b)
  rw [balanced_gap depth hdepth] at hgap
  rw [balanced_space (by decide) (by decide) depth hdepth] at hspace
  rw [List.cons_append, List.cons_append]
  cases hb : splitClosing '\x7b' '\x7d' depth b with
  | none =>
    rw [hb] at hgap hspace
    rw [pieces_unclosed hgap, pieces_unclosed hspace]
    exact .nil
  | some p =>
    obtain ⟨c, rest⟩ := p
    rw [hb, Option.map_some, Option.map_some] at hgap hspace
    obtain rfl := eq_append_of_splitClosing (by decide) hb
    obtain ⟨before, hfront, -⟩ := h.front
    obtain ⟨behind, hrear⟩ := h.rear
    have hwritten : mark (plain (inner ++ (place.gap ++ c))) = inner ++ (place.gap ++ c) := by
      refine @mark_plain_between place.written before _ (rest ++ behind) '\x7b' '\x7d' (by decide) (by decide) ?_
      rw [mark_written, hfront, hrear]
      simp
    have hspaced : mark (plain (inner ++ (space ++ c))) = inner ++ (space ++ c) := by
      refine @mark_plain_between place.spaced before _ (rest ++ behind) '\x7b' '\x7d' (by decide) (by decide) ?_
      rw [mark_spaced, hfront, hrear]
      simp
    have hfields := designatedFields_spaced place.gap_ne_nil place.isComment_of_mem_gap hwritten hspaced
      (h.within (openElement?_unclosed hopen) hgap)
    rw [pieces_closed hgap, pieces_closed hspace, Header.blocksFrom_element, Header.blocksFrom_element, hpending]
    refine .cons ?_ (List.forall₂_refl _)
    rw [SameBlock, elementBlock, elementBlock, hfields]

theorem Around.drop_cons {m : Marked} {a b : List Marked} (h : place.Around (m :: a) b)
    (hm : m.2.isComment = false) (hopen : m ≠ ('\x7b', .code)) : place.Around a b :=
  h.drop (x := [m]) (List.cons_ne_nil _ _) (apart_of_last (a := []) hm) (openElement?_other hopen a)

/-- The blocks of a body are read alike behind anything that has been passed of it. -/
theorem Around.blocksFrom_spaced {b : List Marked} (a : List Marked) (h : place.Around a b)
    {pending pending' : Option (Nat × List Char)} (hpending : pending'.map (·.1) = pending.map (·.1)) :
    List.Forall₂ SameBlock (blocksFrom pending (pieces (a ++ (place.gap ++ b))))
      (blocksFrom pending' (pieces (a ++ (space ++ b)))) := by
  induction a using pieces_induction generalizing pending pending' with
  | nil => exact @Around.blocksFrom_run _ [] b h (fun _ hm => nomatch hm) _ _ hpending
  | comment run rest hne hrun hapart ih =>
    by_cases hrest : rest = []
    · rw [hrest, List.append_nil] at h ⊢
      exact h.blocksFrom_run hrun hpending
    · have hstops (tail : List Marked) := (show Header.Apart run (rest ++ tail) from hapart.before hrest).head hne hrun
      obtain ⟨q, hwritten, hq⟩ := Header.blocksFrom_run hrun (hstops (place.gap ++ b)) pending
      obtain ⟨q', hspaced, hq'⟩ := Header.blocksFrom_run hrun (hstops (space ++ b)) pending'
      rw [List.append_assoc, List.append_assoc, hwritten, hspaced]
      exact ih (h.drop hne hapart (openElement?_of_comment hrun rest)) (by rw [hq, hq', hpending])
  | unclosed rest hopen => exact h.blocksFrom_element hopen hpending
  | element inner rest hinner ih =>
    have hclosed (tail : List Marked) : pieces (braced inner ++ rest ++ tail) =
        .element (plain inner) :: pieces (rest ++ tail) := by
      rw [braced_append, List.cons_append]
      exact pieces_closed (splitClosing_append (by decide) hinner tail)
    rw [hclosed, hclosed, Header.blocksFrom_element, Header.blocksFrom_element, hpending]
    have hpassed := openElement?_closed hinner
    rw [← braced_append] at hpassed
    refine .cons rfl (ih (h.drop (List.cons_ne_nil _ _) ?_ hpassed) rfl)
    rw [braced, ← List.cons_append]
    exact apart_of_last rfl
  | other m rest hcode hopener ih =>
    obtain ⟨q, hwritten, hq⟩ := blocksFrom_other hcode hopener (rest ++ (place.gap ++ b)) pending
    obtain ⟨q', hspaced, hq'⟩ := blocksFrom_other hcode hopener (rest ++ (space ++ b)) pending'
    rw [List.cons_append, List.cons_append, hwritten, hspaced]
    exact ih (h.drop_cons hcode hopener) (by rw [hq, hq', hpending])

/-! ## Arrays -/

variable {name : List Char}

/-- Whatever array is read, the comment stands apart from its elements. -/
def ApartInArray (place : CommentPlace) (name : List Char) : Prop :=
  ∀ {elementType a b}, structArray? name place.written = some ⟨elementType, plain (a ++ (place.gap ++ b))⟩ →
    place.StandsIn name a b → place.ApartFromElements a b

theorem apartInArray_of_untouched (h : ¬ Touches place.front place.rear) : place.ApartInArray name := by
  intro elementType a b _ stands
  obtain ⟨x, head, elementType, hfront, -⟩ := stands.front
  obtain ⟨rest, hrear⟩ := stands.rear
  refine ⟨fun _ => ?_, fun {inner c left} hopen hclosing htouches => absurd ?_ h⟩
  · cases b with
    | nil => rfl
    | cons m b =>
      have hm : ¬ m.2.isComment = true := fun hm => h (.inr ⟨m, by rw [hrear]; rfl, hm⟩)
      rw [List.takeWhile_cons_of_neg (p := fun m : Marked => m.2.isComment) hm]
      rfl
  · obtain ⟨y, rfl⟩ := suffix_of_openElement? hopen
    have hb := eq_append_of_splitClosing (by decide) hclosing
    rw [List.append_assoc, List.append_assoc] at hb
    have hb := List.append_cancel_left (List.append_cancel_left hb)
    rw [hfront, hrear, hb, ← List.append_assoc, ← List.append_assoc, List.append_assoc c]
    exact touches_of_append htouches

theorem StandsIn.exists_opener (hname : ∀ c ∈ name, isWord c = true) {a b : List Marked}
    (h : place.StandsIn name a b) : ∃ x, place.front = x ++ ('\x7b', .code) :: a := by
  obtain ⟨x, head, elementType, hfront, hread⟩ := h.front
  obtain ⟨head', htext, hhead⟩ := readsHead_arrayHead? hname hread
  obtain rfl : head = head' := List.append_cancel_right htext
  obtain ⟨head, rfl⟩ := List.getLast?_eq_some_iff.mp hhead.last
  refine ⟨x ++ inZone .code head, ?_⟩
  rw [hfront]
  simp [inZone]

theorem StandsIn.arrayElements_spaced (hname : ∀ c ∈ name, isWord c = true) {a b : List Marked}
    (h : place.StandsIn name a b) (happart : place.ApartFromElements a b) :
    List.Forall₂ SameBlock (arrayElements (plain (a ++ (place.gap ++ b))))
      (arrayElements (plain (a ++ (space ++ b)))) := by
  obtain ⟨x, hfront⟩ := h.exists_opener hname
  obtain ⟨rest, hrear⟩ := h.rear
  have hwritten : mark (plain (a ++ (place.gap ++ b))) = a ++ (place.gap ++ b) := by
    refine @mark_plain_between place.written x _ rest '\x7b' '\x7d' (by decide) (by decide) ?_
    rw [mark_written, hfront, hrear]
    simp
  have hspaced : mark (plain (a ++ (space ++ b))) = a ++ (space ++ b) := by
    refine @mark_plain_between place.spaced x _ rest '\x7b' '\x7d' (by decide) (by decide) ?_
    rw [mark_spaced, hfront, hrear]
    simp
  have haround : place.Around a b :=
    { happart with
      front := ⟨x ++ [('\x7b', .code)], by rw [hfront, List.append_assoc]; rfl, apart_of_last rfl⟩
      rear := ⟨_, hrear⟩ }
  rw [arrayElements, arrayElements, hwritten, hspaced]
  exact haround.blocksFrom_spaced a rfl

theorem structBlocks?_spaced (hne : name ≠ []) (hname : ∀ c ∈ name, isWord c = true)
    (hhead : place.Apart (arrayHead? name)) (harray : place.ApartInArray name) :
    Option.Rel (List.Forall₂ SameBlock) (structBlocks? name place.written)
      (structBlocks? name place.spaced) := by
  have hsame := structArray?_spaced hname hne hhead
  rw [structBlocks?, structBlocks?]
  cases hwritten : structArray? name place.written <;> cases hspaced : structArray? name place.spaced <;>
    rw [hwritten, hspaced] at hsame
  · exact .none
  · cases hsame
  · cases hsame
  · cases hsame with
    | some hsame =>
      cases hsame with
      | outside array => exact .some (List.forall₂_refl _)
      | inside elementType stands =>
        exact .some (stands.arrayElements_spaced hname (harray hwritten stands))

end CommentPlace

end FirmwareCatalog.Header
