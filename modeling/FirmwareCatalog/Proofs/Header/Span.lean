import FirmwareCatalog.Proofs.Header.CommentRun
import FirmwareCatalog.Proofs.Header.Depth
import FirmwareCatalog.Proofs.Header.StructArray

/-!
# Where the blocks of an array stand

The body of an array is read once from its front to its end. Whatever has been
passed of it since the last element, what waits is the last announcement in it,
so each element is cut out with its own one and none is carried past it.
-/

namespace FirmwareCatalog.Header

open Character

/-! ## Blocks -/

/-- Where a block stands in a body: from the announcement of its index to its closer. -/
structure Span where
  start : Nat
  opening : Nat
  closing : Nat

/-- What a block is that stands behind a position of a body. -/
structure IsBlock (body : List Char) (first : Nat) (span : Span) (block : RawBlock) : Prop where
  opens : OpensAt (mark body) span.opening
  closes : ClosesAt (mark body) span.opening span.closing
  behind : first ≤ span.start
  before : span.start ≤ span.opening
  announced : ∀ index, block.announced = some index ↔
    ∃ start stop, LastAnnouncement (mark body) first span.opening start stop index
  startsAnnounced : ∀ start stop index, LastAnnouncement (mark body) first span.opening start stop index →
    span.start = start
  startsBare : block.announced = none → span.start = span.opening
  raw : block.raw.toList = body.extract span.start (span.closing + 1)
  fields : block.fields = designatedFields (body.extract (span.opening + 1) span.closing)
  form : block.form = .structLiteral

/-- Blocks that stand one behind the other, each behind the closer of the one before it. -/
inductive Row (body : List Char) : Nat → List Span → List RawBlock → Prop
  | nil {first : Nat} : Row body first [] []
  | cons {first : Nat} {span : Span} {spans : List Span} {block : RawBlock} {blocks : List RawBlock}
      (head : IsBlock body first span block) (tail : Row body (span.closing + 1) spans blocks) :
      Row body first (span :: spans) (block :: blocks)

theorem Row.le {body : List Char} {first : Nat} {spans : List Span} {blocks : List RawBlock}
    (h : Row body first spans blocks) : ∀ span ∈ spans, first ≤ span.start := by
  induction h with
  | nil => exact fun _ hmem => nomatch hmem
  | cons head _ ih =>
    have hclosing := head.closes.behind
    have hbehind := head.behind
    have hbefore := head.before
    exact List.forall_mem_cons.mpr ⟨hbehind, fun span hmem => by have := ih span hmem; omega⟩

theorem Row.pairwise {body : List Char} {first : Nat} {spans : List Span} {blocks : List RawBlock}
    (h : Row body first spans blocks) : spans.Pairwise fun a b => a.closing < b.start := by
  induction h with
  | nil => exact .nil
  | cons _ tail ih => exact .cons tail.le ih

theorem Row.length_eq {body : List Char} {first : Nat} {spans : List Span} {blocks : List RawBlock}
    (h : Row body first spans blocks) : spans.length = blocks.length := by
  induction h with
  | nil => rfl
  | cons _ _ ih => rw [List.length_cons, List.length_cons, ih]

/-! ## What waits -/

section
variable {marked : List Marked} {first position : Nat}

/-- What waits at a position is the last announcement behind another position, with the text from there. -/
def Waits (marked : List Marked) (first position : Nat) : Option (Nat × List Char) → Prop
  | none => ∀ start stop index, first ≤ start → stop ≤ position → ¬ Announces marked start stop index
  | some (index, lead) => ∃ start stop, LastAnnouncement marked first position start stop index ∧
      lead = plain (marked.extract start position)

theorem waits_none (marked : List Marked) (first : Nat) : Waits marked first first none := by
  intro start stop index hbehind hbefore hannounces
  have := hannounces.run.ne
  omega

theorem Waits.of_announces {stop index : Nat} (hfirst : first ≤ position) (h : Announces marked position stop index) :
    Waits marked first stop (some (index, plain (marked.extract position stop))) := by
  refine ⟨position, stop, ⟨h, hfirst, Nat.le_refl _, fun start' stop' index' hlt hle h' => ?_⟩, rfl⟩
  have hbehind := h.run.lt_of_lt h'.run hlt
  have hne := h'.run.ne
  omega

theorem Waits.pass {stop : Nat} {pending : Option (Nat × List Char)} (h : Waits marked first position pending)
    (hle : position ≤ stop)
    (hnone : ∀ start' stop' index', position < stop' → stop' ≤ stop → ¬ Announces marked start' stop' index') :
    Waits marked first stop (pending.map fun p => (p.1, p.2 ++ plain (marked.extract position stop))) := by
  have hbefore {start' stop' index' : Nat} (hstop : stop' ≤ stop) (h' : Announces marked start' stop' index') :
      stop' ≤ position := by
    by_contra hlt
    exact hnone _ _ _ (by omega) hstop h'
  cases pending with
  | none => exact fun start' stop' index' hfirst hstop h' => h _ _ _ hfirst (hbefore hstop h') h'
  | some p =>
    obtain ⟨start, stop', hlast, hlead⟩ := h
    have hstart := hlast.announces.run.ne
    have hstop := hlast.before
    refine ⟨start, stop', ⟨hlast.announces, hlast.behind, by omega, fun _ _ _ hlt hle' h' => ?_⟩, ?_⟩
    · exact hlast.last _ _ _ hlt (hbefore hle' h') h'
    · rw [hlead, ← plain_append, extract_append_extract (by omega) hle]

end

/-! ## Pieces of a body -/

section
variable {body : List Char} {front rest : List Marked}

theorem isRun_between {run : List Marked} (hne : run ≠ []) (hrun : ∀ m ∈ run, m.2.isComment = true)
    (hfront : Apart front (run ++ rest)) (hrest : Apart run rest) :
    IsRun (front ++ (run ++ rest)) front.length (front.length + run.length) := by
  have hlength := List.length_pos_iff.mpr hne
  refine ⟨by omega, fun k hle hlt => ?_, fun k hk hcomment => ?_, fun hcomment => ?_⟩
  · rw [InComment, List.getElem?_append_right hle, List.getElem?_append_left (by omega)]
    have hk : k - front.length < run.length := by omega
    exact ⟨_, List.getElem?_eq_getElem hk, hrun _ (List.getElem_mem hk)⟩
  · obtain ⟨m, hget, hm⟩ := hcomment
    have hlast : m ∈ front.getLast? := by
      rw [List.getLast?_eq_getElem?, show front.length - 1 = k by omega]
      rwa [List.getElem?_append_left (by omega)] at hget
    obtain ⟨first, run, rfl⟩ := List.exists_cons_of_ne_nil hne
    have hcode := hfront m hlast hm first rfl
    rw [hrun first List.mem_cons_self] at hcode
    cases hcode
  · obtain ⟨m, hget, hm⟩ := hcomment
    rw [List.getElem?_append_right (by omega), Nat.add_sub_cancel_left, List.getElem?_append_right (Nat.le_refl _),
      Nat.sub_self, ← List.head?_eq_getElem?] at hget
    have hlast := List.getLast?_eq_some_getLast hne
    have hcode := hrest _ hlast (hrun _ (List.getLast_mem hne)) m hget
    rw [hm] at hcode
    cases hcode

theorem exists_isBlock {inner : List Marked} {first : Nat} {pending : Option (Nat × List Char)}
    (hmark : mark body = front ++ (braced inner ++ rest))
    (hinner : splitClosing '\x7b' '\x7d' 1 (inner ++ ('\x7d', .code) :: rest) = some (inner, rest))
    (htop : openBraces front = 0) (hfirst : first ≤ front.length)
    (hwaits : Waits (mark body) first front.length pending) :
    ∃ start, IsBlock body first ⟨start, front.length, front.length + (inner.length + 1)⟩
      (elementBlock (pending.map (·.1)) ((pending.map (·.2)).getD []) (plain inner)) := by
  have hopens : OpensAt (mark body) front.length := hmark ▸ opensAt_braced htop inner rest
  have hcloses : ClosesAt (mark body) front.length (front.length + (inner.length + 1)) :=
    hmark ▸ closesAt_braced hinner
  have hbody (i j : Nat) : body.extract i j = plain ((mark body).extract i j) := by rw [plain_extract, plain_mark]
  have hbraced : (mark body).extract front.length (front.length + (inner.length + 1) + 1) = braced inner := by
    rw [hmark, Nat.add_assoc, ← length_braced, extract_between]
  -- the fields stand behind the brace, wherever the source begins
  have hfields : plain inner = body.extract (front.length + 1) (front.length + (inner.length + 1)) := by
    have hbehind := extract_between (front ++ [('\x7b', .code)]) inner (('\x7d', .code) :: rest)
    rw [List.append_assoc, List.singleton_append, ← braced_append, ← hmark, List.length_append,
      List.length_singleton] at hbehind
    rw [hbody, Nat.add_comm inner.length, ← Nat.add_assoc, hbehind]
  cases pending with
  | none =>
    refine ⟨front.length, hopens, hcloses, hfirst, Nat.le_refl _, fun index => ⟨fun h => ?_, ?_⟩,
      fun start stop index h => ?_, fun _ => rfl, ?_, congrArg designatedFields hfields, rfl⟩
    · cases h
    · rintro ⟨start, stop, h⟩
      exact absurd h.announces (hwaits _ _ _ h.behind h.before)
    · exact absurd h.announces (hwaits _ _ _ h.behind h.before)
    · rw [hbody, hbraced]
      simp [elementBlock, braced]
  | some p =>
    obtain ⟨start, stop, hlast, hlead⟩ := hwaits
    have hrun := hlast.announces.run.ne
    have hstop := hlast.before
    refine ⟨start, hopens, hcloses, hlast.behind, Nat.le_trans (Nat.le_of_lt hrun) hstop,
      fun index => ⟨fun h => ?_, ?_⟩, fun start' stop' index' h => (hlast.unique h).1.symm ▸ rfl, fun h => ?_, ?_,
      congrArg designatedFields hfields, rfl⟩
    · cases h
      exact ⟨start, stop, hlast⟩
    · rintro ⟨start', stop', h⟩
      exact congrArg some (hlast.unique h).2
    · cases h
    · show _ = body.extract start (front.length + (inner.length + 1) + 1)
      rw [hbody, ← extract_append_extract (j := front.length) (by omega) (by omega), hbraced, plain_append, ← hlead]
      simp [elementBlock, braced]

end

/-! ## The body -/

/-- What is left of a body behind a piece of it gives the blocks that stand there. -/
def ReadsRow (body : List Char) (left : List Marked) : Prop :=
  ∀ (front : List Marked) (first : Nat) (pending : Option (Nat × List Char)), mark body = front ++ left →
    first ≤ front.length → openBraces front = 0 → Apart front left →
      Waits (mark body) first front.length pending →
      ∃ spans, spans.map Span.opening = (List.range' front.length left.length).filter (OpensAt (mark body)) ∧
        Row body first spans (blocksFrom pending (pieces left))

section
variable {body : List Char} {front rest : List Marked} {first : Nat} {pending pending' : Option (Nat × List Char)}

theorem ReadsRow.behind {gap : List Marked} (h : ReadsRow body rest) (hne : gap ≠ [])
    (hneutral : ∀ m ∈ gap, IsNeutral '\x7b' '\x7d' m) (hrest : Apart gap rest)
    (hmark : mark body = front ++ (gap ++ rest)) (hfirst : first ≤ front.length) (htop : openBraces front = 0)
    (hwaits : Waits (mark body) first (front.length + gap.length) pending') :
    ∃ spans, spans.map Span.opening = (List.range' front.length (gap ++ rest).length).filter (OpensAt (mark body)) ∧
      Row body first spans (blocksFrom pending' (pieces rest)) := by
  obtain ⟨spans, hspans, hrow⟩ := h (front ++ gap) first pending' (by rw [hmark, List.append_assoc])
    (by rw [List.length_append]; omega) (by rw [openBraces_append, htop, openBraces_of_neutral hneutral]; rfl)
    (hrest.behind hne) (by rwa [List.length_append])
  refine ⟨spans, ?_, hrow⟩
  rw [hspans, List.length_append, List.length_append, ← List.range'_append_1, List.filter_append, hmark,
    filter_opensAt_of_neutral hneutral, List.nil_append]

theorem ReadsRow.comment {run : List Marked} (h : ReadsRow body rest) (hne : run ≠ [])
    (hrun : ∀ m ∈ run, m.2.isComment = true) (hrest : Apart run rest) : ReadsRow body (run ++ rest) := by
  intro front first pending hmark hfirst htop hfront hwaits
  have hneutral : ∀ m ∈ run, IsNeutral '\x7b' '\x7d' m := fun m hm => isNeutral_of_isComment (hrun m hm)
  have hisRun : IsRun (mark body) front.length (front.length + run.length) :=
    hmark ▸ isRun_between hne hrun hfront hrest
  have hextract : (mark body).extract front.length (front.length + run.length) = run := by
    rw [hmark, extract_between]
  rw [pieces_comment hne hrun hrest, blocksFrom]
  cases hannounced : announcedIndex? (plain run) with
  | some index =>
    have hopens := announcedIndex?_eq_some_iff.mp hannounced
    rw [← hextract] at hopens
    have hannounces := Waits.of_announces hfirst ⟨hisRun, hopens⟩
    rw [hextract] at hannounces
    exact h.behind hne hneutral hrest hmark hfirst htop hannounces
  | none =>
    have hpassed := hwaits.pass (Nat.le_add_right _ run.length) fun start stop index hlt hle h' => ?_
    · rw [hextract] at hpassed
      exact h.behind hne hneutral hrest hmark hfirst htop hpassed
    · -- a run that ends in this one is this one, which announces nothing
      rcases Nat.lt_trichotomy front.length start with hbehind | rfl | hbefore
      · have := hisRun.lt_of_lt h'.run hbehind
        have := h'.run.ne
        omega
      · obtain rfl := hisRun.stop_eq h'.run
        have hopens := announcedIndex?_eq_some_iff.mpr h'.opens
        rw [hextract, hannounced] at hopens
        cases hopens
      · have := h'.run.lt_of_lt hisRun hbefore
        omega

theorem ReadsRow.other {m : Marked} (h : ReadsRow body rest) (hcode : m.2.isComment = false)
    (hneutral : IsNeutral '\x7b' '\x7d' m) : ReadsRow body (m :: rest) := by
  intro front first pending hmark hfirst htop hfront hwaits
  have hopen : m ≠ ('\x7b', .code) := fun he => (hneutral (by rw [he])).2 (by rw [he])
  have hextract := extract_between front [m] rest
  rw [List.singleton_append, ← hmark, List.length_singleton] at hextract
  have hpassed := hwaits.pass (Nat.le_add_right _ 1) fun start stop index hlt hle h' => ?_
  · rw [hextract] at hpassed
    rw [pieces_other hcode hopen, blocksFrom]
    exact h.behind (List.cons_ne_nil m []) (fun m' hm' => List.mem_singleton.mp hm' ▸ hneutral)
      (apart_of_last (a := []) hcode) hmark hfirst htop hpassed
  · obtain ⟨m', hget, hm'⟩ := h'.run.inside front.length (by have := h'.run.ne; omega) (by omega)
    rw [hmark, List.getElem?_append_right (Nat.le_refl _), Nat.sub_self] at hget
    cases hget
    rw [hcode] at hm'
    cases hm'

theorem ReadsRow.element {inner : List Marked} (h : ReadsRow body rest)
    (hinner : splitClosing '\x7b' '\x7d' 1 (inner ++ ('\x7d', .code) :: rest) = some (inner, rest)) :
    ReadsRow body (braced inner ++ rest) := by
  intro front first pending hmark hfirst htop _ hwaits
  have hnext : (front ++ braced inner).length = front.length + (inner.length + 1) + 1 := by
    rw [List.length_append, length_braced]
    omega
  obtain ⟨start, hblock⟩ := exists_isBlock hmark hinner htop hfirst hwaits
  obtain ⟨spans, hspans, hrow⟩ := h (front ++ braced inner) _ none (by rw [hmark, List.append_assoc])
    (Nat.le_refl _)
    (by rw [openBraces_append, htop, openBraces_braced hinner]; rfl)
    (by rw [braced, ← List.cons_append, ← List.append_assoc]; exact apart_of_last rfl) (waits_none _ _)
  refine ⟨⟨start, front.length, front.length + (inner.length + 1)⟩ :: spans, ?_, ?_⟩
  · rw [List.map_cons, hspans, List.length_append, List.length_append, ← List.range'_append_1, List.filter_append,
      hmark, filter_opensAt_braced hinner htop, List.singleton_append]
  · rw [braced_append, pieces_element hinner, blocksFrom_element]
    exact .cons hblock (hnext ▸ hrow)

end

def Piece.text : Piece → List Char
  | .comment text => text
  | .element inner => '\x7b' :: (inner ++ ['\x7d'])
  | .other c => [c]

section
variable {body : List Char}
  (hclosing : splitClosing '\x7b' '\x7d' 1 (mark body ++ [('\x7d', .code)]) = some (mark body, []))
include hclosing

/-- No element is left open, so the pieces cover the body. -/
theorem flatMap_text_pieces : (pieces (mark body)).flatMap Piece.text = body := by
  suffices h : (pieces (mark body)).flatMap Piece.text = plain (mark body) by rwa [plain_mark] at h
  refine body_induction (motive := fun left => (pieces left).flatMap Piece.text = plain left) ?_ ?_ ?_ ?_ _ hclosing
  · simp [pieces]
  · intro run rest hne hrun hrest ih
    rw [pieces_comment hne hrun hrest, List.flatMap_cons, ih, plain_append, Piece.text]
  · intro inner rest hinner ih
    rw [braced_append, pieces_element hinner, List.flatMap_cons, ih, Piece.text]
    simp
  · intro m rest hcode hneutral ih
    rw [pieces_other hcode fun he => (hneutral (by rw [he])).2 (by rw [he]), List.flatMap_cons, ih, Piece.text]
    rfl

theorem exists_row : ∃ spans, spans.map Span.opening = (List.range body.length).filter (OpensAt (mark body)) ∧
    Row body 0 spans (arrayElements body) := by
  have hreads : ReadsRow body (mark body) :=
    body_induction (motive := ReadsRow body)
      (fun _ _ _ _ _ _ _ _ => ⟨[], rfl, by simpa [pieces, blocksFrom] using .nil⟩)
      (fun _ _ hne hrun hrest ih => ih.comment hne hrun hrest) (fun _ _ hinner ih => ih.element hinner)
      (fun _ _ hcode hneutral ih => ih.other hcode hneutral) _ hclosing
  have hlength : (mark body).length = body.length := by rw [← length_plain, plain_mark]
  rw [List.range_eq_range', ← hlength]
  have hapart : Apart [] (mark body) := by
    intro m hlast
    cases hlast
  exact hreads [] 0 none rfl (Nat.le_refl 0) rfl hapart (waits_none _ _)

end

/-- **No element of an array is lost, merged or told twice.** The body of an array is marked as in its header, its
braces match and its pieces cover it. Its blocks stand one behind the other, one for each brace that opens at the top,
up to the closer of that brace. A block has the index that the last announcement behind the block before it gives, and
starts there; else it starts at its brace. Its fields are those of the text between its braces. -/
theorem blocks_of_structArray {name text : List Char} {array : StructArray} (hname : ∀ c ∈ name, isWord c = true)
    (h : structArray? name text = some array) :
    (∃ before rest, mark text = before ++ mark array.body ++ ('\x7d', .code) :: rest) ∧
    BracesMatch (mark array.body) ∧
      (pieces (mark array.body)).flatMap Piece.text = array.body ∧
      ∃ spans, spans.map Span.opening = (List.range array.body.length).filter (OpensAt (mark array.body)) ∧
        Row array.body 0 spans (arrayElements array.body) ∧ spans.Pairwise fun a b => a.closing < b.start := by
  obtain ⟨⟨before, body, rest, hmark, hbody, hmarked, hclosing⟩, -⟩ := structArray?_eq_some hname h
  rw [← hbody] at hmarked
  subst hmarked
  have hend := splitClosing_replace (by decide) hclosing []
  obtain ⟨spans, hspans, hrow⟩ := exists_row hend
  exact ⟨⟨before, rest, hmark⟩, bracesMatch_of_splitClosing hclosing, flatMap_text_pieces hend, spans, hspans,
    hrow, hrow.pairwise⟩

def nestedBody : List Char := "/*Index 4:*/ \x7b\x7b\x7d\x7d,\"\x7d\",\x7b\x7d".toList

def nestedArray : List Char := "static const T A[]=\x7b".toList ++ nestedBody ++ "\x7d;".toList

theorem blocks_of_structArray_nestedArray : BracesMatch (mark nestedBody) ∧
    ∃ spans, spans.map Span.opening = [13, 22] ∧ Row nestedBody 0 spans (arrayElements nestedBody) ∧
      (arrayElements nestedBody).length = 2 := by
  have harray : structArray? "A".toList nestedArray = some ⟨"T".toList, nestedBody⟩ := rfl
  obtain ⟨-, hbraces, -, spans, hspans, hrow, -⟩ := blocks_of_structArray (by decide +kernel) harray
  have hopenings : spans.map Span.opening = [13, 22] := hspans.trans (by decide +kernel)
  refine ⟨hbraces, spans, hopenings, hrow, ?_⟩
  rw [← hrow.length_eq, ← List.length_map (f := Span.opening), hopenings]
  rfl

end FirmwareCatalog.Header
