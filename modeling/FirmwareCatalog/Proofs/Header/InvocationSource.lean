import FirmwareCatalog.Proofs.Header.Invocation

/-!
# Sources of invocations

What an invocation opens in its arguments is closed in them, so the blocks that
begin in its source do not hang on what follows it. The source of an element
may open an invocation and leave it open; where it does not, it lists in a new
place what it listed in its header.
-/

namespace FirmwareCatalog.Header

open Character Text

theorem behind_of_ne_nil {text : List Char} (h : text ≠ []) (a b : Option Char) :
    behind a text = behind b text := by
  rw [behind, behind, List.getLast?_eq_some_getLast h, Option.some_or, Option.some_or]

/-- A piece with its parentheses that lists a block wherever it is put. -/
structure IsInvocation (form : InvocationForm) (piece : List Marked) (block : RawBlock) : Prop where
  closed : Closed piece
  raw : plain piece = block.raw.toList
  source : ∃ blanks inner, (∀ c ∈ blanks, isBlank c = true) ∧
    piece = inZone .code (openingOf form.macroName.toList blanks) ++ (inner ++ [(')', .code)]) ∧
      splitClosing '(' ')' 1 (inner ++ [(')', .code)]) = some (inner, []) ∧
        invocationBlock? form (openingOf form.macroName.toList blanks) (plain inner) = some block

section
variable {form : InvocationForm} {first : Char} (hname : IsMacroName first form.macroName.toList)
include hname

theorem exists_isInvocation_of_mem {text : List Char} {block : RawBlock}
    (h : block ∈ blocksAlong form none (mark text)) :
    ∃ piece, piece <:+: mark text ∧ IsInvocation form piece block := by
  obtain ⟨x, y, hmark, hhead⟩ := exists_headBlock?_of_mem h
  obtain ⟨-, blanks, inner, rest, hblanks, hy, hclosing, hblock⟩ :=
    headBlock?_eq_some hname hmark hhead
  obtain ⟨hraw, -⟩ := invocationBlock?_eq_some hblock
  obtain ⟨tail, hopening, -⟩ := exists_openingOf_tail hname hblanks
  have hcode : ∃ y', y = (first, .code) :: y' := by
    rw [hy, hopening]
    exact ⟨_, rfl⟩
  obtain ⟨y', hy'⟩ := hcode
  have hrestart := (eq_mark_of_code hmark hy').symm
  have hend : mark (plain y) =
      (inZone .code (openingOf form.macroName.toList blanks) ++ inner) ++ (')', .code) :: rest := by
    rw [hrestart, hy, List.append_assoc]
  have hclosed := closed_of_mark (by decide) (by decide) hend
  rw [List.append_assoc] at hclosed
  refine ⟨_, ⟨x, rest, by rw [hmark, hy]; simp⟩, hclosed, ?_, blanks, inner, hblanks, rfl,
    splitClosing_replace (by decide) hclosing [], hblock⟩
  rw [hraw]
  simp

/-- What begins in a piece that ends in code has its opening within the piece. -/
theorem exists_opening_within {e : Char} (he : isHeadChar e = false) {piece : List Marked}
    (hclosed : Closed piece)
    (hlast : piece.getLast? = some (e, .code)) {x y : List Marked} (hpiece : piece = x ++ y)
    (hy : y ≠ []) {before : Option Char}
    {text : List Char} {block : RawBlock} (hblock : headBlock? form before (y ++ mark text) =
      some block) :
    isWordEdge before (some first) = true ∧ ∃ blanks y' inner rest, (∀ c ∈ blanks, isBlank c = true) ∧
      y = inZone .code (openingOf form.macroName.toList blanks) ++ y' ∧ y'.getLast? = some (e, .code) ∧
        splitClosing '(' ')' 1 (y' ++ mark text) = some (inner, rest) ∧
          invocationBlock? form (openingOf form.macroName.toList blanks)
            (plain inner) = some block := by
  have hmark : mark (plain piece ++ text) = x ++ (y ++ mark text) := by rw [hclosed, hpiece,
    List.append_assoc]
  obtain ⟨hedge, blanks, inner, rest, hblanks, hsplit, hclosing, hinner⟩ :=
    headBlock?_eq_some hname hmark hblock
  have hnotMem : e ∉ openingOf form.macroName.toList blanks := fun hmem => by
    rw [(isHead_openingOf hname hblanks).chars e hmem] at he
    cases he
  rw [hpiece, List.getLast?_append_of_ne_nil _ hy] at hlast
  obtain ⟨y', rfl, hrest, -⟩ := StopsWith.split (.inr hlast) (notMem_inZone hnotMem) hsplit
  refine ⟨hedge, blanks, y', inner, rest, hblanks, rfl, ?_, by rw [hrest, hclosing], hinner⟩
  cases y' with
  | nil =>
    rw [List.append_nil] at hlast
    exact absurd (List.mem_of_getLast? hlast) (notMem_inZone hnotMem)
  | cons m y' => rwa [List.getLast?_append_of_ne_nil _ (List.cons_ne_nil _ _)] at hlast

namespace IsInvocation

variable {piece : List Marked} {block : RawBlock} (h : IsInvocation form piece block)
include h

theorem exists_tail : ∃ tail, piece = (first, .code) :: tail ∧ ∀ m ∈ tail.head?, m.1 ≠ first := by
  obtain ⟨blanks, inner, hblanks, rfl, -⟩ := h.source
  obtain ⟨tail, hopening, htail⟩ := exists_openingOf_tail hname hblanks
  refine ⟨inZone .code tail ++ (inner ++ [(')', .code)]), by rw [hopening]; rfl, ?_⟩
  cases tail with
  | nil =>
    have hlast := (isHead_openingOf hname hblanks).last
    have hword := hname.isWord_first
    rw [hopening] at hlast
    simp only [List.getLast?_singleton, Option.some.injEq] at hlast
    rw [hlast] at hword
    exact absurd hword (by decide)
  | cons c tail =>
    rintro m hm rfl
    simp only [inZone, List.map_cons, List.cons_append, List.head?_cons, Option.mem_some_iff] at hm
    exact htail (by rw [← hm]; exact List.mem_cons_self)

omit hname in
theorem last : piece.getLast? = some (')', .code) := by
  obtain ⟨blanks, inner, -, rfl, -⟩ := h.source
  rw [← List.append_assoc, List.getLast?_concat]

theorem reads {before : Option Char} (hedge : isWordEdge before (some first) = true)
    (rest : List Marked) :
    headBlock? form before (piece ++ rest) = some block := by
  obtain ⟨blanks, inner, hblanks, rfl, hclosing, hblock⟩ := h.source
  rw [List.append_assoc, List.append_assoc, headBlock?_opening hname hblanks hedge,
    List.singleton_append,
    splitClosing_replace (by decide) hclosing rest]
  exact hblock

theorem headBlock?_inside {x y : List Marked} (hpiece : piece = x ++ y) (hx : x ≠ []) (hy : y ≠ [])
    {before : Option Char}
    {text : List Char} {nested : RawBlock} (hnested : headBlock? form before (y ++ mark text) =
      some nested) :
    headBlock? form before y = some nested := by
  obtain ⟨hedge, blanks', y', inner', rest', hblanks', rfl, hlast, hclosing', hblock'⟩ :=
    exists_opening_within hname (by decide) h.closed h.last hpiece hy hnested
  -- the arguments of the outer invocation hold the opening of the inner one
  obtain ⟨blanks, inner, hblanks, hsource, hclosing, -⟩ := h.source
  have hinner : ∃ u, inner ++ [(')', Zone.code)] = u ++
      (inZone .code (openingOf form.macroName.toList blanks') ++ y') := by
    obtain ⟨tail, hopening, htail⟩ := exists_openingOf_tail hname hblanks
    obtain ⟨tail', hopening', -⟩ := exists_openingOf_tail hname hblanks'
    rcases List.append_eq_append_iff.mp (hsource.symm.trans hpiece) with ⟨u, -, hu⟩ | ⟨u, hu, hrest'⟩
    · exact ⟨u, hu⟩
    · cases u with
      | nil => exact ⟨[], hrest'.symm⟩
      | cons m u =>
        cases x with
        | nil => exact absurd rfl hx
        | cons m' x =>
          rw [hopening'] at hrest'
          rw [hopening] at hu
          have hm : (first, Zone.code) = m := (List.cons.inj hrest').1
          have htail' : inZone .code tail = x ++ m :: u := (List.cons.inj hu).2
          have hmem : (first, Zone.code) ∈ inZone .code tail := by
            rw [htail', hm]
            simp
          exact absurd (by simpa [inZone] using hmem) htail
  obtain ⟨u, hu⟩ := hinner
  obtain ⟨tail, rfl⟩ := List.getLast?_eq_some_iff.mp hlast
  have hinner' : inner = (u ++ inZone .code (openingOf form.macroName.toList blanks')) ++ tail := by
    rw [← List.append_assoc, ← List.append_assoc] at hu
    exact List.append_cancel_right hu
  have hoverall :
      splitClosing '(' ')' 1 ((u ++ inZone .code (openingOf form.macroName.toList blanks')) ++
      (tail ++ [(')', .code)])) =
        some ((u ++ inZone .code (openingOf form.macroName.toList blanks')) ++ tail, []) := by
    rw [← List.append_assoc, ← hinner', hclosing]
  obtain ⟨depth, hdepth, hdeep⟩ := exists_splitClosing_of_append (by decide) (Int.le_refl 1) hoverall
  obtain ⟨inner'', -, rest'', -, hshallow⟩ :=
    exists_splitClosing_of_le (by decide) (Int.le_refl 1) hdepth hdeep
  have hsame := splitClosing_append (by decide) hshallow (mark text)
  rw [hclosing'] at hsame
  cases hsame
  rw [headBlock?_opening hname hblanks' hedge, hshallow]
  exact hblock'

theorem blocksAlong_append (hunnested : invocationBlocks? form (block.raw.toList.drop 1) = none)
    {before : Option Char}
    (hedge : isWordEdge before (some first) = true) (text : List Char) :
    blocksAlong form before (piece ++ mark text) = block :: blocksAlong form (some ')')
      (mark text) := by
  obtain ⟨tail, hpiece, hfirst⟩ := h.exists_tail hname
  have hplainFirst : IsPlain first := isPlain_of_isWord hname.isWord_first
  have htail : mark (plain tail) = tail := by
    have hmark := h.closed.mark_plain
    rw [hpiece, plain_cons] at hmark
    have hcons :=
      mark_append_of_plain (show ∀ c ∈ [first], IsPlain c by simpa using hplainFirst) (plain tail)
    rw [List.singleton_append, hmark] at hcons
    exact ((List.cons.inj hcons).2).symm
  have hnone : blocksAlong form none tail = [] := by
    rw [← h.raw, hpiece, plain_cons, List.drop_succ_cons, List.drop_zero,
      invocationBlocks?_eq_none_iff hname, htail]
      at hunnested
    exact hunnested
  have hlast : behind (some first) (plain tail) = some ')' := by
    have hlast := h.last
    rw [hpiece] at hlast
    rw [← behind_cons none, ← plain_cons (first, .code), behind, plain, List.getLast?_map, hlast]
    rfl
  have hhead := h.reads hname hedge (mark text)
  rw [hpiece, List.cons_append] at hhead ⊢
  rw [blocksAlong, hhead, ← hlast]
  -- a block behind the first character would be nested, or begin with a second first character
  refine congrArg (block :: ·) (blocksAlong_pass fun u m v hsplit => ?_)
  by_contra hsome
  obtain ⟨nested, hnested⟩ := Option.ne_none_iff_exists'.mp hsome
  have hinside := h.headBlock?_inside hname (x := (first, .code) :: u) (y := m :: v)
    (by rw [hpiece, hsplit]; rfl)
    (List.cons_ne_nil _ _) (List.cons_ne_nil _ _) hnested
  cases u with
  | nil =>
    have hm : m.1 ≠ first := hfirst m (by rw [hsplit]; rfl)
    rw [headBlock?_of_ne hname hm] at hinside
    cases hinside
  | cons d u =>
    have := headBlock?_eq_none hnone hsplit
    rw [plain_cons, behind_of_ne_nil (List.cons_ne_nil _ _) none (some first), ← plain_cons] at this
    rw [this] at hinside
    cases hinside

end IsInvocation

end

/-! ## Other sources -/

theorem blocksAlong_of_unread {form : InvocationForm} {piece : List Marked}
    (h : Unread (invocationHead? form.macroName.toList) piece)
    (before : Option Char) (rest : List Marked) :
    blocksAlong form before (piece ++ rest) = blocksAlong form (behind before (plain piece)) rest := by
  refine blocksAlong_pass fun x m y hpiece => ?_
  obtain ⟨c, zone⟩ := m
  by_cases hzone : zone = .code
  · subst hzone
    rw [headBlock?, plain_append, plain_cons, h hpiece]
    simp
  · rw [headBlock?, if_neg]
    simpa [zoneAt?] using hzone

/-- Every invocation that a source opens in code is closed in it. -/
def ClosesInvocations (form : InvocationForm) (source : List Char) : Prop :=
  ∀ x y rest, source = x ++ y → zoneAt? (mark source) x.length = some .code →
    invocationHead? form.macroName.toList (behind none x) y = some ((), rest) →
      (splitClosing '(' ')' 1 (mark rest)).isSome = true

section
variable {form : InvocationForm} {first : Char} (hname : IsMacroName first form.macroName.toList)
include hname

theorem exists_splitClosing_of_closes {piece u y : List Marked} {blanks : List Char} (hclosed : Closed piece)
    (hcloses : ClosesInvocations form (plain piece)) (hblanks : ∀ c ∈ blanks, isBlank c = true)
    (hpiece : piece = u ++ (inZone .code (openingOf form.macroName.toList blanks) ++ y))
    (hedge : isWordEdge (behind none (plain u)) (some first) = true) :
    ∃ inner rest, splitClosing '(' ')' 1 y = some (inner, rest) := by
  have hmark : mark (plain piece) = u ++ (inZone .code (openingOf form.macroName.toList blanks) ++ y) := by
    rw [hclosed.mark_plain, hpiece]
  have hopen : (u ++ inZone .code (openingOf form.macroName.toList blanks)).getLast? = some ('(', .code) := by
    rw [openingOf, ← List.append_assoc, inZone, List.map_append, ← List.append_assoc,
      List.map_singleton, List.getLast?_concat]
  have hmarkRest : mark (plain y) = y := by
    rw [← List.append_assoc] at hmark
    exact (eq_mark_of_behind_code hmark hopen).symm
  have hplain : plain piece = plain u ++ (openingOf form.macroName.toList blanks ++ plain y) := by
    rw [hpiece, plain_append, plain_append, plain_inZone]
  have hcode : zoneAt? (mark (plain piece)) (plain u).length = some .code := by
    obtain ⟨tail, hopening, -⟩ := exists_openingOf_tail hname hblanks
    rw [hmark, zoneAt?_append (length_plain _), hopening]
    rfl
  have hedge' : isWordEdge (behind none (plain u))
      (openingOf form.macroName.toList blanks ++ plain y).head? = true := by
    rwa [List.head?_append, (isHead_openingOf hname hblanks).first, Option.some_or]
  have hisSome := hcloses _ _ _ hplain hcode (invocationHead?_openingOf hblanks (plain y) hedge')
  rw [hmarkRest] at hisSome
  obtain ⟨⟨inner, rest⟩, hclosing⟩ := Option.isSome_iff_exists.mp hisSome
  exact ⟨inner, rest, hclosing⟩

/-- What a header without invocations opens in a piece, and closes there, lists nothing elsewhere. -/
theorem blocksAlong_of_closes {e : Char} (he : isHeadChar e = false) {text : List Char}
    {piece : List Marked}
    (hnone : invocationBlocks? form text = none) (hin : piece <:+: mark text) (hclosed : Closed piece)
    (hlast : piece.getLast? = some (e, .code)) (hhead : ∀ m ∈ piece.head?, m.1 ≠ first)
    (hcloses : ClosesInvocations form (plain piece)) (before : Option Char) (text' : List Char) :
    blocksAlong form before (piece ++ mark text') = blocksAlong form (some e) (mark text') := by
  have hbehind : behind before (plain piece) = some e := by
    rw [behind, plain, List.getLast?_map, hlast]
    rfl
  rw [← hbehind]
  refine blocksAlong_pass fun u m v hpiece => ?_
  by_contra hsome
  obtain ⟨block, hblock⟩ := Option.ne_none_iff_exists'.mp hsome
  cases u with
  | nil =>
    rw [List.cons_append, headBlock?_of_ne hname (hhead m (by rw [hpiece]; rfl))] at hblock
    cases hblock
  | cons d u =>
    obtain ⟨hedge, blanks, y, inner, rest, hblanks, hy, -, hclosing, hinner⟩ :=
      exists_opening_within hname he hclosed hlast hpiece (List.cons_ne_nil _ _) hblock
    have hplace : behind none (plain (d :: u)) = behind before (plain (d :: u)) :=
      behind_of_ne_nil (List.cons_ne_nil _ _) _ _
    rw [← hplace] at hedge
    rw [hy] at hpiece
    obtain ⟨inner', rest', hclosed'⟩ := exists_splitClosing_of_closes hname hclosed hcloses hblanks hpiece hedge
    have hsame := splitClosing_append (by decide) hclosed' (mark text')
    rw [hclosing] at hsame
    cases hsame
    -- so the header listed a block as well
    obtain ⟨p, q, hheader⟩ := hin
    rw [invocationBlocks?_eq_none_iff hname] at hnone
    have hplaceHeader := headBlock?_eq_none hnone (x := p ++ (d :: u))
      (y := inZone .code (openingOf form.macroName.toList blanks) ++
        (y ++ q)) (by rw [← hheader, hpiece]; simp)
    rw [plain_append, behind_append, plain_cons, behind_of_ne_nil (List.cons_ne_nil _ _) _ none,
      ← plain_cons,
      headBlock?_opening hname hblanks hedge,
        splitClosing_append (by decide) hclosed' q] at hplaceHeader
    rw [show invocationBlock? form _ (plain inner) = none from hplaceHeader] at hinner
    cases hinner

end

end FirmwareCatalog.Header
