import FirmwareCatalog.Proofs.Header.Argument
import FirmwareCatalog.Proofs.Header.Comment

/-!
# Reading written invocations back

Entries are written as invocations one after the other, with blanks, comments,
literals and the first lines of macro definitions between them. Each invocation
is read as the arguments it was written with, and what stands in comments and
literals is not read.
-/

namespace FirmwareCatalog.Header

open Character Text

/-! ## What is written -/

/-- An invocation with as many arguments as its macro has parameters. The first names a string macro and the
last is given. -/
structure Invocation (form : InvocationForm) where
  blanks : Blanks
  slots : List (Slot form)
  count : slots.length = form.params.length
  reference : ∃ word : Identifier, slots.head?.map (·.argument.text) = some ("PSTR_".toList ++ word.1)
  given : ∀ slot ∈ slots.getLast?, slot.argument.text ≠ []

inductive LiteralPiece where
  | plain (c : Char)
  | escape (c : Char)

def LiteralPiece.source : LiteralPiece → List Char
  | .plain c => [c]
  | .escape c => ['\\', c]

structure Literal where
  isString : Bool
  pieces : List LiteralPiece
  inside : ∀ c, .plain c ∈ pieces → c ≠ (if isString then '"' else '\'') ∧ c ≠ '\\' ∧ c ≠ '\n'

namespace Literal

variable (literal : Literal)

def quote : Char := if literal.isString then '"' else '\''

def zone : Zone := if literal.isString then .string else .character

def source : List Char := literal.quote :: (literal.pieces.flatMap LiteralPiece.source ++ [literal.quote])

end Literal

/-- What may stand between invocations. -/
inductive GapPiece where
  | blank (c : Char) (h : isBlank c = true)
  | comment (comment : Comment)
  /-- `#define NAME \`, up to the backslash. -/
  | define (name : Identifier) (beforeName behindName : Blanks)
  | literal (literal : Literal)

def defineLine (name : Identifier) (beforeName behindName : Blanks) : List Char :=
  ("#define".toList ++ (beforeName.1 ++ (name.1 ++ behindName.1))) ++ ['\\']

def GapPiece.source : GapPiece → List Char
  | .blank c _ => [c]
  | .comment written => written.body ++ (if written.kind = .line then ['\n'] else [])
  | .define name beforeName behindName => defineLine name beforeName behindName
  | .literal written => written.source

def gap (pieces : List GapPiece) : List Char := pieces.flatMap GapPiece.source

structure InvocationText (form : InvocationForm) where
  entries : List (List GapPiece × Invocation form)
  closing : List GapPiece
  last : Option Comment

namespace Invocation

variable {form : InvocationForm} (invocation : Invocation form)

def inner : List Char := List.intercalate [','] (invocation.slots.map Slot.source)

def raw : List Char := openingOf form.macroName.toList invocation.blanks.1 ++ (invocation.inner ++ [')'])

def arguments : List (List Char) := invocation.slots.map fun slot => slot.argument.text

def block : RawBlock where
  announced := none
  raw := String.ofList invocation.raw
  fields := form.params.zip (invocation.arguments.map String.ofList)
  form := .invocation

end Invocation

def InvocationText.source {form : InvocationForm} (text : InvocationText form) : List Char :=
  text.entries.flatMap (fun entry => gap entry.1 ++ entry.2.raw) ++
    (gap text.closing ++ (text.last.map Comment.body).getD [])

/-! ## Arguments -/

theorem mem_spacing {pieces : List SpacePiece} {c : Char} (h : c ∈ spacing pieces) :
    isBlank c = true ∨ c = '\\' := by
  obtain ⟨piece, -, hc⟩ := List.mem_flatMap.mp h
  cases piece with
  | blank d hd =>
    rw [List.mem_singleton.mp hc]
    exact .inl hd
  | continuation carriageReturn =>
    cases carriageReturn <;> simp only [SpacePiece.source, List.mem_cons, List.not_mem_nil, or_false] at hc
    · rcases hc with rfl | rfl <;> decide
    · rcases hc with rfl | rfl | rfl <;> decide

theorem loose_spacing (pieces : List SpacePiece) : ∀ c ∈ spacing pieces, isLoose c = true := by
  intro c hc
  rcases mem_spacing hc with hc | rfl
  · exact isLoose_of_isBlank hc
  · decide

theorem stops_spacing (pieces : List SpacePiece) : StopsAt isPairEnd (spacing pieces) := by
  intro c hc
  rcases mem_spacing (List.mem_of_head? hc) with hblank | rfl
  · exact @stopsAt_isPairEnd_of_isBlank [c] (by simpa using hblank) c rfl
  · decide

section
variable {form : InvocationForm} (slot : Slot form)

theorem Slot.isPart : IsPart slot.source := by
  have hitem := slot.argument.item.isPart
  exact (isPart_of_loose (loose_spacing slot.before)).append
    (hitem.append (isPart_of_loose (loose_spacing slot.behind)) (hitem.lexed.joins (stops_spacing _)))
    (joins_of_plain (isPlain_of_loose (loose_spacing _)) _)

theorem Slot.mark_append {e : Char} (he : IsPlain e) (hpair : isPairEnd e = false) (rest : List Char) :
    mark (slot.source ++ e :: rest) = inZone .code (spacing slot.before) ++ (mark slot.argument.text ++
      (inZone .code (spacing slot.behind ++ [e]) ++ mark rest)) := by
  have hbehind : ∀ c ∈ spacing slot.behind ++ [e], IsPlain c := by
    intro c hc
    rcases List.mem_append.mp hc with hc | hc
    · exact isPlain_of_loose (loose_spacing _) c hc
    · rwa [List.mem_singleton.mp hc]
  have hstop : StopsAt isPairEnd ((spacing slot.behind ++ [e]) ++ rest) :=
    ((stops_spacing _).append_of_stops ((stopsAt_cons _ _ _).mpr hpair)).append (by simp) rest
  have htext : slot.source ++ e :: rest =
      spacing slot.before ++ (slot.argument.text ++ ((spacing slot.behind ++ [e]) ++ rest)) := by
    simp [Slot.source]
  rw [htext, mark_append_of_plain (isPlain_of_loose (loose_spacing _)),
    slot.argument.item.isPart.lexed.mark_append _ hstop, mark_append_of_plain hbehind]

end

theorem isWordEdge_first {first : Char} {name : List Char} (hname : IsMacroName first name)
    {before : Option Char} (hbefore : before.any isWord = false) : isWordEdge before (some first) = true := by
  simp [isWordEdge, hbefore, hname.isWord_first]

section
variable {first : Char} {name : List Char} (hname : IsMacroName first name) {text : List Char}
  (hnone : ∀ n < text.length, zoneAt? (mark text) n = some .code → invocationHead? name none (text.drop n) = none)
include hname hnone

theorem ne_opening_append {x u : List Marked} {c : Char} (hmark : mark text = x ++ (c, .code) :: u)
    {blanks : List Char} (hblanks : ∀ c ∈ blanks, isBlank c = true) (v : List Char) :
    c :: plain u ≠ openingOf name blanks ++ v := by
  intro hopening
  have htext : text.drop x.length = openingOf name blanks ++ v := by
    rw [← hopening, ← plain_mark text, hmark, plain_append, ← length_plain x, List.drop_left]
    rfl
  have hcode : zoneAt? (mark text) x.length = some .code := by
    rw [hmark, zoneAt?_append rfl]
    rfl
  have hedge : isWordEdge none (openingOf name blanks ++ v).head? = true := by
    rw [List.head?_append, (isHead_openingOf hname hblanks).first]
    exact isWordEdge_first hname rfl
  have hlength : x.length < text.length := by
    rw [← plain_mark text, length_plain, hmark]
    simp
  have hread := hnone x.length hlength hcode
  rw [htext, invocationHead?_openingOf hblanks v hedge] at hread
  cases hread

theorem unread_argument {w : List Char} (hfirst : first ∉ w)
    (hw : ∃ blanks f tail, w = blanks ++ f :: tail ∧ (∀ c ∈ blanks, isBlank c = true) ∧
      isOpeningChar f = false) :
    Unread (invocationHead? name) (mark text ++ inZone .code w) := by
  intro x c y hsplit before rest
  by_contra hsome
  obtain ⟨⟨value, rest'⟩, hread⟩ := Option.ne_none_iff_exists'.mp hsome
  obtain ⟨-, blanks, hopening, hblanks⟩ := invocationHead?_eq_some hread
  have hhead := isHead_openingOf hname hblanks
  have hc : c = first := by
    have := congrArg List.head? hopening
    rw [List.cons_append, List.head?_cons, List.head?_append, hhead.first] at this
    exact Option.some.inj this
  have hnotMem : (c, Zone.code) ∉ inZone .code w := hc ▸ notMem_inZone hfirst
  rcases List.append_eq_append_iff.mp hsplit with ⟨u, -, hu⟩ | ⟨u, hu, hy⟩
  · exact hnotMem (by rw [hu]; simp)
  cases u with
  | nil => exact hnotMem (by rw [← List.nil_append (inZone .code w), ← hy]; exact List.mem_cons_self)
  | cons m u =>
    rw [List.cons_append] at hy
    obtain ⟨rfl, rfl⟩ := List.cons.inj hy
    have hwithin := ne_opening_append hname hnone hu hblanks
    rw [plain_append, plain_inZone, ← List.cons_append, List.append_assoc] at hopening
    rcases List.append_eq_append_iff.mp hopening with ⟨v, hv, hrest⟩ | ⟨v, hv, -⟩
    · cases v with
      | nil => exact hwithin [] (by rw [hv, List.append_nil, List.append_nil])
      | cons d v =>
        -- an opening that goes on behind the argument would end before what follows the blanks
        have hlast : (d :: v).getLast? = some '(' := by
          have := hhead.last
          rwa [hv, List.getLast?_append_of_ne_nil _ (List.cons_ne_nil _ _)] at this
        obtain ⟨front, f, tail, rfl, hfront, hf⟩ := hw
        rw [List.append_assoc] at hrest
        have hparen (h : '(' ∈ front) : False := absurd (hfront '(' h) (by decide)
        rcases List.append_eq_append_iff.mp hrest with ⟨a, ha, hrest⟩ | ⟨a, ha, -⟩
        · cases a with
          | nil =>
            rw [List.append_nil] at ha
            exact hparen (ha ▸ List.mem_of_getLast? hlast)
          | cons e a =>
            have hfe : f = e := (List.cons.inj hrest).1
            have hmem : f ∈ openingOf name blanks := by rw [hv, ha, hfe]; simp
            rw [hhead.within f hmem] at hf
            cases hf
        · exact hparen (ha ▸ List.mem_append_left _ (List.mem_of_getLast? hlast))
    · exact hwithin v hv

end

theorem exists_fence {text : List Char} (h : ∃ c ∈ text, isBlank c = false) :
    ∃ blanks f tail, text = blanks ++ f :: tail ∧ (∀ c ∈ blanks, isBlank c = true) ∧ isBlank f = false := by
  obtain ⟨blanks, htext, hblanks, hstop⟩ := exists_skipBlanks text
  cases hrest : skipBlanks text with
  | nil =>
    obtain ⟨c, hc, hblank⟩ := h
    rw [hrest, List.append_nil] at htext
    rw [htext] at hc
    rw [hblanks c hc] at hblank
    cases hblank
  | cons f tail =>
    rw [hrest] at htext hstop
    exact ⟨blanks, f, tail, htext, hblanks, (stopsAt_cons _ _ _).mp hstop⟩

section
variable {form : InvocationForm} {first : Char} (hname : IsMacroName first form.macroName.toList)
include hname

theorem first_notMem_spacing (pieces : List SpacePiece) : first ∉ spacing pieces := by
  intro hmem
  have hword := hname.isWord_first
  rcases mem_spacing hmem with hblank | rfl
  · rw [isWord_eq_false_of_isBlank hblank] at hword
    cases hword
  · exact absurd hword (by decide)

theorem Slot.unread (slot : Slot form) {e : Char} (he : isOpeningChar e = false) (hblank : isBlank e = false) :
    Unread (invocationHead? form.macroName.toList) (inZone .code (spacing slot.before) ++
      (mark slot.argument.text ++ inZone .code (spacing slot.behind ++ [e]))) := by
  have hquiet : Unread (invocationHead? form.macroName.toList) (inZone .code (spacing slot.before)) :=
    Quiet.unread (by
      rw [plain_inZone]
      exact (readsHead_invocationHead? hname).quiet (first_notMem_spacing hname _))
  refine hquiet.append (unread_argument hname slot.argument.opensNone ?_ ?_)
  · rw [List.mem_append, not_or, List.mem_singleton]
    refine ⟨first_notMem_spacing hname _, ?_⟩
    rintro rfl
    have hword := hname.isWord_first
    simp [isOpeningChar, hword] at he
  · obtain ⟨blanks, f, tail, htext, hblanks, hf⟩ :=
      @exists_fence (spacing slot.behind ++ [e]) ⟨e, by simp, hblank⟩
    refine ⟨blanks, f, tail, htext, hblanks, ?_⟩
    have hmem : f ∈ spacing slot.behind ++ [e] := by rw [htext]; simp
    rcases List.mem_append.mp hmem with hmem | hmem
    · rcases mem_spacing hmem with hb | rfl
      · rw [hb] at hf
        cases hf
      · decide
    · rwa [List.mem_singleton.mp hmem]

theorem unread_slots (slots : List (Slot form)) : ∃ piece,
    (∀ rest, mark (List.intercalate [','] (slots.map Slot.source) ++ ')' :: rest) = piece ++ mark rest) ∧
      Unread (invocationHead? form.macroName.toList) piece := by
  induction slots with
  | nil =>
    refine ⟨inZone .code [')'], fun rest => @mark_append_of_plain [')'] (by decide) rest, ?_⟩
    refine Quiet.unread ((readsHead_invocationHead? hname).quiet ?_)
    rw [plain_inZone, List.mem_singleton]
    rintro rfl
    exact absurd hname.isWord_first (by decide)
  | cons slot slots ih =>
    cases slots with
    | nil =>
      refine ⟨_, fun rest => ?_, slot.unread hname (e := ')') (by decide) (by decide)⟩
      rw [List.map_singleton, List.intercalate_singleton, slot.mark_append (by decide) (by decide)]
      simp
    | cons slot' slots =>
      obtain ⟨piece, hmark, hpiece⟩ := ih
      refine ⟨_, fun rest => ?_, (slot.unread hname (e := ',') (by decide) (by decide)).append hpiece⟩
      rw [List.map_cons] at hmark
      rw [List.map_cons, List.map_cons, List.intercalate_cons_cons, List.append_assoc, List.append_assoc,
        List.singleton_append, slot.mark_append (by decide) (by decide), hmark]
      simp

end

/-! ## Invocations -/

theorem spaced_parts {form : InvocationForm} {slots : List (Slot form)} {parts : List (List Char)}
    (h : List.Forall₂ (fun slot part => Spaced slot.argument.text part) slots parts) :
    (∀ part ∈ parts, IsPart part) ∧ parts.map trim = slots.map (fun slot => slot.argument.text) ∧
      ((∀ slot ∈ slots.getLast?, slot.argument.text ≠ []) →
        ∀ part ∈ parts.getLast?, isBlankText part = false) := by
  induction h with
  | nil => exact ⟨fun _ hp => (nomatch hp), rfl, fun _ _ hp => (nomatch hp)⟩
  | @cons slot part slots parts hpart hparts ih =>
    obtain ⟨hisPart, htrim, hlast⟩ := ih
    refine ⟨List.forall_mem_cons.mpr ⟨hpart.isPart slot.argument.item, hisPart⟩, ?_, fun hgiven => ?_⟩
    · rw [List.map_cons, List.map_cons, htrim, hpart.trim, slot.argument.item.trimmed]
    · intro last hmem
      cases hparts with
      | nil =>
        obtain rfl : part = last := Option.some.inj hmem
        exact hpart.isBlankText slot.argument.item.trimmed (hgiven slot rfl)
      | cons hpart' hparts' =>
        rw [List.getLast?_cons_cons] at hmem
        exact hlast (fun slot hslot => hgiven slot (by rwa [List.getLast?_cons_cons])) last hmem

namespace Invocation

variable {form : InvocationForm} (invocation : Invocation form)

theorem splitTopLevel_inner :
    (splitTopLevel (joinLines invocation.inner)).map trim = invocation.arguments := by
  obtain ⟨parts, hparts, hjoin⟩ := joinLinesFrom_slots invocation.slots false
  obtain ⟨hpart, htrim, hlast⟩ := spaced_parts hparts
  have hne : parts ≠ [] := by
    rintro rfl
    obtain ⟨word, hword⟩ := invocation.reference
    rw [List.forall₂_nil_right_iff.mp hparts] at hword
    cases hword
  rw [joinLines, inner, hjoin, splitTopLevel, splitCommas_intercalate hne hpart,
    dropBlankLast_of_last (hlast invocation.given), htrim]
  rfl

theorem invocationBlock?_inner :
    invocationBlock? form (openingOf form.macroName.toList invocation.blanks.1) invocation.inner =
      some invocation.block := by
  have hcount : invocation.arguments.length = form.params.length := by
    rw [arguments, List.length_map, invocation.count]
  have hreference : invocation.arguments.head?.any isMacroReference = true := by
    obtain ⟨word, hword⟩ := invocation.reference
    rw [arguments, List.head?_map, hword, Option.any_some, isMacroReference, text?_append]
    simpa [word.2.1] using word.2.2
  rw [invocationBlock?]
  simp only [invocation.splitTopLevel_inner]
  rw [if_pos ⟨hcount, hreference⟩, block, raw, List.append_assoc]

theorem closed_inner : IsLexed invocation.inner ∧ Balanced '(' ')' (mark invocation.inner) := by
  have hpart : ∀ part ∈ invocation.slots.map Slot.source, IsPart part := by
    intro part hpart
    obtain ⟨slot, -, rfl⟩ := List.mem_map.mp hpart
    exact slot.isPart
  obtain ⟨hlexed, hbalanced⟩ := IsPart.intercalate hpart
  exact ⟨hlexed, hbalanced rfl⟩

variable {first : Char} (hname : IsMacroName first form.macroName.toList)
include hname

theorem blocksAlong_raw {before : Option Char} (hbefore : before.any isWord = false) (rest : List Char) :
    blocksAlong form before (mark (invocation.raw ++ rest)) =
      invocation.block :: blocksAlong form (some ')') (mark rest) := by
  obtain ⟨tail, hopening, htail⟩ := exists_openingOf_tail hname invocation.blanks.2
  obtain ⟨piece, hpiece, hunread⟩ := unread_slots hname invocation.slots
  obtain ⟨hlexed, hbalanced⟩ := invocation.closed_inner
  have hplain : ∀ c ∈ openingOf form.macroName.toList invocation.blanks.1, IsPlain c := fun c hc =>
    isPlain_of_isHeadChar ((isHead_openingOf hname invocation.blanks.2).chars c hc)
  have hparen : mark (')' :: rest) = (')', .code) :: mark rest :=
    @mark_append_of_plain [')'] (by decide) rest
  have hmark : mark (invocation.raw ++ rest) =
      inZone .code (openingOf form.macroName.toList invocation.blanks.1) ++ (piece ++ mark rest) := by
    rw [raw, List.append_assoc, mark_append_of_plain hplain, List.append_assoc, List.singleton_append,
      inner, hpiece]
  have hinner : piece ++ mark rest = mark invocation.inner ++ (')', .code) :: mark rest := by
    rw [← hpiece rest, ← hparen]
    exact hlexed.mark_append _ ((stopsAt_cons _ _ _).mpr (by decide))
  have hhead : headBlock? form before (mark (invocation.raw ++ rest)) = some invocation.block := by
    rw [hmark, headBlock?_opening hname invocation.blanks.2 (isWordEdge_first hname hbefore), hinner,
      hbalanced.splitClosing, Option.bind_some, plain_mark,
      invocation.invocationBlock?_inner]
  have hquiet : Unread (invocationHead? form.macroName.toList) (inZone .code tail) :=
    Quiet.unread (by rw [plain_inZone]; exact (readsHead_invocationHead? hname).quiet htail)
  -- the closing parenthesis is the last character before what follows
  have hlast : behind (some first) (plain (inZone .code tail ++ piece)) = some ')' := by
    have hend : piece = mark invocation.inner ++ [(')', .code)] := by
      have hsame : piece ++ mark rest = (mark invocation.inner ++ [(')', .code)]) ++ mark rest := by
        rw [hinner, List.append_assoc]
        rfl
      exact List.append_cancel_right hsame
    rw [hend, ← List.append_assoc, plain_append, behind_append]
    rfl
  rw [hmark, hopening, show inZone .code (first :: tail) ++ (piece ++ mark rest) =
    (first, .code) :: ((inZone .code tail ++ piece) ++ mark rest) by simp [inZone]] at hhead ⊢
  rw [blocksAlong, hhead, blocksAlong_of_unread (hquiet.append hunread), hlast]
  rfl

end Invocation

/-! ## Gaps -/

open LexState in
theorem markFrom_literal {zone : Zone} {quote : Char} (hquote : quote ≠ '\\')
    (hstep : ∀ c next, (inside zone).step c next = literalStep zone quote c next) {pieces : List LiteralPiece}
    (h : ∀ c, .plain c ∈ pieces → c ≠ quote ∧ c ≠ '\\' ∧ c ≠ '\n') (rest : List Char) :
    markFrom (.inside zone) (pieces.flatMap LiteralPiece.source ++ quote :: rest) =
      inZone zone (pieces.flatMap LiteralPiece.source ++ [quote]) ++ mark rest := by
  induction pieces with
  | nil =>
    have hend : literalStep zone quote quote rest.head? = (zone, .inside .code) := by
      simp [literalStep, hquote]
    rw [List.flatMap_nil, List.nil_append, markFrom, hstep, hend]
    rfl
  | cons piece pieces ih =>
    have ih := ih fun c hc => h c (List.mem_cons_of_mem _ hc)
    cases piece with
    | plain c =>
      obtain ⟨hc, hbackslash, hnewline⟩ := h c List.mem_cons_self
      have hplain (next : Option Char) : literalStep zone quote c next = (zone, .inside zone) := by
        simp [literalStep, hc, hbackslash, hnewline]
      rw [List.flatMap_cons, LiteralPiece.source, List.append_assoc, List.singleton_append, markFrom, hstep,
        hplain, ih]
      rfl
    | escape c =>
      have hescape : literalStep zone quote '\\' (some c) = (zone, .second zone zone) := by
        simp [literalStep]
      rw [List.flatMap_cons, LiteralPiece.source, List.append_assoc, List.cons_append, List.singleton_append,
        markFrom, List.head?_cons, hstep, hescape, markFrom, step, ih]
      rfl

theorem Literal.mark_append (literal : Literal) (rest : List Char) :
    mark (literal.source ++ rest) = inZone literal.zone literal.source ++ mark rest := by
  obtain ⟨isString, pieces, hinside⟩ := literal
  have htext : Literal.source ⟨isString, pieces, hinside⟩ ++ rest = Literal.quote ⟨isString, pieces, hinside⟩ ::
      (pieces.flatMap LiteralPiece.source ++ Literal.quote ⟨isString, pieces, hinside⟩ :: rest) := by
    simp [Literal.source]
  rw [htext]
  cases isString with
  | true =>
    have := @markFrom_literal .string '"' (by decide) (fun _ _ => rfl) pieces hinside rest
    exact congrArg (('"', Zone.string) :: ·) this
  | false =>
    have := @markFrom_literal .character '\'' (by decide) (fun _ _ => rfl) pieces hinside rest
    exact congrArg (('\'', Zone.character) :: ·) this

theorem Comment.noCode (comment : Comment) : ∀ m ∈ inZone comment.zone comment.body, m.2 ≠ .code := by
  intro m hm hcode
  have := comment.isComment_of_mem m hm
  rw [hcode] at this
  cases this

theorem Literal.noCode (literal : Literal) : ∀ m ∈ inZone literal.zone literal.source, m.2 ≠ .code := by
  intro m hm
  obtain ⟨c, -, rfl⟩ := List.mem_map.mp hm
  show literal.zone ≠ .code
  unfold Literal.zone
  split <;> decide

theorem loose_defineLine (name : Identifier) (beforeName behindName : Blanks) :
    ∀ c ∈ defineLine name beforeName behindName, isLoose c = true := by
  have hdirective : ∀ c ∈ "#define".toList, isLoose c = true :=
    List.all_eq_true.mp (by decide : "#define".toList.all isLoose = true)
  intro c hc
  rcases List.mem_append.mp hc with hc | hc
  · rcases List.mem_append.mp hc with hc | hc
    · exact hdirective c hc
    rcases List.mem_append.mp hc with hc | hc
    · exact beforeName.loose c hc
    rcases List.mem_append.mp hc with hc | hc
    · exact isLoose_of_isWord (name.2.2 c hc)
    · exact behindName.loose c hc
  · rw [List.mem_singleton.mp hc]
    decide

section
variable {form : InvocationForm} {first : Char} (hname : IsMacroName first form.macroName.toList)

theorem blocksAlong_piece {text : List Char} {marked : List Marked}
    (hmark : ∀ rest, mark (text ++ rest) = marked ++ mark rest)
    (hunread : Unread (invocationHead? form.macroName.toList) marked) {c : Char}
    (hlast : text.getLast? = some c) (before : Option Char) (rest : List Char) :
    blocksAlong form before (mark (text ++ rest)) = blocksAlong form (some c) (mark rest) := by
  have hplain : plain marked = text := by
    have := congrArg plain (hmark [])
    simpa [mark_nil] using this.symm
  rw [hmark, blocksAlong_of_unread hunread, hplain, behind, hlast, Option.some_or]

include hname

theorem unread_code {text : List Char} (h : first ∉ text) :
    Unread (invocationHead? form.macroName.toList) (inZone .code text) :=
  Quiet.unread (by rw [plain_inZone]; exact (readsHead_invocationHead? hname).quiet h)

theorem ne_first {c : Char} (hc : isWord c = false) : first ≠ c := by
  rintro rfl
  rw [hname.isWord_first] at hc
  cases hc

/-- The first line of a macro definition opens nothing, since a backslash follows the name. -/
theorem unread_defineLine (name : Identifier) (beforeName behindName : Blanks) :
    Unread (invocationHead? form.macroName.toList) (inZone .code (defineLine name beforeName behindName)) := by
  have hchars := loose_defineLine name beforeName behindName
  have hfence : isOpeningChar '\\' = false := by decide
  refine (readsHead_invocationHead? hname).unread (closed_of_plain (isPlain_of_loose hchars)) ?_
    (notMem_inZone fun hmem => ?_)
  · rw [plain_inZone]
    exact ⟨_, _, [], rfl, hfence, List.not_mem_nil⟩
  · exact absurd (hchars '(' hmem) (by decide)

theorem GapPiece.blocksAlong_source (piece : GapPiece) : ∃ c, isWord c = false ∧ ∀ before rest,
    blocksAlong form before (mark (piece.source ++ rest)) = blocksAlong form (some c) (mark rest) := by
  cases piece with
  | blank c h =>
    have hword := isWord_eq_false_of_isBlank h
    have hplain : ∀ d ∈ [c], IsPlain d := by simpa using isPlain_of_isLoose (isLoose_of_isBlank h)
    have hfirst : first ∉ [c] := by simpa using ne_first hname hword
    exact ⟨c, hword, blocksAlong_piece (mark_append_of_plain hplain) (unread_code hname hfirst) rfl⟩
  | comment written =>
    obtain ⟨kind, text, hholds⟩ := written
    cases kind with
    | line =>
      have hmark (rest : List Char) : mark (source (.comment ⟨.line, text, hholds⟩) ++ rest) =
          (inZone .lineComment ('/' :: '/' :: text) ++ inZone .code ['\n']) ++ mark rest := by
        have := @Comment.mark_append ⟨.line, text, hholds⟩ ('\n' :: rest)
          fun _ c hc => (Option.some.inj hc).symm
        have hsource : source (.comment ⟨.line, text, hholds⟩) =
            Comment.body ⟨.line, text, hholds⟩ ++ ['\n'] := rfl
        rw [hsource, List.append_assoc, List.singleton_append, this,
          show mark ('\n' :: rest) = _ from @mark_append_of_plain ['\n'] (by decide) rest,
          List.append_assoc]
        rfl
      have hunread : Unread (invocationHead? form.macroName.toList)
          (inZone .lineComment ('/' :: '/' :: text) ++ inZone .code ['\n']) := by
        refine Unread.append (unread_of_noCode (Comment.noCode ⟨.line, text, hholds⟩)) (unread_code hname ?_)
        simpa using ne_first hname (by decide : isWord '\n' = false)
      exact ⟨'\n', by decide, blocksAlong_piece hmark hunread (by simp [source])⟩
    | block =>
      refine ⟨'/', by decide, blocksAlong_piece (fun rest => ?_)
        (unread_of_noCode (Comment.noCode ⟨.block, text, hholds⟩)) ?_⟩
      · have hsource : source (.comment ⟨.block, text, hholds⟩) = Comment.body ⟨.block, text, hholds⟩ := by
          simp [source]
        rw [hsource]
        exact Comment.mark_append _ fun hkind => nomatch hkind
      · rw [show source (.comment ⟨.block, text, hholds⟩) = ('/' :: '*' :: (text ++ ['*'])) ++ ['/'] by
          simp [source, Comment.body], List.getLast?_concat]
  | define name beforeName behindName =>
    have hplain := isPlain_of_loose (loose_defineLine name beforeName behindName)
    exact ⟨'\\', by decide, blocksAlong_piece (mark_append_of_plain hplain)
      (unread_defineLine hname name beforeName behindName) List.getLast?_concat⟩
  | literal written =>
    refine ⟨written.quote, ?_, blocksAlong_piece written.mark_append (unread_of_noCode written.noCode) ?_⟩
    · unfold Literal.quote
      split <;> decide
    · rw [Literal.source, ← List.cons_append, List.getLast?_concat]

theorem blocksAlong_gap (pieces : List GapPiece) {before : Option Char} (hbefore : before.any isWord = false) :
    ∃ before', before'.any isWord = false ∧ ∀ rest,
      blocksAlong form before (mark (gap pieces ++ rest)) = blocksAlong form before' (mark rest) := by
  induction pieces generalizing before with
  | nil => exact ⟨before, hbefore, fun _ => rfl⟩
  | cons piece pieces ih =>
    obtain ⟨c, hc, hpiece⟩ := piece.blocksAlong_source hname
    obtain ⟨before', hbefore', hpieces⟩ := @ih (some c) hc
    refine ⟨before', hbefore', fun rest => ?_⟩
    rw [gap, List.flatMap_cons, List.append_assoc, hpiece, ← gap, hpieces]

theorem blocksAlong_entries (entries : List (List GapPiece × Invocation form)) {before : Option Char}
    (hbefore : before.any isWord = false) : ∃ before', before'.any isWord = false ∧ ∀ rest,
      blocksAlong form before (mark (entries.flatMap (fun entry => gap entry.1 ++ entry.2.raw) ++ rest)) =
        entries.map (·.2.block) ++ blocksAlong form before' (mark rest) := by
  induction entries generalizing before with
  | nil => exact ⟨before, hbefore, fun _ => rfl⟩
  | cons entry entries ih =>
    obtain ⟨before₁, hbefore₁, hgap⟩ := blocksAlong_gap hname entry.1 hbefore
    obtain ⟨before₂, hbefore₂, hentries⟩ := @ih (some ')') (by decide)
    refine ⟨before₂, hbefore₂, fun rest => ?_⟩
    rw [List.flatMap_cons, List.append_assoc, List.append_assoc, hgap, entry.2.blocksAlong_raw hname hbefore₁,
      hentries]
    rfl

theorem InvocationText.blocksAlong_source (text : InvocationText form) :
    blocksAlong form none (mark text.source) = text.entries.map (·.2.block) := by
  have hstart : (none : Option Char).any isWord = false := rfl
  obtain ⟨before₁, hbefore₁, hentries⟩ := blocksAlong_entries hname text.entries hstart
  obtain ⟨before₂, -, hclosing⟩ := blocksAlong_gap hname text.closing hbefore₁
  have hlast : blocksAlong form before₂ (mark ((text.last.map Comment.body).getD [])) = [] := by
    cases text.last with
    | none => rfl
    | some comment =>
      have hmark := @Comment.mark_append comment [] fun _ _ hc => nomatch hc
      rw [List.append_nil, mark_nil] at hmark
      rw [Option.map_some, Option.getD_some, hmark, blocksAlong_of_unread (unread_of_noCode comment.noCode)]
      rfl
  rw [source, hentries, hclosing, hlast, List.append_nil]

end

/-- What is read from written invocations is one block for each, in order. -/
theorem invocationBlocks?_source (text : InvocationText .sensor) (h : text.entries ≠ []) :
    invocationBlocks? .sensor text.source = some (text.entries.map fun entry =>
      ⟨none, String.ofList entry.2.raw,
        InvocationForm.sensor.params.zip (entry.2.arguments.map String.ofList), .invocation⟩) := by
  rw [invocationBlocks?_eq isMacroName_sensor, text.blocksAlong_source isMacroName_sensor,
    if_neg (by simpa using h)]
  rfl

def Slot.tight {form : InvocationForm} (argument : Argument form) : Slot form :=
  ⟨[], argument, [], fun _ => rfl⟩

def listed : Invocation .sensor where
  blanks := ⟨[], isBlank_of_mem_nil⟩
  slots := [
    .tight ⟨"PSTR_A".toList, by decide +kernel, by decide +kernel, by decide +kernel⟩,
    .tight ⟨"".toList, by decide +kernel, by decide +kernel, by decide +kernel⟩,
    ⟨[.blank ' ' (by decide), .continuation false, .blank ' ' (by decide)],
      ⟨"f(1, 2)".toList, by decide +kernel, by decide +kernel, by decide +kernel⟩, [], fun _ => rfl⟩,
    .tight ⟨"\"),\"".toList, by decide +kernel, by decide +kernel, by decide +kernel⟩,
    .tight ⟨"4".toList, by decide +kernel, by decide +kernel, by decide +kernel⟩,
    .tight ⟨"5".toList, by decide +kernel, by decide +kernel, by decide +kernel⟩,
    .tight ⟨"6".toList, by decide +kernel, by decide +kernel, by decide +kernel⟩,
    .tight ⟨"7".toList, by decide +kernel, by decide +kernel, by decide +kernel⟩,
    .tight ⟨"8".toList, by decide +kernel, by decide +kernel, by decide +kernel⟩,
    .tight ⟨"9".toList, by decide +kernel, by decide +kernel, by decide +kernel⟩,
    .tight ⟨"10".toList, by decide +kernel, by decide +kernel, by decide +kernel⟩,
    .tight ⟨"11".toList, by decide +kernel, by decide +kernel, by decide +kernel⟩,
    .tight ⟨"12".toList, by decide +kernel, by decide +kernel, by decide +kernel⟩]
  count := rfl
  reference := ⟨⟨['A'], by decide +kernel⟩, by decide +kernel⟩
  given := by decide +kernel

theorem invocationBlocks?_source_listed :
    invocationBlocks? .sensor
      ("#define ENTRIES \\\nX_SENSOR(PSTR_A,, \\\n f(1, 2),\"),\",4,5,6,7,8,9,10,11,12)".toList ++
        "/* X_SENSOR(PSTR_B, 1) */".toList) =
      some [⟨none, "X_SENSOR(PSTR_A,, \\\n f(1, 2),\"),\",4,5,6,7,8,9,10,11,12)",
        InvocationForm.sensor.params.zip
          ["PSTR_A", "", "f(1, 2)", "\"),\"", "4", "5", "6", "7", "8", "9", "10", "11", "12"], .invocation⟩] := by
  let text : InvocationText .sensor := {
    entries := [([.define ⟨"ENTRIES".toList, by decide +kernel⟩ ⟨[' '], by decide⟩ ⟨[' '], by decide⟩,
      .blank '\n' (by decide)], listed)]
    closing := []
    last := some ⟨.block, " X_SENSOR(PSTR_B, 1) ".toList, by decide +kernel⟩ }
  have hsource : text.source =
      "#define ENTRIES \\\nX_SENSOR(PSTR_A,, \\\n f(1, 2),\"),\",4,5,6,7,8,9,10,11,12)".toList ++
        "/* X_SENSOR(PSTR_B, 1) */".toList := by
    decide +kernel
  have hblock : listed.block = ⟨none, "X_SENSOR(PSTR_A,, \\\n f(1, 2),\"),\",4,5,6,7,8,9,10,11,12)",
      InvocationForm.sensor.params.zip
        ["PSTR_A", "", "f(1, 2)", "\"),\"", "4", "5", "6", "7", "8", "9", "10", "11", "12"], .invocation⟩ := by
    decide +kernel
  rw [← hsource, invocationBlocks?_source text (List.cons_ne_nil _ _), ← hblock]
  rfl

/-! ## Backslashes before line ends -/

/-- Items in whose code nothing is opened are cut where a backslash of theirs stands before a line end: behind
the last backslash of an argument, and at a carriage return inside one. -/
theorem argument_may_be_cut :
    (IsItem "a\\".toList ∧ ¬ ['\\', '\n'] <:+: "a\\".toList ∧ 'X' ∉ "a\\".toList ∧
      (invocationBlocks? .sensor "X_SENSOR(PSTR_A,1,2,3,4,5,6,7,8,9,10,11,a\\\n)".toList).map (·.map (·.fields)) =
        some [InvocationForm.sensor.params.zip
          ["PSTR_A", "1", "2", "3", "4", "5", "6", "7", "8", "9", "10", "11", "a"]]) ∧
    (IsItem "a\\\r\nb".toList ∧ ¬ ['\\', '\n'] <:+: "a\\\r\nb".toList ∧ 'X' ∉ "a\\\r\nb".toList ∧
      (invocationBlocks? .sensor "X_SENSOR(PSTR_A,1,2,3,4,5,6,7,8,9,10,11,a\\\r\nb)".toList).map
        (·.map (·.fields)) =
        some [InvocationForm.sensor.params.zip
          ["PSTR_A", "1", "2", "3", "4", "5", "6", "7", "8", "9", "10", "11", "a b"]]) := by
  refine ⟨⟨?_, ?_, ?_, ?_⟩, ?_, ?_, ?_, ?_⟩
  all_goals decide +kernel

end FirmwareCatalog.Header
