import FirmwareCatalog.Header.Invocation
import FirmwareCatalog.Proofs.Character.Blank
import FirmwareCatalog.Proofs.Header.Bracket
import FirmwareCatalog.Proofs.Header.Fence

/-!
# Cutting out invocations

The name of the macro begins with a character that it holds only once, so the
heads of invocations do not overlap and each can be looked at by itself. The
source of an invocation gives the same block wherever it is put, and what its
arguments hold in brackets is closed inside it.
-/

namespace FirmwareCatalog.Header

open Character Text

/-- A word whose first character does not occur again in it. -/
structure IsMacroName (first : Char) (name : List Char) : Prop where
  shape : ∃ tail, name = first :: tail ∧ first ∉ tail
  word : ∀ c ∈ name, isWord c = true

theorem IsMacroName.isWord_first {first : Char} {name : List Char} (h : IsMacroName first name) :
    isWord first = true := by
  obtain ⟨tail, hshape, -⟩ := h.shape
  exact h.word first (by rw [hshape]; exact List.mem_cons_self)

theorem isMacroName_sensor : IsMacroName 'X' InvocationForm.sensor.macroName.toList where
  shape := ⟨"_SENSOR".toList, rfl, by decide⟩
  word := List.all_eq_true.mp (by decide : InvocationForm.sensor.macroName.toList.all
    isWord = true)

/-! ## Heads -/

def isOpeningChar (c : Char) : Bool := isWord c || isBlank c || c = '('

theorem isHeadChar_of_isOpeningChar {c : Char} (h : isOpeningChar c = true) : isHeadChar c = true := by
  simp only [isOpeningChar, isHeadChar, Bool.or_eq_true, decide_eq_true_eq] at h ⊢
  rcases h with h | rfl
  · exact .inl h
  · exact .inr (by decide)

def openingOf (name blanks : List Char) : List Char := name ++ (blanks ++ ['('])

theorem openingOf_append (name blanks rest : List Char) : openingOf name blanks ++ rest = name ++
    (blanks ++ '(' :: rest) := by
  simp [openingOf]

section
variable {first : Char} {name : List Char} (hname : IsMacroName first name)

theorem invocationHead?_eq_some {before : Option Char} {text rest : List Char} {value : Unit}
    (h : invocationHead? name before text = some (value, rest)) :
    isWordEdge before text.head? = true ∧
      ∃ blanks, text = openingOf name blanks ++ rest ∧ ∀ c ∈ blanks, isBlank c = true := by
  unfold invocationHead? at h
  split at h
  · cases h
  · rename_i hedge
    simp only [Option.bind_eq_bind, Option.bind_eq_some_iff, Option.pure_def, Option.some.injEq,
      Prod.mk.injEq, true_and] at h
    obtain ⟨cs, hafter, rest', hopen, rfl⟩ := h
    obtain ⟨blanks, hcs, hblanks, -⟩ := exists_skipBlanks cs
    refine ⟨by simpa using hedge, blanks, ?_, hblanks⟩
    rw [eq_append_of_after? hafter, openingOf_append, hcs, text?_eq_some_iff.mp hopen]
    rfl

theorem invocationHead?_openingOf {blanks : List Char} (hblanks : ∀ c ∈ blanks, isBlank c = true)
    {before : Option Char}
    (rest : List Char) (hedge : isWordEdge before (openingOf name blanks ++ rest).head? = true) :
    invocationHead? name before (openingOf name blanks ++ rest) = some ((), rest) := by
  have hopen : text? "(" (skipBlanks (blanks ++ '(' :: rest)) = some rest := by
    rw [skipBlanks_append hblanks ((stopsAt_cons _ _ _).mpr (by decide))]
    exact text?_append "(" rest
  unfold invocationHead?
  rw [hedge, openingOf_append]
  simp [after?_append, hopen]

include hname

theorem isHead_openingOf {blanks : List Char} (hblanks : ∀ c ∈ blanks, isBlank c = true) :
    IsHead isOpeningChar first '(' (openingOf name blanks) := by
  obtain ⟨tail, hshape, -⟩ := hname.shape
  have hwithin : ∀ c ∈ openingOf name blanks, isOpeningChar c = true := by
    intro c hc
    simp only [openingOf, List.mem_append, List.mem_singleton] at hc
    rcases hc with hc | hc | rfl
    · simp [isOpeningChar, hname.word c hc]
    · simp [isOpeningChar, hblanks c hc]
    · decide
  refine ⟨by rw [openingOf, hshape]; rfl, by rw [openingOf, ← List.append_assoc, List.getLast?_concat],
    fun c hc => isHeadChar_of_isOpeningChar (hwithin c hc), hwithin⟩

theorem readsHead_invocationHead? : ReadsHead (invocationHead? name) isOpeningChar first '(' := by
  intro before text value rest h
  obtain ⟨-, blanks, htext, hblanks⟩ := invocationHead?_eq_some h
  exact ⟨openingOf name blanks, htext, isHead_openingOf hname hblanks⟩

theorem exists_openingOf_tail {blanks : List Char} (hblanks : ∀ c ∈ blanks, isBlank c = true) :
    ∃ tail, openingOf name blanks = first :: tail ∧ first ∉ tail := by
  obtain ⟨tail, hshape, htail⟩ := hname.shape
  refine ⟨tail ++ (blanks ++ ['(']), by rw [openingOf, hshape]; rfl, ?_⟩
  have hfirst := hname.isWord_first
  simp only [List.mem_append, List.mem_singleton, not_or]
  refine ⟨htail, fun hmem => ?_, fun he => ?_⟩
  · rw [isWord_eq_false_of_isBlank (hblanks first hmem)] at hfirst
    cases hfirst
  · rw [he] at hfirst
    exact absurd hfirst (by decide)

theorem head_of_invocationHead? {before : Option Char} {text : List Char}
    (h : invocationHead? name before text ≠ none) :
    text.head? = some first := by
  obtain ⟨⟨value, rest⟩, hread⟩ := Option.ne_none_iff_exists'.mp h
  obtain ⟨-, blanks, rfl, hblanks⟩ := invocationHead?_eq_some hread
  rw [List.head?_append, (isHead_openingOf hname hblanks).first]
  rfl

end

/-! ## Blocks one place after the other -/

def headBlock? (form : InvocationForm) (before : Option Char) (marked : List Marked) :
    Option RawBlock :=
  if zoneAt? marked 0 = some .code then
    (invocationHead? form.macroName.toList before (plain marked)).bind fun (_, rest) =>
      (bracketed? '(' ')' marked (marked.length - rest.length - 1)).bind fun (inner, _) =>
        invocationBlock? form (plain (marked.take (marked.length - rest.length))) (plain inner)
  else none

/-- The blocks of the invocations that begin in a marked text, whether or not one stands in another. -/
def blocksAlong (form : InvocationForm) : Option Char → List Marked → List RawBlock
  | _, [] => []
  | before, m :: rest => (headBlock? form before (m :: rest)).toList ++ blocksAlong form
    (some m.1) rest

def matchBlock? (form : InvocationForm) (marked : List Marked) (m : Match Unit) : Option RawBlock :=
  if zoneAt? marked m.start = some .code then
    (bracketed? '(' ')' marked (m.stop - 1)).bind fun (inner, _) =>
      invocationBlock? form m.text (plain inner)
  else none

theorem bracketed?_append {opener closer : Char} {a b : List Marked} {n k : Nat}
    (hn : n = a.length + k) :
    bracketed? opener closer (a ++ b) n = bracketed? opener closer b k := by
  have hdrop : (a ++ b).drop n = b.drop k := by
    rw [hn, List.drop_append, List.drop_of_length_le (Nat.le_add_right _ _), List.nil_append,
      Nat.add_sub_cancel_left]
  rw [bracketed?, hdrop, bracketed?]

theorem matchBlock?_eq_headBlock? {form : InvocationForm} (passed : List Marked)
    {head rest : List Marked}
    {before : Option Char} {value : Unit} (hne : head ≠ [])
    (hread : invocationHead? form.macroName.toList before (plain (head ++ rest)) =
      some (value, plain rest)) :
    matchBlock? form (passed ++ (head ++ rest)) ⟨passed.length, value, plain head⟩ =
      headBlock? form before (head ++ rest) := by
  have hpos := List.length_pos_iff.mpr hne
  have hrest : (head ++ rest).length - (plain rest).length = head.length := by
    rw [List.length_append, length_plain]
    omega
  have hzone : zoneAt? (passed ++ (head ++ rest)) passed.length = zoneAt? (head ++ rest) 0 :=
    (zoneAt?_append rfl).trans (@zoneAt?_append [] (head ++ rest) 0 rfl).symm
  have hbracket :
      bracketed? '(' ')' (passed ++ (head ++ rest)) (passed.length + (plain head).length - 1) =
      bracketed? '(' ')' (head ++ rest) (head.length - 1) :=
    bracketed?_append (by rw [length_plain]; omega)
  simp only [matchBlock?, headBlock?, hread, Option.bind_some, Match.stop, hzone, hbracket, hrest,
    List.take_left]

section
variable {form : InvocationForm} {first : Char} (hname : IsMacroName first form.macroName.toList)
include hname

theorem headBlock?_of_ne {before : Option Char} {m : Marked} {rest : List Marked} (h : m.1 ≠ first) :
    headBlock? form before (m :: rest) = none := by
  have hnone : invocationHead? form.macroName.toList before (plain (m :: rest)) = none := by
    by_contra hsome
    exact h (by simpa using head_of_invocationHead? hname hsome)
  rw [headBlock?, hnone]
  simp

theorem blocksAlong_of_notMem {piece : List Marked} (h : first ∉ plain piece) (before : Option Char)
    (rest : List Marked) :
    blocksAlong form before (piece ++ rest) = blocksAlong form (behind before (plain piece)) rest := by
  induction piece generalizing before with
  | nil => rfl
  | cons m piece ih =>
    rw [plain_cons, List.mem_cons, not_or] at h
    rw [List.cons_append, blocksAlong, headBlock?_of_ne hname (Ne.symm h.1), ih h.2,
      plain_cons, behind_cons]
    rfl

/-- A scan finds every head, since none begins inside another. -/
theorem filterMap_scanFrom (after passed : List Marked) (before : Option Char) :
    (scanFrom (invocationHead? form.macroName.toList) passed.length before 0 (plain after)).filterMap
      (matchBlock? form (passed ++ after)) = blocksAlong form before after := by
  generalize htext : plain after = text
  induction before, text using scan_induction (readsHead_invocationHead? hname).consumes
    generalizing after passed with
  | nil before =>
    obtain rfl := List.map_eq_nil_iff.mp htext
    rfl
  | skip before c text hread ih =>
    obtain ⟨m, after, rfl, rfl, rfl⟩ := List.map_eq_cons_iff.mp htext
    have hblock : headBlock? form before (m :: after) = none := by
      rw [headBlock?, show invocationHead? form.macroName.toList before (plain (m :: after)) = none from hread]
      simp
    have hrest := ih after (passed ++ [m]) rfl
    rw [List.length_append, List.append_assoc, List.singleton_append] at hrest
    rw [scanFrom, hread, blocksAlong, hblock]
    exact hrest
  | found before taken value rest hne hread ih =>
    obtain ⟨-, blanks, hopens, hblanks⟩ := invocationHead?_eq_some hread
    obtain ⟨tail, hopening, htail⟩ := exists_openingOf_tail hname hblanks
    obtain rfl := (List.append_cancel_right hopens).trans hopening
    obtain ⟨head, after, rfl, hhead, rfl⟩ := exists_append_of_plain htext
    cases head with
    | nil => cases hhead
    | cons m head =>
      obtain ⟨rfl, rfl⟩ := List.cons.inj (plain_cons m head ▸ hhead)
      rw [← plain_cons] at hne hread ih ⊢
      have hrest := ih after (passed ++ (m :: head)) rfl
      rw [List.length_append, List.append_assoc, ← length_plain (m :: head)] at hrest
      have hblock := matchBlock?_eq_headBlock? passed (List.cons_ne_nil m head)
        (by rw [plain_append]; exact hread)
      have hbehind := blocksAlong_of_notMem hname htail (some m.1) after
      rw [← behind_cons before, ← plain_cons] at hbehind
      rw [scanFrom_match _ hne hread, List.filterMap_cons, hblock, hrest, List.cons_append, blocksAlong, hbehind]
      cases headBlock? form before (m :: (head ++ after)) <;> rfl

theorem invocationBlocks?_eq (text : List Char) : invocationBlocks? form text =
    if (blocksAlong form none (mark text)).isEmpty then none else some (blocksAlong form none
      (mark text)) := by
  have hscan := filterMap_scanFrom hname (mark text) [] none
  rw [plain_mark] at hscan
  rw [← hscan]
  rfl

theorem invocationBlocks?_eq_none_iff {text : List Char} :
    invocationBlocks? form text = none ↔ blocksAlong form none (mark text) = [] := by
  rw [invocationBlocks?_eq hname]
  split
  · rename_i hempty
    simpa using hempty
  · rename_i hne
    simpa using hne

end

theorem exists_headBlock?_of_mem {form : InvocationForm} {block : RawBlock} :
    ∀ {marked : List Marked} {before : Option Char},
    block ∈ blocksAlong form before marked →
      ∃ x y, marked = x ++ y ∧ headBlock? form (behind before (plain x)) y = some block
  | [], _, h => by cases h
  | m :: marked, before, h => by
    rcases List.mem_append.mp h with h | h
    · exact ⟨[], m :: marked, rfl, Option.mem_toList.mp h⟩
    · obtain ⟨x, y, rfl, hblock⟩ := exists_headBlock?_of_mem h
      exact ⟨m :: x, y, rfl, by rwa [plain_cons, behind_cons]⟩

theorem headBlock?_eq_none {form : InvocationForm} : ∀ {marked : List Marked} {before : Option Char},
    blocksAlong form before marked = [] → ∀ {x y}, marked = x ++ y → headBlock? form
      (behind before (plain x)) y = none
  | [], before, _, x, y, h => by
    obtain ⟨rfl, rfl⟩ := List.append_eq_nil_iff.mp h.symm
    rfl
  | m :: marked, before, hnil, x, y, h => by
    obtain ⟨hhead, hrest⟩ := List.append_eq_nil_iff.mp hnil
    cases x with
    | nil =>
      rw [List.nil_append] at h
      rw [← h]
      exact Option.toList_eq_nil_iff.mp hhead
    | cons d x =>
      obtain ⟨rfl, hx⟩ := List.cons.inj h
      rw [plain_cons, behind_cons]
      exact headBlock?_eq_none hrest hx

theorem blocksAlong_pass {form : InvocationForm} {rest : List Marked} :
    ∀ {piece : List Marked} {before : Option Char},
    (∀ x m y, piece = x ++ m :: y → headBlock? form (behind before (plain x))
      (m :: y ++ rest) = none) →
      blocksAlong form before (piece ++ rest) = blocksAlong form (behind before (plain piece)) rest
  | [], _, _ => rfl
  | m :: piece, before, h => by
    have hhead : headBlock? form before (m :: (piece ++ rest)) = none := h [] m piece rfl
    rw [List.cons_append, blocksAlong, hhead, plain_cons, behind_cons]
    refine blocksAlong_pass fun x m' y hpiece => ?_
    have := h (m :: x) m' y (by rw [hpiece]; rfl)
    rwa [plain_cons, behind_cons] at this

/-! ## Invocations -/

theorem invocationBlock?_eq_some {form : InvocationForm} {head inner : List Char} {block : RawBlock}
    (h : invocationBlock? form head inner = some block) :
    block.raw.toList = head ++ inner ++ [')'] ∧ block.announced = none ∧ block.form = .invocation := by
  unfold invocationBlock? at h
  simp only at h
  split at h
  · cases h
    exact ⟨String.toList_ofList, rfl, rfl⟩
  · cases h

section
variable {form : InvocationForm} {first : Char} (hname : IsMacroName first form.macroName.toList)
include hname

theorem headBlock?_opening {blanks : List Char} (hblanks : ∀ c ∈ blanks, isBlank c = true)
    {before : Option Char}
    (hedge : isWordEdge before (some first) = true) (rest : List Marked) :
    headBlock? form before (inZone .code (openingOf form.macroName.toList blanks) ++ rest) =
      (splitClosing '(' ')' 1 rest).bind fun p =>
        invocationBlock? form (openingOf form.macroName.toList blanks) (plain p.1) := by
  have hhead := isHead_openingOf hname hblanks
  have hread : invocationHead? form.macroName.toList before
      (plain (inZone .code (openingOf form.macroName.toList blanks) ++ rest)) =
        some ((), plain rest) := by
    rw [plain_append, plain_inZone]
    refine invocationHead?_openingOf hblanks _ ?_
    rwa [List.head?_append, hhead.first, Option.some_or]
  have hne : inZone .code (openingOf form.macroName.toList blanks) ≠ [] := by
    obtain ⟨tail, hopening, -⟩ := exists_openingOf_tail hname hblanks
    rw [hopening]
    exact List.cons_ne_nil _ _
  have hcode : zoneAt? (inZone .code (openingOf form.macroName.toList blanks) ++ rest) 0 =
      some .code := by
    obtain ⟨tail, hopening, -⟩ := exists_openingOf_tail hname hblanks
    rw [hopening]
    rfl
  have hbracket :
      bracketed? '(' ')' ([] ++ (inZone .code (openingOf form.macroName.toList blanks) ++ rest))
      ((openingOf form.macroName.toList blanks).length - 1) = splitClosing '(' ')' 1 rest :=
        bracketed?_head hhead (by simp)
  rw [← matchBlock?_eq_headBlock? [] hne hread, matchBlock?, plain_inZone]
  simp only [List.nil_append, List.length_nil, hcode, if_true, Match.stop, Nat.zero_add] at hbracket ⊢
  rw [hbracket]

theorem headBlock?_eq_some {text : List Char} {x y : List Marked} (hmark : mark text = x ++ y)
    {before : Option Char}
    {block : RawBlock} (h : headBlock? form before y = some block) :
    isWordEdge before (some first) = true ∧ ∃ blanks inner rest, (∀ c ∈ blanks, isBlank c = true) ∧
      y = inZone .code (openingOf form.macroName.toList blanks) ++ (inner ++ (')', .code) :: rest) ∧
        splitClosing '(' ')' 1 (inner ++ (')', .code) :: rest) = some (inner, rest) ∧
          invocationBlock? form (openingOf form.macroName.toList blanks)
            (plain inner) = some block := by
  -- a head that is read from here is code up to its parenthesis
  have hcode : ∃ c y', y = (c, .code) :: y' := by
    unfold headBlock? at h
    split at h
    · rename_i hzone
      cases y with
      | nil => cases hzone
      | cons m y' =>
        obtain ⟨c, zone⟩ := m
        simp only [zoneAt?, List.getElem?_cons_zero, Option.map_some, Option.some.injEq] at hzone
        exact ⟨c, y', by rw [hzone]⟩
    · cases h
  have hread : ∃ rest, invocationHead? form.macroName.toList before (plain y) = some ((), rest) := by
    cases hread : invocationHead? form.macroName.toList before (plain y) with
    | none =>
      rw [headBlock?, hread] at h
      simp at h
    | some p => exact ⟨p.2, rfl⟩
  obtain ⟨rest', hread⟩ := hread
  obtain ⟨hedge, blanks, htext, hblanks⟩ := invocationHead?_eq_some hread
  have hhead := isHead_openingOf hname hblanks
  have hy := hhead.eq_inZone hmark hcode htext
  have hedge' : isWordEdge before (some first) = true := by
    rwa [htext, List.head?_append, hhead.first, Option.some_or] at hedge
  rw [hy, headBlock?_opening hname hblanks hedge'] at h
  obtain ⟨⟨inner, rest⟩, hclosing, hblock⟩ := Option.bind_eq_some_iff.mp h
  have hrest := eq_append_of_splitClosing (by decide) hclosing
  rw [hrest] at hclosing hy
  exact ⟨hedge', blanks, inner, rest, hblanks, hy, hclosing, hblock⟩

end

end FirmwareCatalog.Header
