import FirmwareCatalog.Proofs.Header.Element
import FirmwareCatalog.Proofs.Header.Field
import FirmwareCatalog.Proofs.Header.StructArray
import FirmwareCatalog.Proofs.Text.Numeral

/-!
# Reading written arrays back

An array is written as its declaration and its elements with commas between
them. Blanks and comments may stand around the elements and their fields, and a
comment line before an element may announce its index. What is read are the
elements as they were written.
-/

namespace FirmwareCatalog.Header

open Character Numeral Text

/-! ## What is written -/

/-- The line `// Index N:` with a note, and the blanks behind it. -/
structure Announcement where
  index : Nat
  small : index < 2 ^ 32
  note : List Char
  oneLine : '\n' ∉ note
  behind : Blanks

structure ArrayElement where
  before : Filler
  announcement : Option Announcement
  fields : FieldList
  behind : Filler

/-- An array. With a filler at the end the last element has a comma behind it. -/
structure ArrayText where
  elementType : Identifier
  name : Identifier
  blanks : DeclarationBlanks
  lawful : blanks.Lawful
  elements : List ArrayElement
  closing : Option Filler

namespace Announcement

variable (announcement : Announcement)

def text : List Char := " Index ".toList ++ (decimal announcement.index ++ (":".toList ++ announcement.note))

theorem newline_notMem_text : '\n' ∉ announcement.text := by
  unfold text
  rw [List.mem_append, List.mem_append, List.mem_append, not_or, not_or, not_or]
  refine ⟨?_, notMem_decimal ?_ _, ?_, announcement.oneLine⟩
  · decide
  · decide
  · decide

def remark : Remark where
  comment := ⟨.line, announcement.text, announcement.newline_notMem_text⟩
  behind := ⟨'\n' :: announcement.behind.1, List.forall_mem_cons.mpr ⟨by decide, announcement.behind.2⟩⟩
  apart := List.cons_ne_nil _ _
  ends := fun _ c hc => (Option.some.inj hc).symm

end Announcement

namespace ArrayElement

variable (element : ArrayElement)

def raw : List Char :=
  (element.announcement.map fun a => a.remark.source).getD [] ++ '\x7b' :: (element.fields.source ++ ['\x7d'])

def source : List Char := element.before.source ++ (element.raw ++ element.behind.source)

def block : RawBlock where
  announced := element.announcement.map (·.index)
  raw := String.ofList element.raw
  fields := element.fields.fields.map Designation.entry
  form := .structLiteral

end ArrayElement

namespace ArrayText

variable (array : ArrayText)

def parts : List (List Char) :=
  array.elements.map ArrayElement.source ++ array.closing.toList.map Filler.source

def body : List Char := List.intercalate [','] array.parts

def source (rest : List Char) : List Char :=
  array.blanks.declare array.elementType.1 array.name.1 (array.body ++ '\x7d' :: rest)

end ArrayText

/-! ## Fillers -/

theorem blocksFrom_code {text : List Char} (h : ∀ c ∈ text, c ≠ '\x7d' ∧ c ≠ '\x7b')
    (pending : Option (Nat × List Char)) (rest : List Marked) :
    blocksFrom pending (pieces (inZone .code text ++ rest)) =
      blocksFrom (pending.map fun p => (p.1, p.2 ++ text)) (pieces rest) := by
  induction text generalizing pending with
  | nil => cases pending <;> simp [inZone]
  | cons c text ih =>
    obtain ⟨hc, h⟩ := List.forall_mem_cons.mp h
    have hgap : IsGap [(c, Zone.code)] := isGap_other rfl fun _ => hc
    rw [show inZone .code (c :: text) = [(c, Zone.code)] ++ inZone .code text from rfl, List.append_assoc,
      hgap.passes pending _ (apart_of_last (a := []) rfl), ih h]
    cases pending <;> simp

theorem isGap_code {text : List Char} (hne : text ≠ []) (h : ∀ c ∈ text, c ≠ '\x7d' ∧ c ≠ '\x7b') :
    IsGap (inZone .code text) where
  ne := by simpa [inZone] using hne
  neutral := fun m hm => by
    obtain ⟨c, hc, rfl⟩ := List.mem_map.mp hm
    exact fun _ => h c hc
  passes := fun pending rest _ => by rw [blocksFrom_code h, plain_inZone]

theorem ne_brace_of_loose {text : List Char} (h : ∀ c ∈ text, isLoose c = true) :
    ∀ c ∈ text, c ≠ '\x7d' ∧ c ≠ '\x7b' :=
  fun c hc => ⟨ne_of_isLoose (h c hc) (by decide), ne_of_isLoose (h c hc) (by decide)⟩

structure Contains (text : List Char) (blocks : List RawBlock) : Prop where
  lexed : IsLexed text
  balanced : Balanced '\x7b' '\x7d' (mark text)
  lists : ∀ rest, blocksFrom none (pieces (mark text ++ rest)) = blocks ++ blocksFrom none (pieces rest)

theorem Contains.append {a b : List Char} {blocks blocks' : List RawBlock} (ha : Contains a blocks)
    (hb : Contains b blocks') (h : Joins a b) : Contains (a ++ b) (blocks ++ blocks') where
  lexed := ha.lexed.append hb.lexed h
  balanced := by rw [h.mark_append]; exact ha.balanced.append hb.balanced
  lists := fun rest => by
    rw [h.mark_append, List.append_assoc, ha.lists, hb.lists, List.append_assoc]

theorem contains_code {text : List Char} (hplain : ∀ c ∈ text, IsPlain c)
    (h : ∀ c ∈ text, c ≠ '\x7d' ∧ c ≠ '\x7b') : Contains text [] where
  lexed := isLexed_of_plain hplain
  balanced := by
    rw [mark_of_plain hplain]
    refine balanced_of_neutral fun m hm => ?_
    obtain ⟨c, hc, rfl⟩ := List.mem_map.mp hm
    exact fun _ => h c hc
  lists := fun rest => by
    rw [mark_of_plain hplain, blocksFrom_code h]
    rfl

theorem contains_loose {text : List Char} (h : ∀ c ∈ text, isLoose c = true) : Contains text [] :=
  contains_code (isPlain_of_loose h) (ne_brace_of_loose h)

theorem Comment.announcedIndex?_body (comment : Comment)
    (h : ¬ "Index".toList <+: skipBlanks comment.text) : announcedIndex? comment.body = none := by
  have hnone (text : List Char) (hbody : (text? "//" comment.body <|> text? "/*" comment.body) = some text)
      (htext : ¬ "Index".toList <+: skipBlanks text) : announcedIndex? comment.body = none := by
    have hindex : text? "Index" (skipBlanks text) = none := by
      by_contra hsome
      obtain ⟨rest, hrest⟩ := Option.ne_none_iff_exists'.mp hsome
      exact htext ⟨rest, (text?_eq_some_iff.mp hrest).symm⟩
    rw [announcedIndex?, hbody]
    simp only [Option.bind_eq_bind, Option.bind_some, hindex, Option.bind_none]
  obtain ⟨kind, text, hholds⟩ := comment
  cases kind with
  | line => exact hnone text rfl h
  | block =>
    refine hnone (text ++ ['*', '/']) rfl fun hindex => h ?_
    rw [skipBlanks, List.dropWhile_append] at hindex
    split at hindex
    · exact absurd hindex (by decide)
    · exact prefix_of_prefix_append_cons (by decide) hindex

theorem Remark.contains (remark : Remark) (h : ¬ "Index".toList <+: skipBlanks remark.comment.text) :
    Contains remark.source [] where
  lexed := remark.isPart_source.lexed
  balanced := balanced_of_awaited? rfl remark.isPart_source.nested
  lists := fun rest => by
    have hcomment := isGap_comment (by simpa [inZone] using remark.comment.body_ne_nil)
      remark.comment.isComment_of_mem (by rw [plain_inZone]; exact remark.comment.announcedIndex?_body h)
    obtain ⟨c, behind, hbehind⟩ := List.exists_cons_of_ne_nil remark.apart
    have hapart : Apart (inZone remark.comment.zone remark.comment.body)
        (inZone .code remark.behind.1 ++ rest) := by
      rw [hbehind]
      exact apart_of_head rfl
    have hblanks := (contains_loose remark.behind.loose).lists rest
    rw [mark_of_plain (isPlain_of_loose remark.behind.loose)] at hblanks
    rw [remark.mark_source, Remark.marked, List.append_assoc, hcomment.passes none _ hapart]
    exact hblanks

namespace Filler

variable (filler : Filler)

def marked : List Marked := inZone .code filler.lead.1 ++ filler.remarks.flatMap Remark.marked

theorem joins (b : List Char) : Joins filler.source b := by
  have hplain : plain filler.marked = filler.source := by
    rw [marked, plain_append, plain_inZone, plain, List.map_flatMap]
    exact congrArg _ (List.flatMap_congr fun remark _ => remark.plain_marked)
  rw [← hplain]
  exact joins_of_closed ((closed_of_plain (isPlain_of_loose filler.lead.loose)).append
    (closed_flatMap fun remark _ => remark.closed)) b

theorem contains : Contains filler.source [] := by
  have hremarks (remarks : List Remark)
      (h : ∀ remark ∈ remarks, ¬ "Index".toList <+: skipBlanks remark.comment.text) :
      Contains (remarks.flatMap Remark.source) [] := by
    induction remarks with
    | nil => exact contains_loose fun c hc => nomatch hc
    | cons remark remarks ih =>
      obtain ⟨hremark, h⟩ := List.forall_mem_cons.mp h
      exact (remark.contains hremark).append (ih h) (remark.joins _)
  exact (contains_loose filler.lead.loose).append (hremarks _ filler.unannounced)
    (joins_of_plain (isPlain_of_loose filler.lead.loose) _)

end Filler

/-! ## Elements -/

theorem Announcement.announcedIndex?_body (announcement : Announcement) :
    announcedIndex? announcement.remark.comment.body = some announcement.index := by
  have hspace : ∀ c ∈ [' '], isBlank c = true := by decide
  have htext : announcement.remark.comment.body = "//".toList ++ ([' '] ++ ("Index".toList ++ ([' '] ++
      (decimal announcement.index ++ (":".toList ++ announcement.note))))) := rfl
  have hstop : StopsAt isBlank (decimal announcement.index ++ (":".toList ++ announcement.note)) := by
    refine StopsAt.append (decimal_ne_nil _) (fun c hc => ?_) _
    exact isBlank_of_mem_decimal c (List.mem_of_head? hc)
  have hdigits : digits? (decimal announcement.index ++ (":".toList ++ announcement.note)) =
      some (decimal announcement.index, ":".toList ++ announcement.note) :=
    someOf?_append isDecimalDigit_of_mem_decimal ((stopsAt_cons _ _ _).mpr (by decide)) (decimal_ne_nil _)
  have hcolon : text? ":" (skipBlanks (":".toList ++ announcement.note)) = some announcement.note :=
    text?_skipBlanks isBlank_of_mem_nil (by decide) _
  unfold announcedIndex?
  rw [htext, text?_append]
  simp only [Option.bind_eq_bind, Option.bind_some, Option.orElse_eq_orElse, Option.orElse_some]
  rw [text?_skipBlanks hspace (by decide), Option.bind_some,
    someBlanks?_append (by simp) hspace hstop, Option.bind_some, hdigits, Option.bind_some]
  simp only
  rw [hcolon, Option.bind_some, unsigned?_decimal announcement.small]

theorem Remark.isLead (remark : Remark) {index : Nat} (h : announcedIndex? remark.comment.body = some index) :
    IsLead index remark.source remark.marked := by
  have hcomment := isLead_comment remark.comment.isComment_of_mem (by rwa [plain_inZone])
  rw [plain_inZone] at hcomment
  obtain ⟨c, behind, hbehind⟩ := List.exists_cons_of_ne_nil remark.apart
  have hapart : Apart (inZone remark.comment.zone remark.comment.body) (inZone .code remark.behind.1) := by
    rw [hbehind]
    exact apart_of_head rfl
  have hlead := hcomment.append hapart (isGap_code remark.apart (ne_brace_of_loose remark.behind.loose))
  rwa [plain_inZone] at hlead

theorem closed_braced {text : List Char} (h : IsLexed text) : Closed (braced (mark text)) := by
  intro rest
  have htext : plain (braced (mark text)) ++ rest = ['\x7b'] ++ (text ++ (['\x7d'] ++ rest)) := by
    simp [braced]
  rw [htext, mark_append_of_plain (by decide), h.mark_append (['\x7d'] ++ rest) ((stopsAt_cons _ _ _).mpr (by decide)),
    mark_append_of_plain (by decide)]
  simp [braced, inZone]

namespace ArrayElement

variable (element : ArrayElement)

def lead : List Marked := (element.announcement.map fun a => a.remark.marked).getD []

def pending : Option (Nat × List Char) := element.announcement.map fun a => (a.index, a.remark.source)

theorem pends : Pends element.pending element.lead := by
  unfold pending lead
  cases element.announcement with
  | none => rfl
  | some announcement => exact announcement.remark.isLead announcement.announcedIndex?_body

theorem closed_lead : Closed element.lead := by
  unfold lead
  cases element.announcement with
  | none => exact closed_nil
  | some announcement => exact announcement.remark.closed

theorem elementBlock_eq :
    elementBlock (element.pending.map (·.1)) ((element.pending.map (·.2)).getD [])
      (plain (mark element.fields.source)) = element.block := by
  unfold elementBlock block raw pending
  rw [plain_mark, element.fields.designatedFields_source]
  cases element.announcement <;> simp

theorem isElement : IsElement (element.lead ++ braced (mark element.fields.source)) element.block := by
  obtain ⟨hlexed, hbalanced⟩ := IsPart.intercalate element.fields.isPart_of_mem_parts
  rw [← elementBlock_eq]
  exact element.pends.isElement ((hbalanced rfl).splitClosing []) (element.closed_lead.append (closed_braced hlexed))

theorem contains_raw : Contains element.raw [element.block] := by
  have h := element.isElement
  have hraw : plain (element.lead ++ braced (mark element.fields.source)) = element.raw := by
    rw [h.raw]
    exact String.toList_ofList
  have hmark := h.closed.mark_plain
  rw [hraw] at hmark
  refine ⟨?_, by rw [hmark]; exact h.balanced, fun rest => by rw [hmark]; exact h.reads rest⟩
  refine isLexed_of_closed h.closed hraw fun m hm => ?_
  rw [h.last, Option.mem_some_iff] at hm
  rw [← hm]
  rfl

theorem joins_raw (b : List Char) : Joins element.raw b := by
  have h := element.isElement
  rw [show element.raw = element.block.raw.toList from String.toList_ofList.symm, ← h.raw]
  exact joins_of_closed h.closed b

theorem contains : Contains element.source [element.block] :=
  element.before.contains.append (element.contains_raw.append element.behind.contains (element.joins_raw _))
    (element.before.joins _)

end ArrayElement

/-! ## Arrays -/

theorem Contains.intercalate {texts : List (List Char)} {blocks : List (List RawBlock)}
    (h : List.Forall₂ Contains texts blocks) : Contains (List.intercalate [','] texts) blocks.flatten := by
  induction h with
  | nil => exact contains_loose fun c hc => nomatch hc
  | @cons text blocks texts blockss hpart hparts ih =>
    cases hparts with
    | nil => simpa using hpart
    | @cons text' blocks' texts blockss hpart' hparts =>
      have hcomma : ∀ c ∈ [','], IsPlain c := by decide
      rw [List.intercalate_cons_cons, List.append_assoc, List.flatten_cons]
      exact hpart.append ((contains_code hcomma (by decide)).append ih (joins_of_plain hcomma _))
        (hpart.lexed.joins ((stopsAt_cons _ _ _).mpr (by decide)))

namespace ArrayText

variable (array : ArrayText)

theorem contains_body : Contains array.body (array.elements.map ArrayElement.block) := by
  have hparts : List.Forall₂ Contains array.parts (array.elements.map (fun element => [element.block]) ++
      array.closing.toList.map fun _ => []) := by
    refine List.rel_append ?_ ?_
    · exact List.forall₂_map_left_iff.mpr (List.forall₂_map_right_iff.mpr
        (List.forall₂_same.mpr fun element _ => element.contains))
    · exact List.forall₂_map_left_iff.mpr (List.forall₂_map_right_iff.mpr
        (List.forall₂_same.mpr fun filler _ => filler.contains))
  have := Contains.intercalate hparts
  rw [List.flatten_append] at this
  have hclosing : (array.closing.toList.map fun _ => ([] : List RawBlock)).flatten = [] := by simp
  have helements : (array.elements.map fun element => [element.block]).flatten =
      array.elements.map ArrayElement.block := by
    rw [← List.flatMap_def]
    exact List.map_eq_flatMap.symm
  rwa [hclosing, helements, List.append_nil] at this

theorem arrayElements_body : arrayElements array.body = array.elements.map ArrayElement.block := by
  have := array.contains_body.lists []
  rwa [List.append_nil, show pieces [] = [] by rw [pieces], blocksFrom, List.append_nil] at this

theorem structArray?_source (rest : List Char) :
    structArray? array.name.1 (array.source rest) = some ⟨array.elementType.1, array.body⟩ := by
  have hhead (before : Option Char) (rest : List Char) := array.lawful.arrayHead?_declare
    array.elementType.2.2 array.elementType.2.1 array.name.2.2 array.name.2.1 before rest
  have hread (before : Option Char) (rest : List Char) : arrayHead? array.name.1 before
      (array.blanks.declare array.elementType.1 array.name.1 [] ++ rest) = some (array.elementType.1, rest) := by
    rw [← DeclarationBlanks.declare_append]
    exact hhead before rest
  have hisHead := isHead_of_arrayHead? array.name.2.2 (hread none [])
  have hbrace : mark ('\x7d' :: rest) = ('\x7d', .code) :: mark rest :=
    @mark_append_of_plain ['\x7d'] (by decide) rest
  have hmark : mark (array.source rest) = [] ++
      (inZone .code (array.blanks.declare array.elementType.1 array.name.1 []) ++
        (mark array.body ++ ('\x7d', .code) :: mark rest)) := by
    rw [source, ← List.nil_append (array.body ++ _), DeclarationBlanks.declare_append,
      mark_append_of_plain fun c hc => isPlain_of_isHeadChar (hisHead.chars c hc),
      array.contains_body.lexed.mark_append _ ((stopsAt_cons _ _ _).mpr (by decide)), hbrace]
    rfl
  have := structArray?_of_head array.name.2.2 hread hmark unread_nil (fun h => absurd rfl h)
    (array.contains_body.balanced.splitClosing _)
  rwa [plain_mark] at this

/-- What is read from a written array are its elements, each with the index that it announces, else with its
place. -/
theorem structBlocks?_source (rest : List Char) :
    structArray? array.name.1 (array.source rest) = some ⟨array.elementType.1, array.body⟩ ∧
      (structBlocks? array.name.1 (array.source rest)).map assignIndices =
        some (array.elements.zipIdx.map fun (element, place) =>
          ⟨(element.announcement.map (·.index)).getD place,
            element.announcement.map (·.index), String.ofList element.raw,
            element.fields.fields.map Designation.entry, .structLiteral⟩) := by
  refine ⟨array.structArray?_source rest, ?_⟩
  rw [structBlocks?, array.structArray?_source, Option.map_some, Option.map_some, arrayElements_body,
    assignIndices, List.zipIdx_map, List.map_map]
  rfl

def announced : ArrayText where
  elementType := ⟨"Info".toList, by decide⟩
  name := ⟨"LIB".toList, by decide⟩
  blanks := .oneLine
  lawful := DeclarationBlanks.lawful_oneLine
  elements := [{
    before := {
      lead := ⟨['\n'], by decide⟩
      remarks := [⟨⟨.block, " a ".toList, by decide⟩, ⟨[' '], by decide⟩, by decide, fun h => nomatch h⟩]
      apart := by decide
      unannounced := by decide }
    announcement := some ⟨7, by decide, " b".toList, by decide, ⟨[], by decide⟩⟩
    fields := {
      fields := [{
        before := ⟨⟨[' '], by decide⟩, [], by decide, by decide⟩
        name := ⟨"f".toList, by decide⟩
        beforeSign := ⟨[' '], by decide⟩
        behindSign := ⟨[' '], by decide⟩
        value := ⟨"\"\x7b, /*\"".toList, by decide⟩
        behind := ⟨⟨[], by decide⟩, [], by decide, by decide⟩ }]
      closing := some ⟨⟨[' '], by decide⟩, [], by decide, by decide⟩ }
    behind := ⟨⟨['\n'], by decide⟩, [], by decide, by decide⟩ }]
  closing := none

theorem structBlocks?_source_announced :
    (structBlocks? "LIB".toList
      "static const PROGMEM Info LIB[] = \x7b\n/* a */ // Index 7: b\n\x7b .f = \"\x7b, /*\", \x7d\n\x7d;".toList).map
        assignIndices =
      some [⟨7, some 7, "// Index 7: b\n\x7b .f = \"\x7b, /*\", \x7d", [("f", "\"\x7b, /*\"")],
        .structLiteral⟩] := by
  have htext : announced.source [';'] =
      "static const PROGMEM Info LIB[] = \x7b\n/* a */ // Index 7: b\n\x7b .f = \"\x7b, /*\", \x7d\n\x7d;".toList := by
    decide +kernel
  have hblock : announced.elements.map ArrayElement.block =
      [⟨some 7, "// Index 7: b\n\x7b .f = \"\x7b, /*\", \x7d", [("f", "\"\x7b, /*\"")], .structLiteral⟩] := by
    decide +kernel
  have h := (structBlocks?_source announced [';']).2
  rw [htext] at h
  rw [show "LIB".toList = announced.name.1 from rfl, h]
  exact congrArg (fun blocks => some (blocks.map (IndexedBlock.mk 7))) hblock

end ArrayText

end FirmwareCatalog.Header
