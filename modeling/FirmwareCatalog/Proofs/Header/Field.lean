import FirmwareCatalog.Header.StructArray
import FirmwareCatalog.Proofs.Character.Blank
import FirmwareCatalog.Proofs.Header.Comment
import FirmwareCatalog.Proofs.Header.Nesting
import Mathlib.Data.List.Forall2

/-!
# Reading written fields back

The fields of an element are written one after the other with commas between
them, each with blanks and comments around it. Without its comments such a list
is split at the same commas, and every part gives its name and its value.
-/

namespace FirmwareCatalog.Header

open Character Text

/-! ## What is written -/

abbrev Value := {text : List Char // text ≠ [] ∧ IsItem text}

structure Remark where
  comment : Comment
  behind : Blanks
  apart : behind.1 ≠ []
  ends : comment.EndsBefore behind.1

/-- Blanks, and comments that do not begin with `Index` with blanks around each. -/
structure Filler where
  lead : Blanks
  remarks : List Remark
  apart : remarks ≠ [] → lead.1 ≠ []
  unannounced : ∀ remark ∈ remarks, ¬ "Index".toList <+: skipBlanks remark.comment.text

structure Designation where
  before : Filler
  name : Identifier
  beforeSign : Blanks
  behindSign : Blanks
  value : Value
  behind : Filler

/-- Fields with commas between them. With a filler at the end the last field has a comma behind it. -/
structure FieldList where
  fields : List Designation
  closing : Option Filler

def Remark.source (remark : Remark) : List Char := remark.comment.body ++ remark.behind.1

def Filler.source (filler : Filler) : List Char := filler.lead.1 ++ filler.remarks.flatMap Remark.source

namespace Designation

variable (field : Designation)

def designator : List Char := '.' :: (field.name.1 ++ (field.beforeSign.1 ++ '=' :: field.behindSign.1))

def source : List Char :=
  field.before.source ++ ((field.designator ++ field.value.1) ++ field.behind.source)

def entry : String × String := (String.ofList field.name.1, String.ofList field.value.1)

end Designation

def FieldList.parts (list : FieldList) : List (List Char) :=
  list.fields.map Designation.source ++ list.closing.toList.map Filler.source

def FieldList.source (list : FieldList) : List Char := List.intercalate [','] list.parts

/-! ## Without comments -/

/-- A part between commas, and what is left of it without its comments. -/
structure Leaves (text bare : List Char) : Prop where
  whole : IsPart text
  strip : stripComments text = bare
  part : IsPart bare

theorem Leaves.append {a a' b b' : List Char} (ha : Leaves a a') (hb : Leaves b b') (h : Joins a b)
    (h' : Joins a' b') : Leaves (a ++ b) (a' ++ b') where
  whole := ha.whole.append hb.whole h
  strip := by rw [ha.whole.lexed.stripComments_append h, ha.strip, hb.strip]
  part := ha.part.append hb.part h'

theorem leaves_of_noComment {text : List Char} (hpart : IsPart text)
    (hcomment : ∀ m ∈ mark text, m.2.isComment = false) : Leaves text text :=
  ⟨hpart, stripComments_of_noComment hcomment, hpart⟩

theorem leaves_of_item {text : List Char} (h : IsItem text) : Leaves text text :=
  leaves_of_noComment h.isPart h.noComment

theorem leaves_of_loose {text : List Char} (h : ∀ c ∈ text, isLoose c = true) : Leaves text text := by
  refine leaves_of_noComment (isPart_of_loose h) fun m hm => ?_
  rw [mark_of_plain (isPlain_of_loose h)] at hm
  obtain ⟨c, -, rfl⟩ := List.mem_map.mp hm
  rfl

/-! ## Fillers -/

namespace Remark

variable (remark : Remark)

def marked : List Marked :=
  inZone remark.comment.zone remark.comment.body ++ inZone .code remark.behind.1

def bare : List Char := ' ' :: remark.behind.1

theorem plain_marked : plain remark.marked = remark.source := by
  rw [marked, plain_append, plain_inZone, plain_inZone]
  rfl

theorem closed : Closed remark.marked := by
  intro rest
  have hends : remark.comment.EndsBefore (remark.behind.1 ++ rest) := by
    intro hkind c hc
    refine remark.ends hkind c ?_
    obtain ⟨d, tail, hbehind⟩ := List.exists_cons_of_ne_nil remark.apart
    rw [hbehind] at hc ⊢
    exact hc
  rw [plain_marked, source, List.append_assoc, remark.comment.mark_append hends,
    mark_append_of_plain (isPlain_of_loose remark.behind.loose), marked, List.append_assoc]

theorem mark_source : mark remark.source = remark.marked := by
  rw [← plain_marked, remark.closed.mark_plain]

theorem stripRuns_marked : stripRuns false remark.marked = remark.bare := by
  have hrun (run : Bool) {zone : Zone} (hzone : zone.isComment = true) (text : List Char) :
      stripRuns run (inZone zone text) = if run = true ∨ text = [] then [] else [' '] := by
    induction text generalizing run with
    | nil => simp [inZone, stripRuns]
    | cons c text ih =>
      rw [show inZone zone (c :: text) = (c, zone) :: inZone zone text from rfl, stripRuns, if_pos hzone, ih]
      cases run <;> simp
  have hblanks : ∀ m ∈ inZone .code remark.behind.1, m.2.isComment = false := by
    intro m hm
    obtain ⟨c, -, rfl⟩ := List.mem_map.mp hm
    rfl
  rw [marked, stripRuns_append, stripRuns_of_noComment hblanks, hrun _ remark.comment.isComment_zone,
    if_neg (by simp [remark.comment.body_ne_nil]), plain_inZone]
  rfl

theorem loose_bare : ∀ c ∈ remark.bare, isLoose c = true :=
  List.forall_mem_cons.mpr ⟨by decide, remark.behind.loose⟩

theorem isPart_source : IsPart remark.source where
  lexed := by
    refine isLexed_of_closed remark.closed remark.plain_marked fun m hm => ?_
    rw [marked, List.getLast?_append_of_ne_nil _ (by simpa [inZone] using remark.apart)] at hm
    obtain ⟨c, -, rfl⟩ := List.mem_map.mp (List.mem_of_getLast? hm)
    rfl
  nested := by
    have hcomment := remark.comment.isComment_of_mem
    have hnoCode : ∀ m ∈ inZone remark.comment.zone remark.comment.body, m.2 ≠ .code := by
      intro m hm hcode
      have := hcomment m hm
      rw [hcode] at this
      cases this
    rw [mark_source, marked, awaited?_append, awaited?_of_noCode hnoCode, Option.bind_some,
      awaited?_of_loose remark.behind.loose]

theorem leaves : Leaves remark.source remark.bare :=
  ⟨remark.isPart_source, by rw [stripComments, mark_source, stripRuns_marked], isPart_of_loose remark.loose_bare⟩

theorem joins (b : List Char) : Joins remark.source b := by
  rw [← plain_marked]
  exact joins_of_closed remark.closed b

theorem leaves_flatMap (remarks : List Remark) :
    Leaves (remarks.flatMap source) (remarks.flatMap bare) := by
  induction remarks with
  | nil => exact leaves_of_loose fun c hc => nomatch hc
  | cons remark remarks ih =>
    exact remark.leaves.append ih (remark.joins _) (joins_of_plain (isPlain_of_loose remark.loose_bare) _)

end Remark

namespace Filler

variable (filler : Filler)

def bare : List Char := filler.lead.1 ++ filler.remarks.flatMap Remark.bare

theorem leaves : Leaves filler.source filler.bare :=
  (leaves_of_loose filler.lead.loose).append (Remark.leaves_flatMap _)
    (joins_of_plain (isPlain_of_loose filler.lead.loose) _)
    (joins_of_plain (isPlain_of_loose filler.lead.loose) _)

theorem isBlank_of_mem_bare : ∀ c ∈ filler.bare, isBlank c = true := by
  intro c hc
  rcases List.mem_append.mp hc with hc | hc
  · exact filler.lead.2 c hc
  · obtain ⟨remark, -, hc⟩ := List.mem_flatMap.mp hc
    rcases List.mem_cons.mp hc with rfl | hc
    · decide
    · exact remark.behind.2 c hc

theorem isBlank_of_head? : ∀ c ∈ filler.source.head?, isBlank c = true := by
  intro c hc
  cases hlead : filler.lead.1 with
  | nil =>
    have hnil : filler.remarks = [] := by
      by_contra hne
      exact filler.apart hne hlead
    rw [source, hlead, hnil] at hc
    cases hc
  | cons d lead =>
    rw [source, hlead] at hc
    obtain rfl : d = c := by simpa using hc
    exact filler.lead.2 d (by rw [hlead]; exact List.mem_cons_self)

theorem stops_source : StopsAt isPairEnd filler.source := fun c hc =>
  @stopsAt_isPairEnd_of_isBlank [c] (by simpa using filler.isBlank_of_head? c hc) c rfl

theorem stops_bare : StopsAt isPairEnd filler.bare :=
  stopsAt_isPairEnd_of_isBlank filler.isBlank_of_mem_bare

end Filler

/-! ## Fields -/

namespace Designation

variable (field : Designation)

def bare : List Char :=
  field.before.bare ++ ((field.designator ++ field.value.1) ++ field.behind.bare)

theorem loose_designator : ∀ c ∈ field.designator, isLoose c = true := by
  intro c hc
  simp only [designator, List.mem_cons, List.mem_append] at hc
  rcases hc with rfl | hc | hc | rfl | hc
  · decide
  · exact isLoose_of_isWord (field.name.2.2 c hc)
  · exact isLoose_of_isBlank (field.beforeSign.2 c hc)
  · decide
  · exact isLoose_of_isBlank (field.behindSign.2 c hc)

theorem leaves : Leaves field.source field.bare := by
  have hdesignator := isPlain_of_loose field.loose_designator
  have hcore : Leaves (field.designator ++ field.value.1) (field.designator ++ field.value.1) :=
    (leaves_of_loose field.loose_designator).append (leaves_of_item field.value.2.2)
      (joins_of_plain hdesignator _) (joins_of_plain hdesignator _)
  have hrest := hcore.append field.behind.leaves (hcore.whole.lexed.joins field.behind.stops_source)
    (hcore.whole.lexed.joins field.behind.stops_bare)
  have hstop (rest : List Char) : StopsAt isPairEnd ((field.designator ++ field.value.1) ++ rest) :=
    (stopsAt_cons _ _ _).mpr (by decide)
  exact field.before.leaves.append hrest (field.before.leaves.whole.lexed.joins (hstop _))
    (field.before.leaves.part.lexed.joins (hstop _))

theorem trim_bare : trim field.bare = field.designator ++ field.value.1 := by
  rw [bare, trim_blanks_append field.before.isBlank_of_mem_bare,
    trim_append_blanks field.behind.isBlank_of_mem_bare]
  refine trim_eq_self ((stopsAt_cons _ _ _).mpr (by decide)) fun c hc => ?_
  rw [List.getLast?_append_of_ne_nil _ field.value.2.1, ← field.value.2.2.trimmed] at hc
  exact not_isBlank_of_mem_getLast?_trim c hc

theorem designatedField?_bare : designatedField? field.bare = some field.entry := by
  have htext : field.designator ++ field.value.1 = ".".toList ++ (field.name.1 ++
      ((field.beforeSign.1 ++ ("=".toList ++ (field.behindSign.1 ++ field.value.1))))) := by
    simp [designator]
  have hstop : StopsAt isWord (field.beforeSign.1 ++ ("=".toList ++ (field.behindSign.1 ++ field.value.1))) := by
    refine StopsAt.append_of_stops (fun c hc => ?_) ((stopsAt_cons _ _ _).mpr (by decide))
    exact isWord_eq_false_of_isBlank (field.beforeSign.2 c (List.mem_of_head? hc))
  have hword : word? (field.name.1 ++ (field.beforeSign.1 ++ ("=".toList ++
      (field.behindSign.1 ++ field.value.1)))) = some (field.name.1, _) :=
    someOf?_append field.name.2.2 hstop field.name.2.1
  rw [designatedField?, trim_bare, htext, text?_append]
  simp only [Option.bind_eq_bind, Option.bind_some, hword,
    text?_skipBlanks field.beforeSign.2 (by decide : "=".toList.head?.any (fun c => !isBlank c) = true)]
  rw [trim_blanks_append field.behindSign.2, field.value.2.2.trimmed]
  rfl

theorem isBlankText_bare : isBlankText field.bare = false := by
  by_contra hblank
  rw [Bool.not_eq_false] at hblank
  have hdot : '.' ∈ field.bare := by simp [bare, designator]
  exact absurd (List.all_eq_true.mp hblank '.' hdot) (by decide)

end Designation

/-! ## Lists of fields -/

theorem Leaves.intercalate {texts bares : List (List Char)} (h : List.Forall₂ Leaves texts bares) :
    stripComments (List.intercalate [','] texts) = List.intercalate [','] bares := by
  induction h with
  | nil => rfl
  | @cons text bare texts bares hpart hparts ih =>
    cases hparts with
    | nil => simpa using hpart.strip
    | @cons text' bare' texts bares hpart' hparts =>
      simp only [List.intercalate_cons_cons, List.append_assoc]
      rw [hpart.whole.lexed.stripComments_append (hpart.whole.joins_comma _),
        (isLexed_of_plain (by decide)).stripComments_append (joins_comma _), hpart.strip, ih]
      rfl

namespace FieldList

variable (list : FieldList)

def bares : List (List Char) :=
  list.fields.map Designation.bare ++ list.closing.toList.map Filler.bare

theorem leaves : List.Forall₂ Leaves list.parts list.bares := by
  refine List.rel_append ?_ ?_
  · exact List.forall₂_map_left_iff.mpr (List.forall₂_map_right_iff.mpr
      (List.forall₂_same.mpr fun field _ => field.leaves))
  · exact List.forall₂_map_left_iff.mpr (List.forall₂_map_right_iff.mpr
      (List.forall₂_same.mpr fun filler _ => filler.leaves))

theorem isPart_of_mem_parts : ∀ part ∈ list.parts, IsPart part := by
  intro part hpart
  rcases List.mem_append.mp hpart with hpart | hpart
  · obtain ⟨field, -, rfl⟩ := List.mem_map.mp hpart
    exact field.leaves.whole
  · obtain ⟨filler, -, rfl⟩ := List.mem_map.mp hpart
    exact filler.leaves.whole

theorem isPart_of_mem_bares : ∀ bare ∈ list.bares, IsPart bare := by
  intro bare hbare
  rcases List.mem_append.mp hbare with hbare | hbare
  · obtain ⟨field, -, rfl⟩ := List.mem_map.mp hbare
    exact field.leaves.part
  · obtain ⟨filler, -, rfl⟩ := List.mem_map.mp hbare
    exact filler.leaves.part

theorem dropBlankLast_bares : dropBlankLast list.bares = list.fields.map Designation.bare := by
  cases hclosing : list.closing with
  | none =>
    rw [bares, hclosing, Option.toList_none, List.map_nil, List.append_nil]
    refine dropBlankLast_of_last fun part hpart => ?_
    obtain ⟨field, -, rfl⟩ := List.mem_map.mp (List.mem_of_getLast? hpart)
    exact field.isBlankText_bare
  | some filler =>
    rw [bares, hclosing, Option.toList_some, List.map_singleton]
    exact dropBlankLast_concat _ (List.all_eq_true.mpr filler.isBlank_of_mem_bare)

theorem designatedFields_source :
    designatedFields list.source = list.fields.map Designation.entry := by
  have hsplit : splitTopLevel (List.intercalate [','] list.bares) = list.fields.map Designation.bare := by
    rw [← dropBlankLast_bares, splitTopLevel]
    by_cases hne : list.bares = []
    · rw [hne]
      rfl
    · rw [splitCommas_intercalate hne list.isPart_of_mem_bares]
  have hfields (fields : List Designation) :
      (fields.map Designation.bare).filterMap designatedField? = fields.map Designation.entry := by
    rw [List.filterMap_map, ← List.filterMap_eq_map]
    exact List.filterMap_congr fun field _ => field.designatedField?_bare
  rw [designatedFields, source, Leaves.intercalate list.leaves, hsplit, hfields]

end FieldList

end FirmwareCatalog.Header
