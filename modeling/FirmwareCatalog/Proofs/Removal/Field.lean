import FirmwareCatalog.Proofs.Character.Blank
import FirmwareCatalog.Proofs.Header.TopLevel
import FirmwareCatalog.Proofs.Removal.Delimiter
import FirmwareCatalog.Proofs.Removal.Stripped
import Mathlib.Data.List.DropRight

/-!
# Fields around a comment

An element is split at its commas after each run of comments has become one space.
A comment that touches no other is a run of its own; where it is one of several,
there are more spaces without it, and they count only in the middle of a value.
-/

namespace FirmwareCatalog.Header

open Character Text

/-! ## Parts -/

theorem exists_last_part (piece : List Marked) : ∀ depth : Int, ∃ parts last,
    splitCommas depth piece = parts ++ [last] ∧ ∀ rest,
      splitCommas depth (piece ++ rest) = parts ++ prepend last (splitCommas (depthBehind depth piece) rest) := by
  induction piece with
  | nil => exact fun _ => ⟨[], [], rfl, fun _ => rfl⟩
  | cons m piece ih =>
    intro depth
    obtain ⟨c, zone⟩ := m
    by_cases hcomma : zone = .code ∧ c = ',' ∧ depth = 0
    · obtain ⟨parts, last, hparts, hrest⟩ := ih depth
      obtain ⟨rfl, rfl, rfl⟩ := hcomma
      refine ⟨[] :: parts, last, ?_, fun rest => ?_⟩
      · rw [splitCommas, if_pos ⟨rfl, rfl, rfl⟩, hparts]
        rfl
      · rw [List.cons_append, splitCommas, if_pos ⟨rfl, rfl, rfl⟩, hrest]
        rfl
    · obtain ⟨parts, last, hparts, hrest⟩ := ih (if zone = .code then depth + nesting c else depth)
      have hcons (rest : List Marked) : splitCommas depth ((c, zone) :: rest) =
          consFirst c (splitCommas (if zone = .code then depth + nesting c else depth) rest) := if_neg hcomma
      cases parts with
      | nil =>
        refine ⟨[], c :: last, ?_, fun rest => ?_⟩
        · rw [hcons, hparts]
          rfl
        · rw [List.cons_append, hcons, hrest]
          rfl
      | cons part parts =>
        refine ⟨(c :: part) :: parts, last, ?_, fun rest => ?_⟩
        · rw [hcons, hparts]
          rfl
        · rw [List.cons_append, hcons, hrest]
          rfl

theorem splitCommas_blanks {blanks : List Char} (h : ∀ c ∈ blanks, isBlank c = true) (depth : Int)
    (rest : List Marked) :
    splitCommas depth (inZone .code blanks ++ rest) = prepend blanks (splitCommas depth rest) := by
  induction blanks with
  | nil => rfl
  | cons c blanks ih =>
    obtain ⟨hc, h⟩ := List.forall_mem_cons.mp h
    have hne (d : Char) (hd : isLoose d = false) : c ≠ d := ne_of_isLoose (isLoose_of_isBlank hc) hd
    have hnesting : nesting c = 0 := by
      simp [nesting, hne '(' (by decide), hne '\x7b' (by decide), hne '[' (by decide), hne ')' (by decide),
        hne '\x7d' (by decide), hne ']' (by decide)]
    rw [show inZone .code (c :: blanks) ++ rest = (c, .code) :: (inZone .code blanks ++ rest) from rfl,
      splitCommas, if_neg (fun h => hne ',' (by decide) h.2.1), if_pos rfl, hnesting, Int.add_zero, ih h]
    rfl

/-! ## One field -/

theorem text?_skipBlanks_append {s : String} {e : Char} (he : isBlank e = true) (hmem : e ∉ s.toList)
    (text rest : List Char) : text? s (skipBlanks (text ++ e :: rest)) =
      if isBlankText text then text? s (skipBlanks rest)
      else (text? s (skipBlanks text)).map (· ++ e :: rest) := by
  by_cases hblank : isBlankText text = true
  · have htext := List.all_eq_true.mp hblank
    rw [if_pos hblank, skipBlanks, List.dropWhile_append_of_pos htext, ← skipBlanks, skipBlanks_cons he]
  · have hne : (text.dropWhile isBlank).isEmpty = false := by
      rw [List.isEmpty_eq_false_iff, ne_eq, List.dropWhile_eq_nil_iff]
      simpa [isBlankText] using hblank
    rw [if_neg hblank, skipBlanks, List.dropWhile_append, hne]
    exact text?_before hmem _ rest

theorem exists_trimEnd (text : List Char) : ∃ blanks, text = trimEnd text ++ blanks ∧
    ∀ c ∈ blanks, isBlank c = true := by
  refine ⟨(text.reverse.takeWhile isBlank).reverse, ?_, fun c hc => ?_⟩
  · rw [trimEnd, ← List.reverse_append, List.takeWhile_append_dropWhile, List.reverse_reverse]
  · exact List.mem_takeWhile_imp (List.mem_reverse.mp hc)

def fieldOf? (text : List Char) : Option (String × String) :=
  (text? "." text).bind fun cs => (word? cs).bind fun p =>
    (text? "=" (skipBlanks p.2)).map fun cs => (String.ofList p.1, String.ofList (trim cs))

theorem fieldOf?_append {e : Char} (he : isBlank e = true) (text rest : List Char) :
    fieldOf? (text ++ e :: rest) = (text? "." text).bind fun cs => (word? cs).bind fun p =>
      if isBlankText p.2 then
        (text? "=" (skipBlanks rest)).map fun cs => (String.ofList p.1, String.ofList (trim cs))
      else (text? "=" (skipBlanks p.2)).map fun cs =>
        (String.ofList p.1, String.ofList (trim (cs ++ e :: rest))) := by
  have hdot : e ∉ ".".toList := fun h => absurd he (by rw [List.mem_singleton.mp h]; decide)
  have hsign : e ∉ "=".toList := fun h => absurd he (by rw [List.mem_singleton.mp h]; decide)
  rw [fieldOf?, text?_before hdot]
  cases text? "." text with
  | none => rfl
  | some cs =>
    rw [Option.map_some, Option.bind_some, Option.bind_some, word?_before (isWord_eq_false_of_isBlank he)]
    cases word? cs with
    | none => rfl
    | some p =>
      rw [Option.map_some, Option.bind_some, Option.bind_some, text?_skipBlanks_append he hsign]
      split
      · rfl
      · rw [Option.map_map]
        rfl

theorem text?_sign_of_blank {text : List Char} (h : isBlankText text = true) :
    text? "=" (skipBlanks text) = none := by
  rw [skipBlanks, List.dropWhile_eq_nil_iff.mpr (List.all_eq_true.mp h)]
  rfl

theorem designatedField?_eq (segment : List Char) :
    designatedField? segment = fieldOf? (trimStart segment) := by
  have htrim : designatedField? segment = fieldOf? (trim segment) := by
    simp only [designatedField?, Option.pure_def, Option.bind_eq_bind, fieldOf?, Option.map_eq_bind, Function.comp_def]
  obtain ⟨blanks, htext, hblanks⟩ := exists_trimEnd (trimStart segment)
  rw [htrim, trim]
  conv_rhs => rw [htext]
  cases blanks with
  | nil => rw [List.append_nil]
  | cons e blanks =>
    obtain ⟨he, hblanks⟩ := List.forall_mem_cons.mp hblanks
    have hrest := text?_sign_of_blank (List.all_eq_true.mpr hblanks)
    have htrimmed (cs : List Char) : trim (cs ++ e :: blanks) = trim cs :=
      trim_append_blanks (List.forall_mem_cons.mpr ⟨he, hblanks⟩) cs
    rw [fieldOf?_append he, fieldOf?]
    simp only [htrimmed, hrest, Option.map_none]
    refine Option.bind_congr fun cs _ => Option.bind_congr fun p _ => ?_
    split
    · rename_i hblank
      rw [text?_sign_of_blank hblank]
      rfl
    · rfl

theorem isBlankText_of_trim {text : List Char} (h : trim text = []) : isBlankText text = true := by
  obtain ⟨blanks, htext, hblanks⟩ := exists_trimEnd (trimStart text)
  rw [← trim, h, List.nil_append] at htext
  have hstart : trimStart text = [] := by
    cases hcs : trimStart text with
    | nil => rfl
    | cons c cs =>
      have hc := stopsAt_dropWhile isBlank text c (by rw [← trimStart, hcs]; rfl)
      rw [hblanks c (by rw [← htext, hcs]; exact List.mem_cons_self)] at hc
      cases hc
  exact List.all_eq_true.mpr (List.dropWhile_eq_nil_iff.mp hstart)

theorem designatedField?_of_blank {part : List Char} (h : isBlankText part = true) :
    designatedField? part = none := by
  rw [designatedField?_eq, trimStart, List.dropWhile_eq_nil_iff.mpr (List.all_eq_true.mp h)]
  rfl

/-- How many blanks stand between two pieces of a part counts only where they divide its value. -/
theorem designatedField?_blanks {part part' : List Char}
    (h : (∃ field ∈ designatedField? part, field.2 ≠ "") → isBlankText part' = true) {blanks : List Char}
    (hne : blanks ≠ []) (hblanks : ∀ c ∈ blanks, isBlank c = true) :
    designatedField? (part ++ (blanks ++ part')) = designatedField? (part ++ (' ' :: part')) := by
  by_cases hpart : isBlankText part = true
  · have hstart {blanks : List Char} (hblanks : ∀ c ∈ blanks, isBlank c = true) :
        trimStart (part ++ (blanks ++ part')) = trimStart part' := by
      rw [trimStart, List.dropWhile_append_of_pos (List.all_eq_true.mp hpart),
        List.dropWhile_append_of_pos hblanks, ← trimStart]
    rw [designatedField?_eq, designatedField?_eq, hstart hblanks]
    exact congrArg fieldOf? (@hstart [' '] (by decide)).symm
  · have hstart (rest : List Char) : trimStart (part ++ rest) = trimStart part ++ rest := by
      have hempty : (part.dropWhile isBlank).isEmpty = false := by
        rw [List.isEmpty_eq_false_iff, ne_eq, List.dropWhile_eq_nil_iff]
        simpa [isBlankText] using hpart
      rw [trimStart, List.dropWhile_append, hempty]
      rfl
    rw [designatedField?_eq] at h
    rw [designatedField?_eq, designatedField?_eq, hstart, hstart]
    cases blanks with
    | nil => exact absurd rfl hne
    | cons e blanks =>
      obtain ⟨he, hrest⟩ := List.forall_mem_cons.mp hblanks
      have hskip : skipBlanks (blanks ++ part') = skipBlanks part' := List.dropWhile_append_of_pos hrest
      rw [List.cons_append, fieldOf?_append he, fieldOf?_append (by decide : isBlank ' ' = true)]
      refine Option.bind_congr fun cs hcs => Option.bind_congr fun p hp => ?_
      split
      · rw [hskip]
      · refine Option.map_congr fun cs' hcs' => ?_
        have hfield : fieldOf? (trimStart part) = some (String.ofList p.1, String.ofList (trim cs')) := by
          rw [fieldOf?, hcs, Option.bind_some, hp, Option.bind_some, hcs']
          rfl
        have hblanks' : ∀ c ∈ e :: blanks, isBlank c = true := hblanks
        refine congrArg (fun text => (String.ofList p.1, String.ofList text)) ?_
        rw [← List.cons_append]
        by_cases hvalue : trim cs' = []
        · -- the value has not begun
          have hcs' := List.all_eq_true.mp (isBlankText_of_trim hvalue)
          rw [trim_blanks_append hcs', trim_blanks_append hblanks', trim_blanks_append hcs']
          exact (@trim_blanks_append [' '] (by decide) part').symm
        · have hpart' := List.all_eq_true.mp (h ⟨_, hfield, by simpa using hvalue⟩)
          rw [trim_append_blanks, trim_append_blanks]
          · exact List.forall_mem_cons.mpr ⟨by decide, hpart'⟩
          · intro c hc
            exact (List.mem_append.mp hc).elim (hblanks' c) (hpart' c)

/-! ## Two elements -/

theorem filterMap_dropBlankLast (parts : List (List Char)) :
    (dropBlankLast parts).filterMap designatedField? = parts.filterMap designatedField? := by
  induction parts with
  | nil => rfl
  | cons part parts ih =>
    cases parts with
    | nil =>
      rw [dropBlankLast]
      split
      · rename_i hblank
        rw [List.filterMap_cons, designatedField?_of_blank hblank]
      · rfl
    | cons part' parts =>
      rw [dropBlankLast, List.filterMap_cons, List.filterMap_cons, ih]
      exact List.cons_ne_nil part' parts

/-- Whether a value has begun in a piece of an element and goes on in the piece behind it. -/
def Divides (front rear : List Marked) : Prop :=
  (∃ part ∈ (splitCommas 0 front).getLast?, ∃ field ∈ designatedField? part, field.2 ≠ "") ∧
    ∃ part ∈ (splitCommas (depthBehind 0 front) rear).head?, isBlankText part = false

theorem filterMap_splitCommas {front rear : List Marked} (h : ¬ Divides front rear) {blanks : List Char}
    (hne : blanks ≠ []) (hblanks : ∀ c ∈ blanks, isBlank c = true) :
    (splitCommas 0 (front ++ (inZone .code blanks ++ rear))).filterMap designatedField? =
      (splitCommas 0 (front ++ (inZone .code [' '] ++ rear))).filterMap designatedField? := by
  obtain ⟨parts, last, hparts, hrest⟩ := exists_last_part front 0
  obtain ⟨first, others, hrear⟩ :=
    List.exists_cons_of_ne_nil (splitCommas_ne_nil (depthBehind 0 front) rear)
  have hdivides : (∃ field ∈ designatedField? last, field.2 ≠ "") → isBlankText first = true := by
    intro hvalue
    by_contra hfirst
    refine h ⟨⟨last, ?_, hvalue⟩, first, ?_, by simpa using hfirst⟩
    · rw [hparts, List.getLast?_concat]
      rfl
    · rw [hrear]
      rfl
  rw [hrest, hrest, splitCommas_blanks hblanks, splitCommas_blanks (by decide), hrear, prepend_cons,
    prepend_cons, prepend_cons, prepend_cons, List.filterMap_append, List.filterMap_append,
    List.filterMap_cons, List.filterMap_cons, designatedField?_blanks hdivides hne hblanks]
  rfl

/-! ## Comments in an element -/

theorem designatedFields_plain {inner : List Marked} (h : mark (plain inner) = inner) :
    designatedFields (plain inner) = (splitCommas 0 (bare false inner)).filterMap designatedField? := by
  rw [designatedFields, splitTopLevel, filterMap_dropBlankLast, mark_stripComments, h]

def blankFor (run : List Marked) : List Char := if run.isEmpty then [] else [' ']

theorem isBlank_of_mem_blankFor {run : List Marked} : ∀ c ∈ blankFor run, isBlank c = true := by
  unfold blankFor
  split
  · exact isBlank_of_mem_nil
  · decide

theorem bare_around {a run b : List Marked} (ha : ∀ m ∈ a.getLast?, m.2.isComment = false)
    (hrun : ∀ m ∈ run, m.2.isComment = true) (hb : ∀ m ∈ b.head?, m.2.isComment = false) :
    bare false (a ++ (run ++ b)) = bare false a ++ (inZone .code (blankFor run) ++ bare false b) := by
  have hbegun : (a.getLast?.map (·.2.isComment)).getD false = false := by
    cases hlast : a.getLast? with
    | none => rfl
    | some m => exact ha m hlast
  rw [bare_append, hbegun, bare_append, bare_of_head hb, bare_of_comment hrun, blankFor]
  cases run <;> rfl

/-- The comments that stand between two pieces, those that end the first or begin the second included, stand in
the middle of the value of a field. -/
def DividesField (front rear : List Marked) : Prop :=
  Divides (bare false (front.rdropWhile (·.2.isComment))) (bare false (rear.dropWhile (·.2.isComment)))

/-- A comment between two pieces would be one with a comment of theirs. -/
def Touches (front rear : List Marked) : Prop :=
  (∃ m ∈ front.getLast?, m.2.isComment = true) ∨ ∃ m ∈ rear.head?, m.2.isComment = true

theorem touches_of_append {x front rear y : List Marked} (h : Touches front rear) :
    Touches (x ++ front) (rear ++ y) := by
  rcases h with ⟨m, hm, hcomment⟩ | ⟨m, hm, hcomment⟩
  · exact .inl ⟨m, by rw [List.getLast?_append, Option.mem_def.mp hm]; rfl, hcomment⟩
  · exact .inr ⟨m, by rw [List.head?_append, Option.mem_def.mp hm]; rfl, hcomment⟩

theorem exists_run_behind (front : List Marked) : ∃ run, front = front.rdropWhile (·.2.isComment) ++ run ∧
    (∀ m ∈ run, m.2.isComment = true) ∧
    (∀ m ∈ (front.rdropWhile (·.2.isComment)).getLast?, m.2.isComment = false) ∧
    (run ≠ [] → ∃ m ∈ front.getLast?, m.2.isComment = true) := by
  refine ⟨front.rtakeWhile (·.2.isComment), List.rdropWhile_append_rtakeWhile.symm,
    fun m hm => List.mem_rtakeWhile_imp (p := fun m : Marked => m.2.isComment) hm, fun m hm => ?_, fun hne => ?_⟩
  · have hkept := List.ne_nil_of_mem (List.mem_of_getLast? hm)
    have hlast := List.rdropWhile_last_not _ _ hkept
    rw [← Option.some.inj (hm.symm.trans (List.getLast?_eq_some_getLast hkept))] at hlast
    simpa using hlast
  · refine ⟨_, ?_, List.mem_rtakeWhile_imp (p := fun m : Marked => m.2.isComment) (List.getLast_mem hne)⟩
    conv_lhs => rw [← List.rdropWhile_append_rtakeWhile (p := fun m : Marked => m.2.isComment) (l := front)]
    rw [List.getLast?_append_of_ne_nil _ hne, List.getLast?_eq_some_getLast hne]
    rfl

theorem exists_run_before (rear : List Marked) : ∃ run, rear = run ++ rear.dropWhile (·.2.isComment) ∧
    (∀ m ∈ run, m.2.isComment = true) ∧
    (∀ m ∈ (rear.dropWhile (·.2.isComment)).head?, m.2.isComment = false) ∧
    (run ≠ [] → ∃ m ∈ rear.head?, m.2.isComment = true) := by
  refine ⟨rear.takeWhile (·.2.isComment), List.takeWhile_append_dropWhile.symm,
    fun m hm => List.mem_takeWhile_imp (p := fun m : Marked => m.2.isComment) hm, fun m hm => ?_, fun hne => ?_⟩
  · have := List.head?_dropWhile_not (fun m : Marked => m.2.isComment) rear
    rw [Option.mem_def.mp hm] at this
    simpa using this
  · cases rear with
    | nil => exact absurd rfl hne
    | cons m rear =>
      refine ⟨m, rfl, ?_⟩
      by_contra hm
      exact hne (List.takeWhile_cons_of_neg hm)

theorem designatedFields_spaced {front gap rear : List Marked} (hne : gap ≠ [])
    (hgap : ∀ m ∈ gap, m.2.isComment = true)
    (hwritten : mark (plain (front ++ (gap ++ rear))) = front ++ (gap ++ rear))
    (hspaced : mark (plain (front ++ (CommentPlace.space ++ rear))) = front ++ (CommentPlace.space ++ rear))
    (h : Touches front rear → ¬ DividesField front rear) :
    designatedFields (plain (front ++ (CommentPlace.space ++ rear))) =
      designatedFields (plain (front ++ (gap ++ rear))) := by
  rw [designatedFields_plain hwritten, designatedFields_plain hspaced]
  unfold DividesField at h
  obtain ⟨X, hfront, hX, ha, hXlast⟩ := exists_run_behind front
  obtain ⟨Y, hrear, hY, hb, hYhead⟩ := exists_run_before rear
  generalize front.rdropWhile (·.2.isComment) = a at hfront ha h
  generalize rear.dropWhile (·.2.isComment) = b at hrear hb h
  -- the comment is one with those it touches; the space stands beside one for each run it has parted
  have hone : bare false (front ++ (gap ++ rear)) = bare false a ++ (inZone .code [' '] ++ bare false b) := by
    have hrun : ∀ m ∈ X ++ (gap ++ Y), m.2.isComment = true := by
      simpa only [List.forall_mem_append] using ⟨hX, hgap, hY⟩
    have hblank : blankFor (X ++ (gap ++ Y)) = [' '] := by simp [blankFor, hne]
    have haround := bare_around ha hrun hb
    rw [hblank] at haround
    rw [hfront, hrear, ← haround]
    simp only [List.append_assoc]
  have hmany : bare false (front ++ (CommentPlace.space ++ rear)) =
      bare false a ++ (inZone .code (blankFor X ++ ' ' :: blankFor Y) ++ bare false b) := by
    have hbehind : bare false (Y ++ b) = inZone .code (blankFor Y) ++ bare false b :=
      bare_around (a := []) (fun _ hm => nomatch hm) hY hb
    have hstart : bare false (CommentPlace.space ++ (Y ++ b)) = (' ', .code) :: bare false (Y ++ b) := rfl
    have haround := bare_around ha hX (b := CommentPlace.space ++ (Y ++ b)) fun m hm => by
      obtain rfl : (' ', Zone.code) = m := Option.some.inj hm
      rfl
    rw [hstart, hbehind] at haround
    rw [hfront, hrear, List.append_assoc, haround]
    simp [inZone]
  rw [hone, hmany]
  by_cases htouches : Touches front rear
  · refine filterMap_splitCommas (h htouches) (by simp) fun c hc => ?_
    rcases List.mem_append.mp hc with hc | hc
    · exact isBlank_of_mem_blankFor c hc
    · rcases List.mem_cons.mp hc with rfl | hc
      · rfl
      · exact isBlank_of_mem_blankFor c hc
  · obtain rfl : X = [] := by
      by_contra hne
      exact htouches (.inl (hXlast hne))
    obtain rfl : Y = [] := by
      by_contra hne
      exact htouches (.inr (hYhead hne))
    rfl

end FirmwareCatalog.Header
