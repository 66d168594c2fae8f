import FirmwareCatalog.Proofs.Header.Invocation
import FirmwareCatalog.Proofs.Header.StructArray
import FirmwareCatalog.Proofs.Removal.Delimiter
import FirmwareCatalog.Proofs.Removal.Reading

/-!
# Declarations around a comment

The head of an array ends at the first brace, and what is read up to there does
not hang on what follows. A comment in the body of an array changes neither the
array nor where its brace closes.
-/

namespace FirmwareCatalog.Header

open Character Text

/-! ## Heads end at a brace -/

theorem nameAndTail?_eq {name : List Char} (hne : name ≠ []) (hname : ∀ c ∈ name, isWord c = true)
    (cs : List Char) :
    nameAndTail? name cs = (someBlanks? cs).bind fun cs => (after? name cs).bind arrayTail? := by
  have hblank {c : Char} (hc : isBlank c = true) (cs : List Char) : after? name (c :: cs) = none := by
    cases name with
    | nil => exact absurd rfl hne
    | cons d name =>
      have hd := hname d List.mem_cons_self
      rw [after?, if_neg]
      rintro rfl
      rw [isWord_eq_false_of_isBlank hc] at hd
      cases hd
  induction cs with
  | nil => rfl
  | cons c cs ih =>
    by_cases hc : isBlank c = true
    · rw [nameAndTail?, if_pos hc, ih, someBlanks?_cons hc, Option.bind_some]
      cases cs with
      | nil => rfl
      | cons d cs =>
        by_cases hd : isBlank d = true
        · rw [someBlanks?_cons hd, Option.bind_some, skipBlanks_cons hd, hblank hd]
          cases (after? name (skipBlanks cs)).bind arrayTail? <;> rfl
        · have hstop : StopsAt isBlank (d :: cs) := (stopsAt_cons _ _ _).mpr (by simpa using hd)
          rw [show someBlanks? (d :: cs) = none from if_neg hd, skipBlanks_of_stopsAt hstop]
          rfl
    · rw [nameAndTail?, if_neg hc, show someBlanks? (c :: cs) = none from if_neg hc]
      rfl

/-- A reader of a token that leaves a brace and what follows it. -/
def PassesBrace (read : List Char → Option (List Char)) : Prop :=
  ∀ text, (∀ left ∈ read text, left <:+ text) ∧
    ∀ rest, read (text ++ '\x7b' :: rest) = (read text).map (· ++ '\x7b' :: rest)

/-- A reader that goes by a text up to its first brace, and ends with the brace. -/
def EndsAtBrace {β : Type} (read : List Char → Option (β × List Char)) : Prop :=
  ∀ text, '\x7b' ∉ text → ∃ value : Option β, ∀ rest, read (text ++ '\x7b' :: rest) = value.map (·, rest)

theorem passesBrace_text? {s : String} (hs : '\x7b' ∉ s.toList) : PassesBrace (text? s) := fun text =>
  ⟨fun _ h => ⟨_, (text?_eq_some_iff.mp h).symm⟩, text?_before hs text⟩

theorem passesBrace_after? {name : List Char} (hname : '\x7b' ∉ name) : PassesBrace (after? name) := fun text =>
  ⟨fun _ h => ⟨_, (eq_append_of_after? h).symm⟩, after?_before hname text⟩

theorem passesBrace_someBlanks? : PassesBrace someBlanks? := fun text =>
  ⟨fun left h => by
    obtain ⟨blanks, -, rfl, -⟩ := someBlanks?_eq_some h
    exact List.suffix_append _ _, someBlanks?_before (by decide) text⟩

theorem PassesBrace.skipBlanks {read : List Char → Option (List Char)} (h : PassesBrace read) :
    PassesBrace fun cs => read (Header.skipBlanks cs) := fun text =>
  ⟨fun left hleft => ((h _).1 left hleft).trans (List.dropWhile_suffix _), fun rest => by
    simp only [skipBlanks_before (show isBlank '\x7b' = false by decide), (h _).2]⟩

theorem passesBrace_optional {s : String} (hs : '\x7b' ∉ s.toList) :
    PassesBrace fun cs => some (((text? s cs).map Header.skipBlanks).getD cs) := by
  intro text
  have hskip (left : List Char) : Header.skipBlanks left <:+ left := List.dropWhile_suffix _
  refine ⟨fun left hleft => ?_, fun rest => ?_⟩
  · obtain rfl := Option.some.inj hleft
    cases htext : text? s text with
    | none => exact List.suffix_rfl
    | some left => exact (hskip left).trans ((passesBrace_text? hs text).1 left htext)
  · simp only [text?_before hs]
    cases text? s text with
    | none => rfl
    | some left => exact congrArg some (skipBlanks_before (by decide) left rest)

section
variable {β : Type} {read : List Char → Option (β × List Char)}

theorem PassesBrace.bind {token : List Char → Option (List Char)} (htoken : PassesBrace token)
    (h : EndsAtBrace read) : EndsAtBrace fun cs => (token cs).bind read := by
  intro text htext
  obtain ⟨hsuffix, hpass⟩ := htoken text
  cases hleft : token text with
  | none =>
    refine ⟨none, fun rest => ?_⟩
    simp only [hpass, hleft]
    rfl
  | some left =>
    obtain ⟨value, hvalue⟩ := h left fun hmem => htext ((hsuffix left hleft).subset hmem)
    refine ⟨value, fun rest => ?_⟩
    simp only [hpass, hleft]
    exact hvalue rest

theorem EndsAtBrace.map {γ : Type} (h : EndsAtBrace read) (f : β → γ) :
    EndsAtBrace fun cs => (read cs).map fun p => (f p.1, p.2) := by
  intro text htext
  obtain ⟨value, hvalue⟩ := h text htext
  refine ⟨value.map f, fun rest => ?_⟩
  simp only [hvalue]
  cases value <;> rfl

theorem EndsAtBrace.word {γ : Type} {read : List Char → List Char → Option (γ × List Char)}
    (h : ∀ word, EndsAtBrace (read word)) : EndsAtBrace fun cs => (word? cs).bind fun p => read p.1 p.2 := by
  intro text htext
  have hpass := word?_before (show isWord '\x7b' = false by decide) text
  cases hword : word? text with
  | none =>
    refine ⟨none, fun rest => ?_⟩
    simp only [hpass, hword]
    rfl
  | some p =>
    obtain ⟨word, left⟩ := p
    obtain ⟨rfl, -⟩ := someOf?_eq_some hword
    obtain ⟨value, hvalue⟩ := h word left fun hmem => htext (List.mem_append_right word hmem)
    refine ⟨value, fun rest => ?_⟩
    simp only [hpass, hword]
    exact hvalue rest

theorem EndsAtBrace.or {read' : List Char → Option (β × List Char)} (h : EndsAtBrace read)
    (h' : EndsAtBrace read') : EndsAtBrace fun cs => (read cs).or (read' cs) := by
  intro text htext
  obtain ⟨value, hvalue⟩ := h text htext
  obtain ⟨value', hvalue'⟩ := h' text htext
  refine ⟨value.or value', fun rest => ?_⟩
  simp only [hvalue, hvalue']
  cases value <;> rfl

theorem endsAtBrace_brace : EndsAtBrace fun cs => (text? "\x7b" (skipBlanks cs)).map ((), ·) := by
  intro text htext
  have hbefore (rest : List Char) := skipBlanks_before (show isBlank '\x7b' = false by decide) text rest
  cases hleft : skipBlanks text with
  | nil =>
    refine ⟨some (), fun rest => ?_⟩
    simp only [hbefore, hleft, show text? "\x7b" ([] ++ '\x7b' :: rest) = some rest from text?_append "\x7b" rest]
    rfl
  | cons c left =>
    have hne : '\x7b' ≠ c := by
      rintro rfl
      exact htext ((List.dropWhile_suffix _).subset (hleft ▸ List.mem_cons_self))
    refine ⟨none, fun rest => ?_⟩
    simp only [hbefore, hleft, show text? "\x7b" (c :: left ++ '\x7b' :: rest) = none from if_neg hne]
    rfl

end

theorem endsAtBrace_arrayTail? : EndsAtBrace fun cs => (arrayTail? cs).map ((), ·) := by
  have hsign := (passesBrace_text? (show '\x7b' ∉ "=".toList by decide)).bind endsAtBrace_brace
  have hqualifier := (passesBrace_optional (show '\x7b' ∉ "PROGMEM".toList by decide)).skipBlanks.bind hsign
  have hclosing := (passesBrace_text? (show '\x7b' ∉ "]".toList by decide)).skipBlanks.bind hqualifier
  have hopening := (passesBrace_text? (show '\x7b' ∉ "[".toList by decide)).skipBlanks.bind hclosing
  intro text htext
  obtain ⟨value, hvalue⟩ := hopening text htext
  refine ⟨value, fun rest => ?_⟩
  rw [← hvalue]
  simp only [arrayTail?, Option.getD_map, Option.bind_eq_bind, Option.map_bind, Function.comp_def, Option.bind_some]

theorem endsAtBrace_typeAndTail? {name : List Char} (hne : name ≠ []) (hname : ∀ c ∈ name, isWord c = true) :
    EndsAtBrace (typeAndTail? name) := by
  have hbrace : '\x7b' ∉ name := fun hmem => absurd (hname _ hmem) (by decide)
  have htail := passesBrace_someBlanks?.bind ((passesBrace_after? hbrace).bind endsAtBrace_arrayTail?)
  have hword := EndsAtBrace.word fun word => htail.map fun _ => word
  intro text htext
  obtain ⟨value, hvalue⟩ := hword text htext
  refine ⟨value, fun rest => ?_⟩
  rw [← hvalue]
  simp [typeAndTail?, nameAndTail?_eq hne hname, Option.map_eq_bind, Option.bind_assoc]

theorem endsAtBrace_arrayHead? {name : List Char} (hne : name ≠ []) (hname : ∀ c ∈ name, isWord c = true) :
    EndsAtBrace (arrayHead? name none) := by
  have htype := endsAtBrace_typeAndTail? hne hname
  have hqualified := (passesBrace_text? (show '\x7b' ∉ "PROGMEM".toList by decide)).bind
    (passesBrace_someBlanks?.bind htype)
  have hconst := (passesBrace_text? (show '\x7b' ∉ "const".toList by decide)).bind
    (passesBrace_someBlanks?.bind (hqualified.or htype))
  have hstatic := (passesBrace_text? (show '\x7b' ∉ "static".toList by decide)).bind
    (passesBrace_someBlanks?.bind hconst)
  intro text htext
  obtain ⟨value, hvalue⟩ := hstatic text htext
  refine ⟨value, fun rest => ?_⟩
  rw [← hvalue]
  simp [arrayHead?]

theorem EndsAtBrace.replace {β : Type} {read : List Char → Option (β × List Char)} (h : EndsAtBrace read)
    {taken rest : List Char} {value : β} (hbrace : '\x7b' ∈ taken)
    (hread : read (taken ++ rest) = some (value, rest)) (rest' : List Char) :
    read (taken ++ rest') = some (value, rest') := by
  obtain ⟨a, b, rfl, ha⟩ := List.eq_append_cons_of_mem hbrace
  obtain ⟨value', hvalue⟩ := h a ha
  rw [List.append_assoc, List.cons_append] at hread ⊢
  rw [hvalue] at hread ⊢
  obtain ⟨v, rfl, hv⟩ := Option.map_eq_some_iff.mp hread
  obtain ⟨rfl, hb⟩ := Prod.mk.inj hv
  obtain rfl : b = [] := by simpa using hb
  rfl

theorem isLocal_arrayHead? {name : List Char} (hne : name ≠ []) (hname : ∀ c ∈ name, isWord c = true) :
    IsLocal (arrayHead? name) where
  consumes := (readsHead_arrayHead? hname).consumes
  anywhere := fun _ _ => rfl
  replace := fun taken rest value h => by
    obtain ⟨head, htext, hhead⟩ := readsHead_arrayHead? hname h
    obtain rfl := List.append_cancel_right htext
    exact (endsAtBrace_arrayHead? hne hname).replace (List.mem_of_getLast? hhead.last) h

/-! ## Where braces close -/

theorem exists_splitClosing_of_none {opener closer : Char} (hne : opener ≠ closer) {piece : List Marked} :
    ∀ {depth : Int}, 1 ≤ depth → splitClosing opener closer depth piece = none →
      ∃ depth', 1 ≤ depth' ∧ ∀ rest, splitClosing opener closer depth (piece ++ rest) =
        (splitClosing opener closer depth' rest).map fun p => (piece ++ p.1, p.2) := by
  induction piece with
  | nil => exact fun {depth} hdepth _ => ⟨depth, hdepth, fun rest => by simp⟩
  | cons m piece ih =>
    intro depth hdepth h
    have step (d : Int) (hd : 1 ≤ d)
        (hcons : ∀ rest, splitClosing opener closer depth (m :: rest) =
          (splitClosing opener closer d rest).map fun p => (m :: p.1, p.2)) :
        ∃ depth', 1 ≤ depth' ∧ ∀ rest, splitClosing opener closer depth (m :: piece ++ rest) =
          (splitClosing opener closer depth' rest).map fun p => (m :: piece ++ p.1, p.2) := by
      rw [hcons, Option.map_eq_none_iff] at h
      obtain ⟨depth', hdepth', hrest⟩ := ih hd h
      refine ⟨depth', hdepth', fun rest => ?_⟩
      rw [List.cons_append, hcons, hrest, Option.map_map]
      rfl
    rcases bracket_cases opener closer m with rfl | rfl | hm
    · by_cases hone : depth = 1
      · rw [hone, splitClosing_closer_one] at h
        cases h
      · exact step _ (by omega) (splitClosing_closer hone)
    · exact step _ (by omega) (splitClosing_opener hne depth)
    · exact step _ hdepth (splitClosing_neutral hm depth)

/-! ## The array -/

def closedArray? (marked : List Marked) (m : Match (List Char)) : Option StructArray :=
  (bracketed? '\x7b' '\x7d' marked (m.stop - 1)).map fun p => ⟨m.value, plain p.1⟩

theorem structArray?_eq_codeMatches (name text : List Char) : structArray? name text =
    (codeMatches (mark text) (scan (arrayHead? name) text)).findSome? (closedArray? (mark text)) := by
  rw [structArray?_eq_findSome?, codeMatches]
  induction scan (arrayHead? name) text with
  | nil => rfl
  | cons m found ih =>
    rw [List.findSome?_cons, ih, arrayAt?, List.filter_cons]
    by_cases hcode : zoneAt? (mark text) m.start = some .code
    · rw [if_pos hcode, if_pos (by simpa using hcode), List.findSome?_cons]
      rfl
    · rw [if_neg hcode, if_neg (by simpa using hcode)]

theorem findSome?_congr {α β : Type} {f g : α → Option β} {items : List α}
    (h : ∀ item ∈ items, f item = g item) : items.findSome? f = items.findSome? g := by
  induction items with
  | nil => rfl
  | cons item items ih =>
    obtain ⟨hitem, h⟩ := List.forall_mem_cons.mp h
    rw [List.findSome?_cons, List.findSome?_cons, hitem, ih h]

theorem findSome?_rel {α β γ : Type} {R : β → γ → Prop} {f : α → Option β} {g : α → Option γ}
    {items : List α} (h : ∀ item ∈ items, Option.Rel R (f item) (g item)) {b : Option β} {c : Option γ}
    (hrest : Option.Rel R b c) :
    Option.Rel R ((items.findSome? f).or b) ((items.findSome? g).or c) := by
  induction items with
  | nil => exact hrest
  | cons item items ih =>
    obtain ⟨hitem, h⟩ := List.forall_mem_cons.mp h
    rw [List.findSome?_cons, List.findSome?_cons]
    cases hf : f item <;> cases hg : g item <;> rw [hf, hg] at hitem
    · exact ih h
    · cases hitem
    · cases hitem
    · exact hitem

namespace CommentPlace

variable (place : CommentPlace) (name : List Char)

/-- The comment stands in the body of an array, which `a` begins and `b` ends. -/
structure StandsIn (a b : List Marked) : Prop where
  front : ∃ x head elementType, place.front = x ++ (inZone .code head ++ a) ∧
    arrayHead? name none (head ++ plain a) = some (elementType, plain a)
  unclosed : splitClosing '\x7b' '\x7d' 1 a = none
  rear : ∃ rest, place.rear = b ++ ('\x7d', .code) :: rest

/-- An array as it is read with the comment and without it: the comment stands outside the body, or in it. -/
inductive SameArray : StructArray → StructArray → Prop where
  | outside (array : StructArray) : SameArray array array
  | inside (elementType : List Char) {a b : List Marked} (stands : place.StandsIn name a b) :
      SameArray ⟨elementType, plain (a ++ (place.gap ++ b))⟩ ⟨elementType, plain (a ++ (space ++ b))⟩

variable {place name}

theorem closedArray?_rear {front : List Marked} {m : Match (List Char)} (hne : m.text ≠ []) :
    closedArray? (front ++ place.rear) (m.shift front.length) = closedArray? place.rear m := by
  have hpos := List.length_pos_iff.mpr hne
  have hstop : (m.shift front.length).stop - 1 = front.length + (m.stop - 1) := by
    simp only [Match.stop, Match.shift]
    omega
  rw [closedArray?, closedArray?, bracketed?_append hstop]
  rfl

theorem balanced_gap {opener closer : Char} : Balanced opener closer place.gap :=
  balanced_of_neutral fun m hm hcode => absurd hcode (place.noCode_gap m hm)

theorem balanced_space {opener closer : Char} (hopener : opener ≠ ' ') (hcloser : closer ≠ ' ') :
    Balanced opener closer space := by
  refine balanced_of_neutral fun m hm _ => ?_
  rw [List.mem_singleton.mp hm]
  exact ⟨hcloser.symm, hopener.symm⟩

section
variable (hname : ∀ c ∈ name, isWord c = true)
include hname

theorem exists_head_of_isIn {m : Match (List Char)} (hm : m.IsIn (arrayHead? name) place.before)
    (hcode : zoneAt? place.front m.start = some .code) :
    ∃ x a, place.front = x ++ (inZone .code m.text ++ a) ∧ m.start = x.length ∧
      IsHead isHeadChar 's' '\x7b' m.text ∧ arrayHead? name none (m.text ++ plain a) = some (m.value, plain a) := by
  obtain ⟨-, ⟨before, left, hbefore, hstart⟩, hreads⟩ := hm
  obtain ⟨head, htext, hhead⟩ := readsHead_arrayHead? hname (hreads [])
  obtain rfl : m.text = head := List.append_cancel_right htext
  have hplain : plain place.front = before ++ (m.text ++ left) := by rw [plain_front, hbefore]
  obtain ⟨x, y, hfront, hx, hy⟩ := exists_append_of_plain hplain
  obtain ⟨head, a, rfl, hheadPlain, ha⟩ := exists_append_of_plain hy
  have hlength : m.start = x.length := by rw [hstart, ← hx, length_plain]
  have hheadCode : ∃ c y', (head ++ a) ++ (place.gap ++ place.rear) = (c, Zone.code) :: y' := by
    rw [hfront, zoneAt?_append hlength] at hcode
    cases hsplit : head ++ a with
    | nil =>
      rw [hsplit] at hcode
      cases hcode
    | cons m' y =>
      obtain ⟨c, zone⟩ := m'
      rw [hsplit] at hcode
      obtain rfl : zone = .code := by simpa using hcode
      exact ⟨c, _, rfl⟩
  have hmark : mark place.written = x ++ ((head ++ a) ++ (place.gap ++ place.rear)) := by
    rw [mark_written, hfront, List.append_assoc]
  have hzone := hhead.eq_inZone (r := plain a ++ plain (place.gap ++ place.rear)) hmark hheadCode (by
    rw [plain_append, plain_append, hheadPlain, List.append_assoc])
  rw [List.append_assoc] at hzone
  obtain ⟨rfl, -⟩ := List.append_inj hzone (by rw [inZone, List.length_map, ← hheadPlain, length_plain])
  exact ⟨x, a, hfront, hlength, hhead, hreads _⟩

theorem closedArray?_front {m : Match (List Char)} (hm : m.IsIn (arrayHead? name) place.before)
    (hcode : zoneAt? place.front m.start = some .code) :
    Option.Rel (place.SameArray name) (closedArray? (mark place.written) m)
      (closedArray? (mark place.spaced) m) := by
  obtain ⟨x, a, hfront, hstart, hhead, hreads⟩ := exists_head_of_isIn hname hm hcode
  have hbracket (rest : List Marked) : closedArray? (place.front ++ rest) m =
      (splitClosing '\x7b' '\x7d' 1 (a ++ rest)).map fun p => ⟨m.value, plain p.1⟩ := by
    rw [closedArray?, hfront, List.append_assoc, List.append_assoc, bracketed?_head hhead (by
      rw [Match.stop, hstart])]
  rw [mark_written, mark_spaced, hbracket, hbracket]
  cases hclosing : splitClosing '\x7b' '\x7d' 1 a with
  | some p =>
    obtain ⟨body, rest⟩ := p
    rw [splitClosing_append (by decide) hclosing, splitClosing_append (by decide) hclosing]
    exact .some (.outside _)
  | none =>
    obtain ⟨depth, hdepth, hopen⟩ := exists_splitClosing_of_none (by decide) (by decide) hclosing
    rw [hopen, hopen, balanced_gap depth hdepth, balanced_space (by decide) (by decide) depth hdepth]
    cases hrear : splitClosing '\x7b' '\x7d' depth place.rear with
    | none => exact .none
    | some p =>
      obtain ⟨b, rest⟩ := p
      exact .some (.inside _ ⟨⟨x, m.text, m.value, hfront, hreads⟩, hclosing, rest,
        eq_append_of_splitClosing (by decide) hrear⟩)

/-- The array is found with the comment and without it. -/
theorem structArray?_spaced (hne : name ≠ []) (h : place.Apart (arrayHead? name)) :
    Option.Rel (place.SameArray name) (structArray? name place.written) (structArray? name place.spaced) := by
  have hread := isLocal_arrayHead? hne hname
  have hblank (rest : List Char) : arrayHead? name none (' ' :: rest) = none := rfl
  obtain ⟨found, hfound, hwritten, hspaced⟩ := codeMatches_spaced hread hblank h
  have hrest (front : List Marked) : ((codeMatches place.rear (scan (arrayHead? name) place.after)).map
      (Match.shift front.length)).findSome? (closedArray? (front ++ place.rear)) =
      structArray? name place.after := by
    rw [structArray?_eq_codeMatches, List.findSome?_map]
    refine findSome?_congr fun m hm => closedArray?_rear ?_
    obtain ⟨x, rest, -, -, hvalue⟩ := exists_of_mem_scanFrom hread.consumes (List.mem_filter.mp hm).1
    obtain ⟨taken, htaken, htext⟩ := hread.consumes hvalue
    rwa [List.append_cancel_right htext]
  have hsame : Option.Rel (place.SameArray name) (structArray? name place.after)
      (structArray? name place.after) := by
    cases structArray? name place.after with
    | none => exact .none
    | some array => exact .some (.outside array)
  have hfront := findSome?_rel (fun m hm => closedArray?_front hname (hfound m hm).1 (hfound m hm).2) hsame
  rw [structArray?_eq_codeMatches, structArray?_eq_codeMatches, hwritten, hspaced, List.findSome?_append,
    List.findSome?_append]
  rw [mark_written, mark_spaced, ← List.append_assoc, ← List.append_assoc] at hfront ⊢
  rwa [hrest, hrest]

end

end CommentPlace

end FirmwareCatalog.Header
