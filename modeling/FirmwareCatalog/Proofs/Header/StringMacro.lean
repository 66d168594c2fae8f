import FirmwareCatalog.Header.StringMacro
import FirmwareCatalog.Proofs.Header.Literal

/-!
# Cutting out string macros

A definition that stands in code, with no line end inside its strings, is a
piece that reads the same wherever it is put. Where nothing in code reads as a
definition, nothing does in front of another text.
-/

namespace FirmwareCatalog.Header

open Character

/-! ## Heads of definitions -/

def isMacroHeadChar (c : Char) : Bool := isWord c || isBlank c || ['[', ']', '='].contains c

theorem isHeadChar_of_isMacroHeadChar {c : Char} (h : isMacroHeadChar c = true) :
    isHeadChar c = true := by
  simp only [isMacroHeadChar, isHeadChar, Bool.or_eq_true, List.contains_cons, beq_iff_eq] at h ⊢
  tauto

theorem isMacroHeadChar_of_isWord {c : Char} (h : isWord c = true) : isMacroHeadChar c = true := by
  simp [isMacroHeadChar, h]

theorem isMacroHeadChar_of_isBlank {c : Char} (h : isBlank c = true) : isMacroHeadChar c = true := by
  simp [isMacroHeadChar, h]

def macroHead? (cs : List Char) : Option (List Char × List Char) := do
  let cs ← text? "static" cs
  let cs ← someBlanks? cs
  let cs ← text? "const" cs
  let cs ← someBlanks? cs
  let cs ← text? "char" cs
  let cs ← someBlanks? cs
  let cs ← text? "PSTR_" cs
  let (word, cs) ← word? cs
  let cs ← text? "[" (skipBlanks cs)
  let cs ← text? "]" (skipBlanks cs)
  let cs ← text? "PROGMEM" (skipBlanks cs)
  let cs ← text? "=" (skipBlanks cs)
  return (word, skipBlanks cs)

theorem macroDefinition?_eq (before : Option Char) (cs : List Char) : macroDefinition? before cs =
    (macroHead? cs).bind fun (word, cs) => (text? ";" (literals cs).2).bind fun rest =>
      if (literals cs).1.isEmpty then none else some (("PSTR_".toList ++ word, (literals cs).1),
        rest) := by
  unfold macroDefinition? macroHead?
  simp only [Option.bind_eq_bind, Option.bind_assoc, Option.pure_def, Option.bind_some]

section
variable {b₁ b₂ b₃ word b₄ b₅ b₆ b₇ b₈ rest : List Char}

theorem macroHead?_append (hb₁ : ∀ c ∈ b₁, isBlank c = true) (hne₁ : b₁ ≠ [])
    (hb₂ : ∀ c ∈ b₂, isBlank c = true) (hne₂ : b₂ ≠ [])
    (hb₃ : ∀ c ∈ b₃, isBlank c = true) (hne₃ : b₃ ≠ [])
    (hword : ∀ rest, word? (word ++ ((b₄ ++ "[".toList) ++ rest)) = some (word, (b₄ ++ "[".toList) ++ rest))
    (hb₄ : ∀ c ∈ b₄, isBlank c = true) (hb₅ : ∀ c ∈ b₅, isBlank c = true)
    (hb₆ : ∀ c ∈ b₆, isBlank c = true) (hb₇ : ∀ c ∈ b₇, isBlank c = true)
    (hb₈ : ∀ c ∈ b₈, isBlank c = true) (hrest : StopsAt isBlank rest) :
    macroHead? (("static".toList ++
      (b₁ ++ ("const".toList ++ (b₂ ++ ("char".toList ++ (b₃ ++ ("PSTR_".toList ++ (word ++ (b₄ ++
      ("[".toList ++ (b₅ ++ ("]".toList ++ (b₆ ++ ("PROGMEM".toList ++ (b₇ ++ ("=".toList ++ b₈))))))))))))))))
      ++ rest) = some (word, rest) := by
  simp only [List.append_assoc] at hword
  unfold macroHead?
  simp only [List.append_assoc, Option.bind_eq_bind, Option.pure_def, text?_append, Option.bind_some]
  rw [someBlanks?_text hb₁ (by decide) _ hne₁]
  simp only [text?_append, Option.bind_some]
  rw [someBlanks?_text hb₂ (by decide) _ hne₂]
  simp only [text?_append, Option.bind_some]
  rw [someBlanks?_text hb₃ (by decide) _ hne₃]
  simp only [text?_append, Option.bind_some]
  rw [hword]
  simp only [Option.bind_some]
  rw [text?_skipBlanks hb₄ (by decide), Option.bind_some, text?_skipBlanks hb₅ (by decide), Option.bind_some,
    text?_skipBlanks hb₆ (by decide), Option.bind_some, text?_skipBlanks hb₇ (by decide), Option.bind_some,
    skipBlanks_append hb₈ hrest]

end

theorem exists_head_of_macroHead? {cs word rest : List Char} (h : macroHead? cs = some (word, rest)) :
    ∃ head, cs = head ++ rest ∧ head.head? = some 's' ∧ (∀ c ∈ head, isMacroHeadChar c = true) ∧
      StopsAt isBlank rest ∧
      ∀ rest', StopsAt isBlank rest' → macroHead? (head ++ rest') = some (word, rest') := by
  unfold macroHead? at h
  simp only [Option.bind_eq_bind, Option.bind_eq_some_iff, Option.pure_def, Option.some.injEq,
    Prod.mk.injEq, Prod.exists,
    text?_eq_some_iff] at h
  obtain ⟨_, rfl, _, h₁, _, rfl, _, h₂, _, rfl, _, h₃, _, rfl, w, cs₀, h₄, cs₁, h₅, cs₂, h₆, cs₃,
    h₇, cs₄, h₈, rfl, rfl⟩ := h
  obtain ⟨b₁, hne₁, rfl, hb₁, -⟩ := someBlanks?_eq_some h₁
  obtain ⟨b₂, hne₂, rfl, hb₂, -⟩ := someBlanks?_eq_some h₂
  obtain ⟨b₃, hne₃, rfl, hb₃, -⟩ := someBlanks?_eq_some h₃
  obtain ⟨rfl, hwne, hw, hwstop⟩ := someOf?_eq_some h₄
  obtain ⟨b₄, hc₄, hb₄, -⟩ := exists_skipBlanks cs₀
  obtain ⟨b₅, hc₅, hb₅, -⟩ := exists_skipBlanks cs₁
  obtain ⟨b₆, hc₆, hb₆, -⟩ := exists_skipBlanks cs₂
  obtain ⟨b₇, hc₇, hb₇, -⟩ := exists_skipBlanks cs₃
  obtain ⟨b₈, hc₈, hb₈, hstop⟩ := exists_skipBlanks cs₄
  rw [h₅] at hc₄
  rw [h₆] at hc₅
  rw [h₇] at hc₆
  rw [h₈] at hc₇
  rw [hc₄] at hwstop
  -- the head token by token, each with the blanks that were read behind it
  refine ⟨"static".toList ++
    (b₁ ++ ("const".toList ++ (b₂ ++ ("char".toList ++ (b₃ ++ ("PSTR_".toList ++ (w ++ (b₄ ++
    ("[".toList ++
      (b₅ ++ ("]".toList ++ (b₆ ++ ("PROGMEM".toList ++ (b₇ ++ ("=".toList ++ b₈))))))))))))))),
    ?_, ?_, ?_, hstop, fun rest' hrest' => ?_⟩
  · rw [hc₄, hc₅, hc₆, hc₇]
    simp only [List.append_assoc]
    rw [← hc₈]
  · rfl
  · simp only [List.mem_append, or_imp, forall_and]
    have hfixed (s : String) (hs : s.toList.all isMacroHeadChar = true) :
        ∀ c ∈ s.toList, isMacroHeadChar c = true :=
      List.all_eq_true.mp hs
    have hgap {b : List Char} (hb : ∀ c ∈ b, isBlank c = true) : ∀ c ∈ b, isMacroHeadChar c = true :=
      fun c hc => isMacroHeadChar_of_isBlank (hb c hc)
    exact ⟨hfixed _ (by decide), hgap hb₁, hfixed _ (by decide), hgap hb₂,
      hfixed _ (by decide),
      hgap hb₃, hfixed _ (by decide), fun c hc => isMacroHeadChar_of_isWord (hw c hc),
        hgap hb₄,
      hfixed _ (by decide), hgap hb₅, hfixed _ (by decide), hgap hb₆,
        hfixed _ (by decide),
      hgap hb₇, hfixed _ (by decide), hgap hb₈⟩
  · have hstop₄ : StopsAt isWord ((b₄ ++ "[".toList) ++ cs₁) := by simpa using hwstop
    have hword := word?_append hw hwne hstop₄ (by simp)
    exact macroHead?_append hb₁ hne₁ hb₂ hne₂ hb₃ hne₃ hword hb₄ hb₅ hb₆ hb₇ hb₈ hrest'

/-! ## Definitions -/

theorem macroDefinition?_eq_some {before : Option Char} {text name rest : List Char}
    {bodies : List (List Char)}
    (h : macroDefinition? before text = some ((name, bodies), rest)) :
    ∃ word cs, macroHead? text = some (word, cs) ∧ name = "PSTR_".toList ++ word ∧ literals cs =
      (bodies, ';' :: rest) ∧
      bodies ≠ [] := by
  rw [macroDefinition?_eq] at h
  obtain ⟨⟨word, cs⟩, hhead, h⟩ := Option.bind_eq_some_iff.mp h
  obtain ⟨rest', hsemicolon, h⟩ := Option.bind_eq_some_iff.mp h
  split at h
  · cases h
  · rename_i hne
    cases h
    refine ⟨word, cs, hhead, rfl, Prod.ext rfl (text?_eq_some_iff.mp hsemicolon), by simpa using hne⟩

theorem macroDefinition?_of_literals {text word cs rest : List Char} {bodies : List (List Char)}
    (before : Option Char)
    (hhead : macroHead? text = some (word, cs)) (hliterals : literals cs = (bodies, ';' :: rest))
    (hne : bodies ≠ []) :
    macroDefinition? before text = some (("PSTR_".toList ++ word, bodies), rest) := by
  have hsemicolon : text? ";" (';' :: rest) = some rest := text?_append ";" rest
  rw [macroDefinition?_eq, hhead, Option.bind_some]
  simp only [hliterals, hsemicolon, Option.bind_some]
  rw [if_neg (by simpa using hne)]

/-- A piece that is read as a definition wherever it is put. -/
structure Defines (piece : List Marked) (name : List Char) (bodies : List (List Char)) : Prop where
  closed : Closed piece
  head : ∃ tail, piece = ('s', .code) :: tail
  last : piece.getLast? = some (';', .code)
  code : ∀ m ∈ piece, m.2 = .code → m.1 = ';' ∨ isMacroHeadChar m.1 = true
  reads : ∀ before rest, macroDefinition? before (plain piece ++ rest) = some ((name, bodies), rest)

theorem exists_defines_of_mark {e : Char} (he : isMacroHeadChar e = false) (hsemicolon : e ≠ ';')
    {before : Option Char}
    {text name rest : List Char} {bodies : List (List Char)} {piece behind : List Marked}
    (h : macroDefinition? before text = some ((name, bodies), rest))
    (hmark : mark text = piece ++ behind)
    (hlines : StringsOnLines piece) (hstops : StopsWith e piece behind) :
    ∃ taken piece', piece = taken ++ piece' ∧ text = plain taken ++ rest ∧
      Defines taken name bodies := by
  obtain ⟨word, cs, hhead, rfl, hliterals, hne⟩ := macroDefinition?_eq_some h
  obtain ⟨head, rfl, hfirst, hchars, hstop, hreads⟩ := exists_head_of_macroHead? hhead
  have hnotHead : e ∉ head := fun hmem => by
    rw [hchars e hmem] at he
    cases he
  have hnotBlank : isBlank e = false := by
    by_contra hblank
    rw [isMacroHeadChar_of_isBlank (by simpa using hblank)] at he
    cases he
  have hplain :=
    mark_append_of_plain
    (fun c hc => isPlain_of_isHeadChar (isHeadChar_of_isMacroHeadChar (hchars c hc))) cs
  rw [hplain] at hmark
  obtain ⟨piece₁, rfl, hmark₁, hstops₁⟩ := hstops.split (notMem_inZone hnotHead) hmark.symm
  obtain ⟨taken, piece₂, rfl, hmark₂, hstops₂, htaken⟩ :=
    exists_literals_of_mark hnotBlank cs hmark₁.symm hlines.right hstops₁
  rw [hliterals] at hmark₂ htaken
  have hlast : piece₂ ++ behind = [(';', .code)] ++ mark rest := hmark₂
  obtain ⟨piece', rfl, hmark', -⟩ := hstops₂.split (by simpa using hsemicolon) hlast
  have hrest : plain piece' ++ plain behind = rest := by rw [← plain_append, hmark', plain_mark]
  have hcs : plain taken ++ ';' :: rest = cs := by
    have := congrArg plain hmark₁
    simpa [hrest] using this
  -- the blanks behind the equals sign end at the literals, whatever stands behind the semicolon
  have hstopLine (rest' : List Char) : StopsAt isBlank (plain taken ++ ';' :: rest') := by
    rw [← hcs] at hstop
    rw [← List.singleton_append, ← List.append_assoc] at hstop ⊢
    exact hstop.replace (by simp) rest'
  refine ⟨inZone .code head ++ (taken ++ [(';', .code)]), piece', by simp, by simp [← hcs], ?_,
    ?_, ?_, ?_, ?_⟩
  · have hend : mark (head ++ cs) = (inZone .code head ++ taken) ++ (';', .code) :: mark rest := by
      rw [hplain, ← hmark₁, ← hmark']
      simp
    have hclosed := closed_of_mark (by decide) (by decide) hend
    rwa [List.append_assoc] at hclosed
  · cases head with
    | nil => cases hfirst
    | cons c head =>
      obtain rfl : c = 's' := by simpa using hfirst
      exact ⟨_, rfl⟩
  · simp
  · intro m hm hzone
    rcases List.mem_append.mp hm with hm | hm
    · obtain ⟨c, hc, rfl⟩ := List.mem_map.mp hm
      exact .inr (hchars c hc)
    · rcases List.mem_append.mp hm with hm | hm
      · exact .inr (isMacroHeadChar_of_isBlank (htaken.code m hm hzone))
      · exact .inl (by rw [List.mem_singleton.mp hm])
  · intro before' rest'
    have htext : plain (inZone .code head ++ (taken ++ [(';', .code)])) ++ rest' =
        head ++ (plain taken ++ ';' :: rest') := by simp
    rw [htext]
    exact macroDefinition?_of_literals before' (hreads _ (hstopLine rest')) (htaken.reads rest') hne

/-! ## Texts without definitions -/

theorem macroDefinition?_head {before : Option Char} {c : Char} {text : List Char}
    (h : macroDefinition? before (c :: text) ≠ none) : c = 's' := by
  obtain ⟨⟨⟨name, bodies⟩, rest⟩, hread⟩ := Option.ne_none_iff_exists'.mp h
  obtain ⟨word, cs, hhead, -⟩ := macroDefinition?_eq_some hread
  obtain ⟨head, htext, hfirst, -⟩ := exists_head_of_macroHead? hhead
  have := congrArg List.head? htext
  rw [List.head?_append, hfirst] at this
  simpa using this

/-- A definition has a quote before any fence. -/
theorem macroDefinition?_eq_none {a b : List Char} {c : Char} (ha : '"' ∉ a)
    (hc : isMacroHeadChar c = false) (hquote : c ≠ '"')
    (before : Option Char) : macroDefinition? before (a ++ c :: b) = none := by
  by_contra hsome
  obtain ⟨⟨⟨name, bodies⟩, rest⟩, hread⟩ := Option.ne_none_iff_exists'.mp hsome
  obtain ⟨word, cs, hhead, -, hliterals, hne⟩ := macroDefinition?_eq_some hread
  obtain ⟨head, htext, -, hchars, -⟩ := exists_head_of_macroHead? hhead
  have hopen : ∃ cs', cs = '"' :: cs' := by
    by_contra hno
    rw [literals_of_ne fun rest hrest => hno ⟨rest, hrest⟩] at hliterals
    cases hliterals
    exact hne rfl
  obtain ⟨cs', rfl⟩ := hopen
  rcases List.append_eq_append_iff.mp htext with ⟨u, rfl, hu⟩ | ⟨u, rfl, hu⟩
  · cases u with
    | nil => exact hquote (List.cons.inj hu).1
    | cons d u =>
      have := hchars c (by rw [(List.cons.inj hu).1]; simp)
      rw [hc] at this
      cases this
  · cases u with
    | nil => exact hquote (List.cons.inj hu).1.symm
    | cons d u => exact ha (by rw [(List.cons.inj hu).1]; simp)

theorem quiet_of_first {text : List Char} (h : 's' ∉ text) : Quiet macroDefinition? text := by
  intro x c y htext before rest
  by_contra hsome
  exact h (by rw [← macroDefinition?_head hsome, htext]; simp)

theorem quiet_of_fence {a tail : List Char} {c : Char} (ha : '"' ∉ a)
    (hc : isMacroHeadChar c = false) (hquote : c ≠ '"')
    (htail : 's' ∉ tail) : Quiet macroDefinition? (a ++ c :: tail) := by
  intro x d y hsplit before rest
  rcases List.append_eq_append_iff.mp hsplit with ⟨u, rfl, hu⟩ | ⟨u, rfl, hu⟩
  · cases u with
    | nil =>
      rw [← show c :: tail = d :: y from hu]
      exact macroDefinition?_eq_none (a := []) List.not_mem_nil hc hquote before
    | cons _ u =>
      by_contra hsome
      exact htail (by rw [(List.cons.inj hu).2, ← macroDefinition?_head hsome]; simp)
  · rw [hu, List.append_assoc]
    exact macroDefinition?_eq_none (fun hmem => ha (List.mem_append_right x hmem)) hc hquote before

theorem unread_macroDefinition? {e : Char} (he : isMacroHeadChar e = false) (hsemicolon : e ≠ ';')
    {piece : List Marked}
    (hclosed : Closed piece) (hlast : piece.getLast? = some (e, .code)) (hlines : StringsOnLines piece)
    (h : ∀ x c y, piece = x ++ (c, .code) :: y → macroDefinition? none (c :: plain y) = none) :
    Unread macroDefinition? piece := by
  intro x c y hpiece before rest
  by_contra hsome
  obtain ⟨⟨⟨name, bodies⟩, rest'⟩, hread⟩ := Option.ne_none_iff_exists'.mp hsome
  have hmark : mark (plain piece ++ rest) = x ++ ((c, .code) :: y ++ mark rest) := by
    rw [hclosed rest, hpiece, List.append_assoc]
  have hrestart : mark (c :: plain y ++ rest) = (c, .code) :: y ++ mark rest := by
    have := eq_mark_of_code hmark (by rw [List.cons_append])
    rw [this]
    simp
  have hstops : StopsWith e ((c, .code) :: y) (mark rest) := by
    refine .inr ?_
    rw [hpiece, List.getLast?_append_of_ne_nil _ (List.cons_ne_nil _ _)] at hlast
    exact hlast
  obtain ⟨taken, y', hy, -, hdefines⟩ :=
    exists_defines_of_mark he hsemicolon hread hrestart (hpiece ▸ hlines).right hstops
  have htaken : c :: plain y = plain taken ++ plain y' := by rw [← plain_append, ← hy, plain_cons]
  have hnone := h x c y hpiece
  rw [htaken, hdefines.reads] at hnone
  cases hnone

/-! ## The definitions of a text -/

def definitionsAlong (before : Option Char) (marked : List Marked) :
    List ((List Char × List (List Char)) × List Char) :=
  ((scanFrom macroDefinition? 0 before 0 (plain marked)).filter fun m => zoneAt? marked m.start =
    some .code).map fun m =>
    (m.value, m.text)

def macroEntry (definition : (List Char × List (List Char)) × List Char) : String × StringMacro :=
  (String.ofList definition.1.1, ⟨String.ofList (joinLiterals definition.1.2),
    some (String.ofList definition.2)⟩)

theorem stringMacros_eq (text : List Char) :
    stringMacros text = Table.ofList ((definitionsAlong none (mark text)).map macroEntry) := by
  rw [definitionsAlong, plain_mark, List.map_map]
  rfl

theorem consumes_macroDefinition? : Consumes macroDefinition? := by
  intro before text value rest h
  obtain ⟨name, bodies⟩ := value
  obtain ⟨word, cs, hhead, -, hliterals, -⟩ := macroDefinition?_eq_some h
  obtain ⟨head, rfl, hfirst, -⟩ := exists_head_of_macroHead? hhead
  obtain ⟨front, hcs⟩ := literals_suffix cs
  rw [hliterals] at hcs
  refine ⟨head ++ (front ++ [';']), ?_, by simp [← hcs]⟩
  rintro hnil
  rw [List.append_eq_nil_iff.mp hnil |>.1] at hfirst
  cases hfirst

theorem exists_defines_of_mem {text : List Char} (hlines : StringsOnLines (mark text))
    {definition : (List Char × List (List Char)) × List Char}
    (h : definition ∈ definitionsAlong none (mark text)) :
    ∃ piece, Defines piece definition.1.1 definition.1.2 ∧ plain piece = definition.2 := by
  rw [definitionsAlong, plain_mark] at h
  obtain ⟨m, hm, rfl⟩ := List.mem_map.mp h
  obtain ⟨hm, hcode⟩ := List.mem_filter.mp hm
  obtain ⟨a, b, htext, hstart, hread⟩ := exists_of_mem_scanFrom consumes_macroDefinition? hm
  rw [Nat.zero_add] at hstart
  obtain ⟨x, y, hmark, -, hy, c, y', hy'⟩ := exists_cut_of_zoneAt? htext hstart (by simpa using hcode)
  have hrestart : mark (m.text ++ b) = y ++ [] := by rw [← hy, ← eq_mark_of_code hmark hy',
    List.append_nil]
  rw [hmark] at hlines
  obtain ⟨piece, y'', -, hplain, hdefines⟩ := exists_defines_of_mark (e := '\x7d')
    (by decide) (by decide)
    hread hrestart hlines.right (.inl rfl)
  exact ⟨piece, hdefines, (List.append_cancel_right hplain).symm⟩

section
variable {before : Option Char} {piece rest : List Marked}

theorem zoneAt?_add (a b : List Marked) (n : Nat) : zoneAt? (a ++ b) (a.length + n) = zoneAt? b n := by
  rw [zoneAt?, zoneAt?, List.getElem?_append_right (Nat.le_add_right _ _), Nat.add_sub_cancel_left]

theorem definitionsAlong_behind :
    ((scanFrom macroDefinition? (0 + (plain piece).length) (behind before (plain piece)) 0
      (plain rest)).filter fun m => zoneAt? (piece ++ rest) m.start = some .code).map
      (fun m => (m.value, m.text)) =
    definitionsAlong (behind before (plain piece)) rest := by
  have hshift :=
    @scanFrom_shift _ macroDefinition? (plain piece).length (plain rest) 0
    (behind before (plain piece)) 0
  rw [Nat.zero_add]
  rw [Nat.add_zero] at hshift
  rw [hshift, List.filter_map, List.map_map, definitionsAlong, length_plain]
  simp only [Function.comp_def, Match.shift, zoneAt?_add]

theorem definitionsAlong_of_quiet (h : Quiet macroDefinition? (plain piece)) :
    definitionsAlong before (piece ++ rest) = definitionsAlong (behind before (plain piece)) rest := by
  rw [definitionsAlong, plain_append, h.scanFrom]
  exact definitionsAlong_behind

theorem Defines.definitionsAlong {name : List Char} {bodies : List (List Char)}
    (h : Defines piece name bodies) :
    definitionsAlong before (piece ++ rest) =
      ((name, bodies), plain piece) :: Header.definitionsAlong (behind before (plain piece)) rest := by
  obtain ⟨tail, htail⟩ := h.head
  have hne : plain piece ≠ [] := by rw [htail, plain_cons]; exact List.cons_ne_nil _ _
  have hcode : zoneAt? (piece ++ rest) 0 = some .code := by rw [htail]; rfl
  rw [Header.definitionsAlong, plain_append, scanFrom_match 0 hne (h.reads before (plain rest)),
    List.filter_cons_of_pos (by simpa using hcode), List.map_cons, definitionsAlong_behind]

theorem definitionsAlong_of_unread (h : Unread macroDefinition? piece) :
    definitionsAlong before piece = [] := by
  rw [definitionsAlong, List.map_eq_nil_iff, List.filter_eq_nil_iff]
  intro m hm hcode
  obtain ⟨a, b, htext, hstart, hread⟩ := exists_of_mem_scanFrom consumes_macroDefinition? hm
  rw [Nat.zero_add] at hstart
  obtain ⟨x, y, rfl, rfl, hy⟩ := exists_append_of_plain htext
  rw [hstart, zoneAt?_append (length_plain _)] at hcode
  cases y with
  | nil => simp at hcode
  | cons m' y =>
    obtain ⟨c, zone⟩ := m'
    obtain rfl : zone = .code := by simpa using hcode
    have hnone := h rfl (behind before (plain x)) []
    rw [List.append_nil, ← plain_cons (c, .code), hy, hread] at hnone
    cases hnone

end

end FirmwareCatalog.Header
