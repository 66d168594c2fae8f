import FirmwareCatalog.Header.EnumConstant
import FirmwareCatalog.Proofs.Bytewise.Element
import FirmwareCatalog.Proofs.Bytewise.Literal
import FirmwareCatalog.Proofs.Header.Invocation
import FirmwareCatalog.Proofs.Header.StringMacro
import FirmwareCatalog.Proofs.Header.StructArray

/-!
# Declarations by byte offsets

A match in code is code as a whole, so the bracket that it ends with is in code
too: the byte before its end is the opener from which the closer is searched.
-/

namespace FirmwareCatalog.Bytewise

open Header Utf8

/-! ## Matches in code -/

section

variable {α : Type}

def bracketAt? (text : List Char) (zones : List Zone) (opener closer : Char) (m : Match α) :
    Checked (Option (Nat × Nat)) := do
  if (← classAt zones (startByte text m)) ≠ .code then return none
  let opening ← decrement (stopByte text m)
  let close ← matchingClose zones opener closer opening 0 ((encode text).drop opening)
  return close.map fun close => (opening, close)

def inBracket? (text : List Char) (opener closer : Char) (m : Match α) : Option (List Marked × List Marked) :=
  if zoneAt? (mark text) m.start = some .code then bracketed? opener closer (mark text) (m.stop - 1) else none

variable {read : Reader α} {text : List Char} {m : Match α} {a b : List Char} (h : Located read text m a b)
include h

theorem Located.classAt_start : ∃ zone, classAt (classes text) (startByte text m) = .ok zone ∧
    zoneAt? (mark text) m.start = some zone := by
  have hplain : plain (mark text) = a ++ (m.text ++ b) := by rw [plain_mark, h.text_eq]
  obtain ⟨x, y, hmark, hx, hy⟩ := exists_append_of_plain hplain
  cases y with
  | nil => exact absurd (List.append_eq_nil_iff.mp hy.symm).1 h.ne_nil
  | cons m' y =>
    have haligned := aligned_classes hmark
    refine ⟨m'.2, ?_, ?_⟩
    · rw [h.startByte_eq, ← hx]
      exact haligned.classAt_zero
    · rw [hmark, zoneAt?_append (by rw [h.start_eq, ← hx, length_plain])]
      rfl

section

variable {p : Char → Bool} {first opener closer : Char} (hopener : IsAscii opener) (hcloser : IsAscii closer)
  (hne : opener ≠ closer) (hhead : IsHead p first opener m.text)
include hopener hcloser hne hhead

/-- From the last byte of a match in code the closer is searched as from its last character. -/
theorem Located.matchingClose_stop (hcode : zoneAt? (mark text) m.start = some .code) :
    ∃ opening, opening + 1 = width (a ++ m.text) ∧
      matchingClose (classes text) opener closer opening 0 ((encode text).drop opening) =
        .ok ((splitClosing opener closer 1 (mark b)).map fun q => width (a ++ m.text) + width (plain q.1)) ∧
      bracketed? opener closer (mark text) (m.stop - 1) = splitClosing opener closer 1 (mark b) := by
  obtain ⟨front, hfront⟩ := List.getLast?_eq_some_iff.mp hhead.last
  have hopening : width (a ++ front) + 1 = width (a ++ m.text) := by
    rw [hfront, width_append, width_append, width_append, width_ascii hopener, Nat.add_assoc]
  obtain ⟨x, y, hmark, hx, hy, hycode⟩ := exists_cut_of_zoneAt? h.text_eq h.start_eq hcode
  have hyhead := hhead.eq_inZone hmark hycode hy
  refine ⟨width (a ++ front), hopening, ?_, ?_⟩
  · have hsplit : mark text = x ++ inZone .code front ++ (opener, .code) :: mark b := by
      rw [hmark, hyhead, hfront]
      simp [inZone]
    have haligned := aligned_classes hsplit
    rw [plain_append, plain_inZone, hx] at haligned
    have hbytes : (encode text).drop (width (a ++ front)) = encode (opener :: b) := by
      have htext : text = a ++ front ++ opener :: b := by
        rw [h.text_eq, hfront]
        simp
      rw [htext, drop_encode]
    have hclose := matchingClose_open hopener hcloser hne haligned
    rw [plain_mark, hopening] at hclose
    rw [hbytes, hclose]
  · have hposition : m.stop - 1 = x.length + m.text.length - 1 := by
      rw [Match.stop, h.start_eq, ← hx, length_plain]
    rw [hmark, hyhead, bracketed?_head hhead hposition]

theorem Located.bracket_cases :
    (inBracket? text opener closer m = none ∧ bracketAt? text (classes text) opener closer m = .ok none) ∨
      ∃ opening inner rest, inBracket? text opener closer m = some (inner, rest) ∧
        bracketAt? text (classes text) opener closer m =
          .ok (some (opening, width (a ++ m.text) + width (plain inner))) ∧
        opening + 1 = width (a ++ m.text) ∧ text = a ++ (m.text ++ (plain inner ++ closer :: plain rest)) := by
  obtain ⟨zone, hclass, hzone⟩ := h.classAt_start
  rw [bracketAt?, hclass, inBracket?, ok_bind]
  by_cases hcode : zone = .code
  · subst hcode
    obtain ⟨opening, hopening, hclose, hbracketed⟩ := h.matchingClose_stop hopener hcloser hne hhead hzone
    rw [if_pos hzone, hbracketed, h.stopByte_eq, ← hopening, decrement, if_neg (by simp), ok_bind, hclose, ok_bind]
    cases hsplit : splitClosing opener closer 1 (mark b) with
    | none => exact .inl ⟨rfl, rfl⟩
    | some q =>
      obtain ⟨inner, rest⟩ := q
      have hb := congrArg plain (eq_append_of_splitClosing hne hsplit)
      rw [plain_mark, plain_append, plain_cons] at hb
      refine .inr ⟨opening, inner, rest, rfl, ?_, rfl, ?_⟩
      · rw [Option.map_some, Option.map_some, hopening]
        rfl
      · rw [← hb]
        exact h.text_eq
  · left
    rw [if_neg (by rw [hzone]; simpa using hcode), if_pos hcode]
    exact ⟨rfl, rfl⟩

end

end

/-! ## Struct arrays -/

def arrayAt? (text : List Char) (zones : List Zone) (m : Match (List Char)) : Checked (Option StructArray) := do
  match ← bracketAt? text zones '\x7b' '\x7d' m with
  | none => return none
  | some (opening, close) =>
    let body ← slice text (opening + 1) close
    return some ⟨m.value, body⟩

def structArray? (name text : List Char) : Checked (Option StructArray) :=
  (scan (arrayHead? name) text).findSomeM? (arrayAt? text (classes text))

def structBlocks? (name text : List Char) : Checked (Option (List RawBlock)) := do
  match ← structArray? name text with
  | none => return none
  | some array =>
    let blocks ← arrayElements array.body
    return some blocks

section

variable {name : List Char} (hname : ∀ c ∈ name, Character.isWord c = true)
include hname

theorem structArray?_eq (text : List Char) : structArray? name text = .ok (Header.structArray? name text) := by
  rw [structArray?_eq_findSome?]
  refine findSomeM?_ok fun m hm => ?_
  obtain ⟨a, b, h⟩ := exists_located (readsHead_arrayHead? hname).consumes hm
  obtain ⟨head, htext, hhead⟩ := readsHead_arrayHead? hname h.reads
  rw [← List.append_cancel_right htext] at hhead
  have harray : Header.arrayAt? (mark text) m =
      (inBracket? text '\x7b' '\x7d' m).map fun q => ⟨m.value, plain q.1⟩ := by
    rw [Header.arrayAt?, inBracket?]
    split <;> rfl
  rw [harray, arrayAt?]
  rcases h.bracket_cases (by decide) (by decide : IsAscii '\x7d') (by decide) hhead with ⟨hnone, hbracket⟩ |
    ⟨opening, inner, rest, hsome, hbracket, hopening, htext⟩
  · rw [hnone, hbracket]
    rfl
  · have hbody := slice_append (a ++ m.text) (plain inner) ('\x7d' :: plain rest)
    rw [List.append_assoc, ← htext, ← hopening] at hbody
    rw [hsome, hbracket, ok_bind, ← hopening]
    simp only
    rw [hbody]
    rfl

theorem structBlocks?_eq (text : List Char) : structBlocks? name text = .ok (Header.structBlocks? name text) := by
  rw [structBlocks?, structArray?_eq hname, ok_bind, Header.structBlocks?]
  cases Header.structArray? name text with
  | none => rfl
  | some array => simp [arrayElements_eq]

end

/-! ## Invocations -/

def invocationAt? (form : InvocationForm) (text : List Char) (zones : List Zone) (m : Match Unit) :
    Checked (Option RawBlock) := do
  match ← bracketAt? text zones '(' ')' m with
  | none => return none
  | some (opening, close) =>
    let inner ← slice text (opening + 1) close
    let parts ← splitTopLevel (joinLines inner)
    let arguments := parts.map Text.trim
    if arguments.length ≠ form.params.length then return none
    match arguments with
    | [] => .error .index
    | first :: _ =>
      if isMacroReference first then
        let raw ← slice text (startByte text m) (close + 1)
        return some ⟨none, String.ofList raw, form.params.zip (arguments.map String.ofList), .invocation⟩
      else return none

def invocationBlocks? (form : InvocationForm) (text : List Char) : Checked (Option (List RawBlock)) := do
  let blocks ← (scan (invocationHead? form.macroName.toList) text).filterMapM (invocationAt? form text (classes text))
  return if blocks.isEmpty then none else some blocks

section

variable {form : InvocationForm} (hname : ∀ c ∈ form.macroName.toList, Character.isWord c = true)
  (hparams : form.params ≠ [])

include hname in
/-- A macro name and an opening parenthesis are a head, whatever name it is. -/
theorem exists_head_of_invocationHead? {before : Option Char} {text rest : List Char} {value : Unit}
    (h : invocationHead? form.macroName.toList before text = some (value, rest)) :
    ∃ head first, text = head ++ rest ∧ IsHead isHeadChar first '(' head := by
  obtain ⟨-, blanks, htext, hblanks⟩ := invocationHead?_eq_some h
  have hchars : ∀ c ∈ openingOf form.macroName.toList blanks, isHeadChar c = true := by
    intro c hc
    rcases List.mem_append.mp hc with hc | hc
    · exact isHeadChar_of_isWord (hname c hc)
    · rcases List.mem_append.mp hc with hc | hc
      · exact isHeadChar_of_isBlank (hblanks c hc)
      · rw [List.mem_singleton.mp hc]
        decide
  have hne : openingOf form.macroName.toList blanks ≠ [] := by simp [openingOf]
  refine ⟨_, _, htext, List.head?_eq_some_head hne, ?_, hchars, hchars⟩
  rw [openingOf, ← List.append_assoc, List.getLast?_concat]

include hname in
theorem consumes_invocationHead? : Consumes (invocationHead? form.macroName.toList) := by
  intro before text value rest h
  obtain ⟨head, first, htext, hhead⟩ := exists_head_of_invocationHead? hname h
  refine ⟨head, ?_, htext⟩
  rintro rfl
  cases hhead.first

include hname hparams

theorem invocationAt?_eq {text : List Char} {m : Match Unit}
    (hm : m ∈ scan (invocationHead? form.macroName.toList) text) :
    invocationAt? form text (classes text) m = .ok (matchBlock? form (mark text) m) := by
  obtain ⟨a, b, h⟩ := exists_located (consumes_invocationHead? hname) hm
  obtain ⟨head, first, htext, hhead⟩ := exists_head_of_invocationHead? hname h.reads
  rw [← List.append_cancel_right htext] at hhead
  have hblock : matchBlock? form (mark text) m =
      (inBracket? text '(' ')' m).bind fun q => invocationBlock? form m.text (plain q.1) := by
    rw [matchBlock?, inBracket?]
    split <;> rfl
  rw [hblock, invocationAt?]
  rcases h.bracket_cases (by decide) (by decide : IsAscii ')') (by decide) hhead with ⟨hnone, hbracket⟩ |
    ⟨opening, inner, rest, hsome, hbracket, hopening, htext⟩
  · rw [hnone, hbracket]
    rfl
  · have hinner : slice text (width (a ++ m.text)) (width (a ++ m.text) + width (plain inner)) =
        .ok (plain inner) := by
      have h := slice_append (a ++ m.text) (plain inner) (')' :: plain rest)
      rwa [List.append_assoc, ← htext] at h
    have hraw : slice text (width a) (width (a ++ m.text) + width (plain inner) + 1) =
        .ok (m.text ++ plain inner ++ [')']) := by
      have h := slice_append a (m.text ++ plain inner ++ [')']) (plain rest)
      have hpiece : a ++ (m.text ++ plain inner ++ [')'] ++ plain rest) = text := by simp [htext]
      have hwidth : width a + width (m.text ++ plain inner ++ [')']) =
          width (a ++ m.text) + width (plain inner) + 1 := by
        rw [width_append, width_append, width_append, width_ascii (by decide)]
        omega
      rwa [hpiece, hwidth] at h
    rw [hsome, hbracket, ok_bind, Option.bind_some, invocationBlock?]
    simp only
    rw [hopening, hinner, ok_bind, splitTopLevel_eq, ok_bind, h.startByte_eq, hraw]
    -- from here on both readings ask the same of the same arguments
    generalize (Header.splitTopLevel (joinLines (plain inner))).map Text.trim = arguments
    by_cases hlength : arguments.length = form.params.length
    · cases arguments with
      | nil => exact absurd (List.length_eq_zero_iff.mp hlength.symm) hparams
      | cons argument arguments =>
        by_cases hreference : isMacroReference argument = true
        · simp [hlength, hreference]
        · simp [hlength, hreference]
    · simp [hlength]

theorem invocationBlocks?_eq (text : List Char) :
    invocationBlocks? form text = .ok (Header.invocationBlocks? form text) := by
  rw [invocationBlocks?, filterMapM_ok fun m hm => invocationAt?_eq hname hparams hm]
  rfl

end

/-! ## String macros -/

def macroAt? (text : List Char) (zones : List Zone) (m : Match (List Char × List (List Char))) :
    Checked (Option (String × StringMacro)) := do
  if (← classAt zones (startByte text m)) ≠ .code then return none
  let texts ← m.value.2.mapM decodeLiteral
  return some (String.ofList m.value.1, ⟨String.ofList texts.flatten, some (String.ofList m.text)⟩)

def stringMacros (text : List Char) : Checked (Table StringMacro) := do
  let found ← (scan macroDefinition? text).filterMapM (macroAt? text (classes text))
  return Table.ofList found

theorem macroAt?_eq {text : List Char} {m : Match (List Char × List (List Char))}
    (hm : m ∈ scan macroDefinition? text) : macroAt? text (classes text) m =
      .ok (if zoneAt? (mark text) m.start = some .code then
        some (String.ofList m.value.1, ⟨String.ofList (joinLiterals m.value.2), some (String.ofList m.text)⟩)
      else none) := by
  obtain ⟨a, b, h⟩ := exists_located consumes_macroDefinition? hm
  obtain ⟨zone, hclass, hzone⟩ := h.classAt_start
  rw [macroAt?, hclass, hzone, ok_bind]
  by_cases hcode : zone = .code
  · subst hcode
    rw [if_neg (by simp), if_pos rfl, mapM_ok fun body _ => decodeLiteral_eq body, ok_bind, ← List.flatMap_def]
    rfl
  · rw [if_pos hcode, if_neg (by simpa using hcode)]
    rfl

theorem stringMacros_eq (text : List Char) : stringMacros text = .ok (Header.stringMacros text) := by
  rw [stringMacros, filterMapM_ok fun m hm => macroAt?_eq hm, ok_bind, Header.stringMacros, ← List.filterMap_eq_map,
    List.filterMap_filter]
  simp

/-! ## Enum constants -/

def enumConstants (text : List Char) : Checked (Table Int) := do
  let code ← stripComments text
  return Table.ofList ((scan enumConstant? code).filterMap fun m =>
    (Numeral.signed? 10 m.value.2).map fun value => (String.ofList m.value.1, value))

theorem enumConstants_eq (text : List Char) : enumConstants text = .ok (Header.enumConstants text) := by
  rw [enumConstants, stripComments_eq]
  rfl

end FirmwareCatalog.Bytewise
