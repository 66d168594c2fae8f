import FirmwareCatalog.Proofs.Character.Blank
import FirmwareCatalog.Proofs.ConfigBlock.Reading
import FirmwareCatalog.Proofs.Removal.Delimiter

/-!
# Defines are read by words

The reader of defines takes three words: the directive, a name and a value. The
blanks between them may hold line ends, so only the directive has to be the first
word of its line. A text is scanned from word to word.
-/

namespace FirmwareCatalog.ConfigBlock

open Character Header

/-! ## Words -/

def nextWord? (text : List Char) : Option (List Char × List Char) :=
  someOf? (fun c => !isBlank c) (skipBlanks text)

/-- A text that does not go on with the word before it. -/
abbrev EndsWord (rest : List Char) : Prop := StopsAt (fun c => !isBlank c) rest

theorem endsWord_blanks {blanks : List Char} (h : blanks ≠ [] ∧ ∀ c ∈ blanks, isBlank c = true)
    (text : List Char) : EndsWord (blanks ++ text) :=
  StopsAt.append h.1 (fun c hc => by simp [h.2 c (List.mem_of_head? hc)]) _

theorem nextWord?_eq_some {text word rest : List Char} (h : nextWord? text = some (word, rest)) :
    ∃ blanks, text = blanks ++ (word ++ rest) ∧ (∀ c ∈ blanks, isBlank c = true) ∧
      (word ≠ [] ∧ ∀ c ∈ word, isBlank c = false) ∧ EndsWord rest := by
  obtain ⟨blanks, htext, hblanks, -⟩ := exists_skipBlanks text
  obtain ⟨hword, hne, hchars, hends⟩ := someOf?_eq_some h
  exact ⟨blanks, by rw [← hword, ← htext], hblanks, ⟨hne, fun c hc => by simpa using hchars c hc⟩, hends⟩

theorem nextWord?_behind {text word rest : List Char} (hends : EndsWord text) (h : nextWord? text = some (word, rest)) :
    ∃ blanks, text = blanks ++ (word ++ rest) ∧ (blanks ≠ [] ∧ ∀ c ∈ blanks, isBlank c = true) ∧
      (word ≠ [] ∧ ∀ c ∈ word, isBlank c = false) ∧ EndsWord rest := by
  obtain ⟨blanks, rfl, hblanks, hword, hrest⟩ := nextWord?_eq_some h
  refine ⟨blanks, rfl, ⟨?_, hblanks⟩, hword, hrest⟩
  rintro rfl
  obtain ⟨c, word, rfl⟩ := List.exists_cons_of_ne_nil hword.1
  have hblank : isBlank c = true := by simpa using hends
  rw [hword.2 c List.mem_cons_self] at hblank
  cases hblank

theorem someOf?_nextWord {text : List Char} {next : List Char × List Char} (h : nextWord? text = some next) :
    someOf? (fun c => !isBlank c) (next.1 ++ next.2) = some next := by
  rw [← (someOf?_eq_some h).1]
  exact h

theorem nextWord?_append {blanks word rest : List Char} (hblanks : ∀ c ∈ blanks, isBlank c = true)
    (hword : word ≠ [] ∧ ∀ c ∈ word, isBlank c = false) (hends : EndsWord rest) :
    nextWord? (blanks ++ (word ++ rest)) = some (word, rest) := by
  have hstop : StopsAt isBlank (word ++ rest) := StopsAt.append hword.1 (fun c hc => hword.2 c (List.mem_of_head? hc)) _
  rw [nextWord?, skipBlanks_append hblanks hstop]
  exact someOf?_append (fun c hc => by simp [hword.2 c hc]) hends hword.1

theorem nextWord?_blank {c : Char} (h : isBlank c = true) (text : List Char) :
    nextWord? (c :: text) = nextWord? text := by
  rw [nextWord?, nextWord?, skipBlanks_cons h]

theorem nextWord?_eq_none {text : List Char} (h : nextWord? text = none) : skipBlanks text = [] := by
  obtain ⟨-, -, -, hstop⟩ := exists_skipBlanks text
  cases hrest : skipBlanks text with
  | nil => rfl
  | cons c rest =>
    rw [hrest] at hstop
    rw [nextWord?, hrest, someOf?, List.takeWhile_cons_of_pos (by simpa using hstop)] at h
    cases h

section
variable {word rest : List Char}

theorem someBlanks?_bind {α : Type} (hends : EndsWord rest) {read : List Char → Option α} (hnil : read [] = none) :
    (someBlanks? rest).bind read = (nextWord? rest).bind fun next => read (next.1 ++ next.2) := by
  cases rest with
  | nil => rfl
  | cons c rest =>
    have hc : isBlank c = true := by simpa using hends
    rw [someBlanks?_cons hc, Option.bind_some, nextWord?_blank hc]
    cases hnext : nextWord? rest with
    | none => rw [nextWord?_eq_none hnext, hnil, Option.bind_none]
    | some next => rw [(someOf?_eq_some hnext).1, Option.bind_some]

theorem someBlanks?_behind (hword : ∀ c ∈ word, isBlank c = false) :
    someBlanks? (word ++ rest) = if word = [] then someBlanks? rest else none := by
  cases word with
  | nil => rfl
  | cons c word => rw [List.cons_append, someBlanks?, hword c List.mem_cons_self]; rfl

end

theorem text?_word {s : String} (hs : ∀ c ∈ s.toList, isBlank c = false) {rest : List Char} (hends : EndsWord rest)
    (word : List Char) : text? s (word ++ rest) = (text? s word).map (· ++ rest) := by
  cases rest with
  | nil => simp
  | cons e rest =>
    refine text?_before (fun he => ?_) word rest
    have hblank : isBlank e = true := by simpa using hends
    rw [hs e he] at hblank
    cases hblank

theorem digits?_word {rest : List Char} (hends : EndsWord rest) (word : List Char) :
    Header.digits? (word ++ rest) = (Header.digits? word).map fun r => (r.1, r.2 ++ rest) := by
  cases rest with
  | nil => simp
  | cons e rest => exact someOf?_before (isDecimalDigit_eq_false_of_isBlank (by simpa using hends)) word rest

theorem inputField?_word {rest : List Char} (hends : EndsWord rest) (word : List Char) :
    inputField? (word ++ rest) = (inputField? word).map fun r => (r.1, r.2 ++ rest) := by
  unfold inputField?
  rw [text?_word (by decide) hends, text?_word (by decide) hends, text?_word (by decide) hends]
  cases text? "PIN" word <;> cases text? "APPLICATION" word <;> cases text? "SENSOR" word <;> rfl

/-! ## Names -/

def namedField? (name : List Char) : Option (List Char × InputField) := do
  let cs ← text? "INPUT_" name
  let (input, cs) ← Header.digits? cs
  let cs ← text? "_" cs
  let (field, cs) ← inputField? cs
  if cs.isEmpty then some (input, field) else none

def definedName (input : List Char) (field : InputField) : List Char :=
  "INPUT_".toList ++ (input ++ ("_".toList ++ field.render.toList))

theorem namedField?_eq_some_iff {name input : List Char} {field : InputField} :
    namedField? name = some (input, field) ↔
      name = definedName input field ∧ input ≠ [] ∧ ∀ c ∈ input, isDecimalDigit c = true := by
  unfold definedName
  constructor
  · intro h
    simp only [namedField?, Option.bind_eq_bind, Option.bind_eq_some_iff] at h
    obtain ⟨behindStart, hstart, ⟨digits, behindDigits⟩, hdigits, behindEdge, hedge,
      ⟨field', behindField⟩, hfield, h⟩ := h
    split at h
    · rename_i hempty
      cases h
      obtain rfl : behindField = [] := List.isEmpty_iff.mp hempty
      obtain ⟨rfl, hne, hdecimal, -⟩ := someOf?_eq_some hdigits
      obtain rfl := text?_eq_some_iff.mp hedge
      obtain rfl := inputField?_eq_some hfield
      exact ⟨by rw [text?_eq_some_iff.mp hstart, List.append_nil], hne, hdecimal⟩
    · cases h
  · rintro ⟨rfl, hne, hdecimal⟩
    have hstop : StopsAt isDecimalDigit ("_".toList ++ field.render.toList) :=
      (stopsAt_cons _ _ _).mpr (by decide +kernel)
    have hdigits : Header.digits? (input ++ ("_".toList ++ field.render.toList)) = some (input, _) :=
      someOf?_append hdecimal hstop hne
    have hfield : inputField? field.render.toList = some (field, []) := by simpa using inputField?_render field []
    simp only [namedField?, text?_append, hdigits, hfield, Option.bind_eq_bind, Option.bind_some]
    rfl

theorem definedName_word {input : List Char} (h : ∀ c ∈ input, isBlank c = false) (field : InputField) :
    definedName input field ≠ [] ∧ ∀ c ∈ definedName input field, isBlank c = false := by
  have hstart : ∀ c ∈ "INPUT_".toList, isBlank c = false := by decide
  have hfield : ∀ c ∈ "_".toList ++ field.render.toList, isBlank c = false := by cases field <;> decide
  refine ⟨List.append_ne_nil_of_left_ne_nil (by decide) _, fun c hc => ?_⟩
  rcases List.mem_append.mp hc with hc | hc
  · exact hstart c hc
  · exact (List.mem_append.mp hc).elim (h c) (hfield c)

/-- What stands behind the directive reads as a define if the next word is a name and a value follows it. -/
theorem bind_inputField {name rest : List Char} (hname : ∀ c ∈ name, isBlank c = false) (hends : EndsWord rest) :
    ((text? "INPUT_" (name ++ rest)).bind fun cs => (Header.digits? cs).bind fun input =>
      (text? "_" input.2).bind fun cs => (inputField? cs).bind fun field => (someBlanks? field.2).bind fun cs =>
        (someOf? (fun c => !isBlank c) cs).bind fun value =>
          some ((⟨input.1, field.1, value.1⟩ : WrittenDefine), value.2)) =
      (namedField? name).bind fun field => (nextWord? rest).map fun value =>
        (⟨field.1, field.2, value.1⟩, value.2) := by
  rw [text?_word (by decide) hends]
  simp only [namedField?, Option.bind_eq_bind, Option.bind_assoc]
  cases hstart : text? "INPUT_" name with
  | none => rfl
  | some behindStart =>
    simp only [Option.map_some, Option.bind_some, digits?_word hends]
    cases hdigits : Header.digits? behindStart with
    | none => rfl
    | some input =>
      simp only [Option.map_some, Option.bind_some, text?_word (s := "_") (by decide) hends]
      cases hedge : text? "_" input.2 with
      | none => rfl
      | some behindEdge =>
        simp only [Option.map_some, Option.bind_some, inputField?_word hends]
        cases hfield : inputField? behindEdge with
        | none => rfl
        | some field =>
          have hbehind : ∀ c ∈ field.2, isBlank c = false := fun c hc => hname c (by
            rw [text?_eq_some_iff.mp hstart, (someOf?_eq_some hdigits).1, text?_eq_some_iff.mp hedge,
              inputField?_eq_some hfield]
            simp [hc])
          simp only [Option.map_some, Option.bind_some, someBlanks?_behind hbehind, List.isEmpty_iff]
          split
          · rw [someBlanks?_bind hends rfl, Option.bind_some]
            cases hvalue : nextWord? rest with
            | none => rfl
            | some value => simp only [Option.bind_some, someOf?_nextWord hvalue, Option.map_some]
          · rfl

theorem bind_define {α : Type} {directive rest : List Char} (hdirective : ∀ c ∈ directive, isBlank c = false)
    (hends : EndsWord rest) {read : List Char → Option α} (hnil : read [] = none) :
    ((text? "#define" (directive ++ rest)).bind fun cs => (someBlanks? cs).bind read) =
      if directive = "#define".toList then (nextWord? rest).bind fun next => read (next.1 ++ next.2) else none := by
  rw [text?_word (by decide) hends]
  cases hkeyword : text? "#define" directive with
  | none =>
    rw [if_neg fun he => ?_]
    · rfl
    · rw [he, show text? "#define" "#define".toList = some [] from rfl] at hkeyword
      cases hkeyword
  | some behind =>
    have hsplit := text?_eq_some_iff.mp hkeyword
    have hbehind : ∀ c ∈ behind, isBlank c = false := fun c hc => hdirective c (by rw [hsplit]; simp [hc])
    rw [Option.map_some, Option.bind_some, someBlanks?_behind hbehind]
    by_cases hnone : behind = []
    · subst hnone
      rw [if_pos rfl, if_pos (by simpa using hsplit), someBlanks?_bind hends hnil]
    · rw [if_neg hnone, if_neg fun he => hnone (by simpa [he] using hsplit)]
      rfl

section
variable {before : Option Char} (hbefore : startsLine before = true)
include hbefore

/-- **A define is read by words.** At the start of a line the reader takes the next three words. -/
theorem inputDefine?_eq_words (text : List Char) :
    inputDefine? before text = (nextWord? text).bind fun directive =>
      if directive.1 = "#define".toList then (nextWord? directive.2).bind fun name =>
        (namedField? name.1).bind fun field => (nextWord? name.2).map fun value =>
          (⟨field.1, field.2, value.1⟩, value.2)
      else none := by
  simp only [inputDefine?, defineStart?, hbefore, Option.bind_eq_bind, Option.bind_assoc, Bool.not_true,
    Bool.false_eq_true, if_false]
  cases hnext : nextWord? text with
  | none =>
    rw [nextWord?_eq_none hnext]
    rfl
  | some directive =>
    obtain ⟨-, -, -, ⟨-, hchars⟩, hends⟩ := nextWord?_eq_some hnext
    rw [(someOf?_eq_some hnext).1, bind_define hchars hends rfl, Option.bind_some]
    split
    · cases hname : nextWord? directive.2 with
      | none => rfl
      | some name =>
        obtain ⟨-, -, -, ⟨-, hchars⟩, hends⟩ := nextWord?_eq_some hname
        exact bind_inputField hchars hends
    · rfl

theorem exists_of_inputDefine? {text rest : List Char} {written : WrittenDefine}
    (h : inputDefine? before text = some (written, rest)) :
    ∃ blanks gap space, text = blanks ++ ("#define".toList ++ (gap ++ (definedName written.input written.field ++
        (space ++ (written.value ++ rest))))) ∧
      (∀ c ∈ blanks, isBlank c = true) ∧ (gap ≠ [] ∧ ∀ c ∈ gap, isBlank c = true) ∧
      (written.input ≠ [] ∧ ∀ c ∈ written.input, isDecimalDigit c = true) ∧
      (space ≠ [] ∧ ∀ c ∈ space, isBlank c = true) ∧
      (written.value ≠ [] ∧ ∀ c ∈ written.value, isBlank c = false) ∧ EndsWord rest := by
  rw [inputDefine?_eq_words hbefore] at h
  obtain ⟨directive, hdirective, h⟩ := Option.bind_eq_some_iff.mp h
  split at h
  · rename_i hkeyword
    obtain ⟨name, hname, h⟩ := Option.bind_eq_some_iff.mp h
    obtain ⟨field, hfield, h⟩ := Option.bind_eq_some_iff.mp h
    obtain ⟨value, hvalue, he⟩ := Option.map_eq_some_iff.mp h
    cases he
    obtain ⟨hnameText, hinput⟩ := namedField?_eq_some_iff.mp hfield
    obtain ⟨blanks, htext, hblank, -, hends⟩ := nextWord?_eq_some hdirective
    obtain ⟨gap, hgapText, hgap, -, hends'⟩ := nextWord?_behind hends hname
    obtain ⟨space, hspaceText, hspace, hword, hrest⟩ := nextWord?_behind hends' hvalue
    exact ⟨blanks, gap, space, by rw [htext, hkeyword, hgapText, hnameText, hspaceText], hblank, hgap, hinput, hspace,
      hword, hrest⟩
  · cases h

theorem inputDefine?_append {blanks gap input space value rest : List Char} {field : InputField}
    (hblank : ∀ c ∈ blanks, isBlank c = true) (hgap : gap ≠ [] ∧ ∀ c ∈ gap, isBlank c = true)
    (hinput : input ≠ [] ∧ ∀ c ∈ input, isDecimalDigit c = true)
    (hspace : space ≠ [] ∧ ∀ c ∈ space, isBlank c = true)
    (hvalue : value ≠ [] ∧ ∀ c ∈ value, isBlank c = false) (hends : EndsWord rest) :
    inputDefine? before (blanks ++ ("#define".toList ++ (gap ++ (definedName input field ++
      (space ++ (value ++ rest)))))) = some (⟨input, field, value⟩, rest) := by
  have hname : namedField? (definedName input field) = some (input, field) :=
    namedField?_eq_some_iff.mpr ⟨rfl, hinput⟩
  have hnameWord := definedName_word (fun c hc => isBlank_eq_false_of_isDecimalDigit (hinput.2 c hc)) field
  -- under a name, for the literal is unfolded wherever it is compared
  obtain ⟨keyword, hkeyword⟩ : ∃ keyword, keyword = "#define".toList := ⟨_, rfl⟩
  have hkeywordWord : keyword ≠ [] ∧ ∀ c ∈ keyword, isBlank c = false := hkeyword ▸ by decide
  rw [← hkeyword, inputDefine?_eq_words hbefore, nextWord?_append hblank hkeywordWord (endsWord_blanks hgap _),
    Option.bind_some, if_pos hkeyword, nextWord?_append hgap.2 hnameWord (endsWord_blanks hspace _), Option.bind_some,
    hname, Option.bind_some, nextWord?_append hspace.2 hvalue hends]
  rfl

end

/-! ## The words of a text -/

structure Word where
  /-- Whether no word stands before it on its line. -/
  first : Bool
  text : List Char

/-- The words of a text, where the first one stands at the start of a line or not. -/
def wordsFrom (first : Bool) (text : List Char) : List Word :=
  match _h : nextWord? text with
  | none => []
  | some (word, rest) => ⟨first || (text.takeWhile isBlank).contains '\n', word⟩ :: wordsFrom false rest
termination_by text.length
decreasing_by
  obtain ⟨blanks, htext, -, ⟨hne, -⟩, -⟩ := nextWord?_eq_some _h
  have := List.length_pos_iff.mpr hne
  rw [htext]
  simp only [List.length_append]
  omega

theorem wordsFrom_none {text : List Char} (h : nextWord? text = none) (first : Bool) : wordsFrom first text = [] := by
  rw [wordsFrom]
  split
  · rfl
  · rename_i hsome
    rw [h] at hsome
    cases hsome

theorem wordsFrom_some {text word rest : List Char} (h : nextWord? text = some (word, rest)) (first : Bool) :
    wordsFrom first text = ⟨first || (text.takeWhile isBlank).contains '\n', word⟩ :: wordsFrom false rest := by
  rw [wordsFrom]
  split
  · rename_i hnone
    rw [h] at hnone
    cases hnone
  · rename_i hsome
    rw [h] at hsome
    cases hsome
    rfl

theorem wordsFrom_blank {c : Char} (h : isBlank c = true) (first : Bool) (text : List Char) :
    wordsFrom first (c :: text) = wordsFrom (first || c == '\n') text := by
  cases hnext : nextWord? text with
  | none => rw [wordsFrom_none hnext, wordsFrom_none ((nextWord?_blank h text).trans hnext)]
  | some next =>
    rw [wordsFrom_some hnext, wordsFrom_some ((nextWord?_blank h text).trans hnext), List.takeWhile_cons_of_pos h,
      List.contains_cons, Bool.or_assoc, BEq.comm]

theorem wordsFrom_word {word rest : List Char} (hword : word ≠ [] ∧ ∀ c ∈ word, isBlank c = false)
    (hends : EndsWord rest) (first : Bool) :
    wordsFrom first (word ++ rest) = ⟨first, word⟩ :: wordsFrom false rest := by
  have hstop : StopsAt isBlank (word ++ rest) := StopsAt.append hword.1 (fun c hc => hword.2 c (List.mem_of_head? hc)) _
  have hnext : nextWord? (word ++ rest) = some (word, rest) := nextWord?_append isBlank_of_mem_nil hword hends
  rw [wordsFrom_some hnext, takeWhile_eq_nil_of_stopsAt hstop]
  simp

theorem exists_wordEnd (text : List Char) :
    ∃ word rest, text = word ++ rest ∧ (∀ c ∈ word, isBlank c = false) ∧ EndsWord rest :=
  ⟨firstWord text, text.dropWhile fun c => !isBlank c, List.takeWhile_append_dropWhile.symm,
    fun c hc => by simpa using List.mem_takeWhile_imp hc, stopsAt_dropWhile _ text⟩

@[elab_as_elim] theorem words_induction {motive : List Char → Prop} (nil : motive [])
    (blank : ∀ c text, isBlank c = true → motive text → motive (c :: text))
    (word : ∀ word rest, (word ≠ [] ∧ ∀ c ∈ word, isBlank c = false) → EndsWord rest → motive rest →
      motive (word ++ rest)) (text : List Char) : motive text := by
  induction h : text.length using Nat.strongRecOn generalizing text with
  | ind n ih =>
    subst h
    cases text with
    | nil => exact nil
    | cons c text =>
      by_cases hblank : isBlank c = true
      · exact blank c text hblank (ih _ (by simp) text rfl)
      · obtain ⟨front, rest, rfl, hfront, hends⟩ := exists_wordEnd text
        have hlength : rest.length < (c :: (front ++ rest)).length := by
          rw [List.length_cons, List.length_append]
          omega
        exact word (c :: front) rest
          ⟨List.cons_ne_nil _ _, List.forall_mem_cons.mpr ⟨by simpa using hblank, hfront⟩⟩
          hends (ih _ hlength rest rfl)

theorem wordsFrom_cases (text : List Char) :
    wordsFrom true text = [] ∧ wordsFrom false text = [] ∨
      ∃ first word words, wordsFrom true text = ⟨true, word⟩ :: words ∧
        wordsFrom false text = ⟨first, word⟩ :: words := by
  cases hnext : nextWord? text with
  | none => exact .inl ⟨wordsFrom_none hnext _, wordsFrom_none hnext _⟩
  | some next => exact .inr ⟨_, _, _, wordsFrom_some hnext _, wordsFrom_some hnext _⟩

/-! ## Defines among words -/

def define? (directive name value : Word) : Option WrittenDefine :=
  if directive.first = true ∧ directive.text = "#define".toList then
    (namedField? name.text).map fun field => ⟨field.1, field.2, value.text⟩
  else none

/-- The defines of a text are read from its words, each behind the value of the one before it. -/
def definesIn : List Word → List WrittenDefine
  | directive :: name :: value :: rest =>
    match define? directive name value with
    | some written => written :: definesIn rest
    | none => definesIn (name :: value :: rest)
  | _ => []

theorem definesIn_some {directive name value : Word} {written : WrittenDefine}
    (h : define? directive name value = some written) (rest : List Word) :
    definesIn (directive :: name :: value :: rest) = written :: definesIn rest := by
  rw [definesIn, h]

theorem definesIn_skip {word : Word} {words : List Word}
    (h : ∀ name value rest, words = name :: value :: rest → define? word name value = none) :
    definesIn (word :: words) = definesIn words := by
  match words with
  | [] => rfl
  | [_] => rfl
  | name :: value :: rest => rw [definesIn, h name value rest rfl]

theorem define?_eq_none {word : Word} (h : word.first = false) (name value : Word) : define? word name value = none :=
  if_neg fun hdirective => by rw [h] at hdirective; cases hdirective.1

theorem define?_eq_none_of_name {directive name : Word}
    (h : directive.text = "#define".toList → namedField? name.text = none) (value : Word) :
    define? directive name value = none := by
  rw [define?]
  split
  · rename_i hdirective
    rw [h hdirective.2, Option.map_none]
  · rfl

theorem definesIn_inner {word : Word} (h : word.first = false) (words : List Word) :
    definesIn (word :: words) = definesIn words :=
  definesIn_skip fun name value _ _ => define?_eq_none h name value

theorem definesIn_inner_append {words : List Word} (h : ∀ word ∈ words, word.first = false) (rest : List Word) :
    definesIn (words ++ rest) = definesIn rest := by
  induction words with
  | nil => rfl
  | cons word words ih =>
    obtain ⟨hword, h⟩ := List.forall_mem_cons.mp h
    rw [List.cons_append, definesIn_inner hword, ih h]

/-! ## The scan -/

def LeavesLine (text rest : List Char) : Prop :=
  ∃ taken, text = taken ++ rest ∧ ∀ before, startsLine (behind before taken) = false

theorem leavesLine_of_nextWord? {text word rest : List Char} (h : nextWord? text = some (word, rest)) :
    LeavesLine text rest := by
  obtain ⟨blanks, htext, -, ⟨hne, hchars⟩, -⟩ := nextWord?_eq_some h
  refine ⟨blanks ++ word, by rw [htext, List.append_assoc], fun before => ?_⟩
  rw [behind_append]
  exact startsLine_behind_of_notMem hne (fun hmem => absurd (hchars _ hmem) (by decide)) _

theorem LeavesLine.trans {a b c : List Char} (hab : LeavesLine a b) (hbc : LeavesLine b c) : LeavesLine a c := by
  obtain ⟨taken, rfl, -⟩ := hab
  obtain ⟨taken', rfl, hline⟩ := hbc
  exact ⟨taken ++ taken', (List.append_assoc ..).symm, fun before => by rw [behind_append]; exact hline _⟩

section
variable {before : Option Char} (hbefore : startsLine before = true) {text : List Char}
include hbefore

theorem inputDefine?_of_words {directive name value : Word} {words : List Word}
    (hwords : wordsFrom true text = directive :: name :: value :: words) :
    ∃ rest, LeavesLine text rest ∧ words = wordsFrom false rest ∧
      inputDefine? before text = (define? directive name value).map fun written => (written, rest) := by
  cases hdirective : nextWord? text with
  | none => rw [wordsFrom_none hdirective] at hwords; cases hwords
  | some next =>
    rw [wordsFrom_some hdirective, List.cons.injEq] at hwords
    obtain ⟨rfl, hwords⟩ := hwords
    cases hname : nextWord? next.2 with
    | none => rw [wordsFrom_none hname] at hwords; cases hwords
    | some next' =>
      rw [wordsFrom_some hname, List.cons.injEq] at hwords
      obtain ⟨rfl, hwords⟩ := hwords
      cases hvalue : nextWord? next'.2 with
      | none => rw [wordsFrom_none hvalue] at hwords; cases hwords
      | some next'' =>
        rw [wordsFrom_some hvalue, List.cons.injEq] at hwords
        obtain ⟨rfl, rfl⟩ := hwords
        refine ⟨next''.2, (leavesLine_of_nextWord? hdirective).trans ((leavesLine_of_nextWord? hname).trans
          (leavesLine_of_nextWord? hvalue)), rfl, ?_⟩
        rw [inputDefine?_eq_words hbefore, hdirective, Option.bind_some, hname, define?]
        by_cases hkeyword : next.1 = "#define".toList
        · rw [if_pos hkeyword, if_pos ⟨rfl, hkeyword⟩, Option.bind_some, hvalue]
          cases namedField? next'.1 <;> rfl
        · rw [if_neg hkeyword, if_neg fun h => hkeyword h.2, Option.map_none]

theorem exists_words_of_inputDefine? {read : WrittenDefine × List Char} (h : inputDefine? before text = some read) :
    ∃ directive name value words, wordsFrom true text = directive :: name :: value :: words := by
  rw [inputDefine?_eq_words hbefore] at h
  obtain ⟨directive, hdirective, h⟩ := Option.bind_eq_some_iff.mp h
  split at h
  · obtain ⟨name, hname, h⟩ := Option.bind_eq_some_iff.mp h
    obtain ⟨field, -, h⟩ := Option.bind_eq_some_iff.mp h
    obtain ⟨value, hvalue, -⟩ := Option.map_eq_some_iff.mp h
    exact ⟨_, _, _, _, by rw [wordsFrom_some hdirective, wordsFrom_some hname, wordsFrom_some hvalue]⟩
  · cases h

theorem define?_eq_none_of_inputDefine? (h : inputDefine? before text = none) {directive : Word} {words : List Word}
    (hwords : wordsFrom true text = directive :: words) :
    ∀ name value rest, words = name :: value :: rest → define? directive name value = none := by
  rintro name value rest rfl
  obtain ⟨behind, -, -, hread⟩ := inputDefine?_of_words hbefore hwords
  rw [h] at hread
  exact Option.map_eq_none_iff.mp hread.symm

/-- Where the reader reads nothing, it makes no difference whether a line starts there. -/
theorem definesIn_of_none (h : inputDefine? before text = none) :
    definesIn (wordsFrom true text) = definesIn (wordsFrom false text) := by
  rcases wordsFrom_cases text with ⟨hline, hinner⟩ | ⟨first, word, words, hline, hinner⟩
  · rw [hline, hinner]
  · have hnone := define?_eq_none_of_inputDefine? hbefore h hline
    rw [hline, hinner, definesIn_skip hnone]
    refine (definesIn_skip fun name value rest hwords => ?_).symm
    cases first with
    | false => exact define?_eq_none rfl name value
    | true => exact hnone name value rest hwords

end

theorem definesIn_pass {before : Option Char} {c : Char} {text : List Char}
    (h : inputDefine? before (c :: text) = none) :
    definesIn (wordsFrom (startsLine before) (c :: text)) = definesIn (wordsFrom (startsLine (some c)) text) := by
  by_cases hblank : isBlank c = true
  · have hstarts : startsLine (some c) = (c == '\n') := rfl
    rw [wordsFrom_blank hblank, hstarts]
    cases hbefore : startsLine before with
    | false => rw [Bool.false_or]
    | true =>
      cases hnewline : c == '\n' with
      | true => rw [Bool.true_or]
      | false =>
        have hnone := definesIn_of_none hbefore h
        rwa [wordsFrom_blank hblank, wordsFrom_blank hblank, hnewline] at hnone
  · obtain ⟨word, rest, rfl, hword, hends⟩ := exists_wordEnd text
    have hchars : ∀ d ∈ c :: word, isBlank d = false := List.forall_mem_cons.mpr ⟨by simpa using hblank, hword⟩
    have hstarts : startsLine (some c) = false := startsLine_of_ne fun hc => hblank (hc ▸ by decide)
    have hwhole (first : Bool) :
        wordsFrom first (c :: (word ++ rest)) = ⟨first, c :: word⟩ :: wordsFrom false rest :=
      wordsFrom_word ⟨List.cons_ne_nil _ _, hchars⟩ hends first
    have hremainder : definesIn (wordsFrom false (word ++ rest)) = definesIn (wordsFrom false rest) := by
      cases word with
      | nil => rfl
      | cons d word => rw [wordsFrom_word ⟨List.cons_ne_nil _ _, hword⟩ hends, definesIn_inner rfl]
    rw [hstarts, hremainder, hwhole]
    refine definesIn_skip fun name value words hwords => ?_
    cases hbefore : startsLine before with
    | false => exact define?_eq_none rfl name value
    | true => exact define?_eq_none_of_inputDefine? hbefore h (hwhole true) name value words hwords

/-- **The scan goes from word to word.** -/
theorem readings_inputDefine? (text : List Char) (before : Option Char) :
    readings inputDefine? before text = definesIn (wordsFrom (startsLine before) text) := by
  induction before, text using scan_induction inputDefine?_consumes with
  | nil before =>
    rw [wordsFrom_none rfl]
    rfl
  | skip before c text hread ih => rw [readings_cons_of_none hread, definesIn_pass hread, ih]
  | found before taken written rest hne hread ih =>
    have hbefore : startsLine before = true := by
      by_contra hinner
      rw [inputDefine?_atLineStart (by simpa using hinner)] at hread
      cases hread
    obtain ⟨directive, name, value, words, hwords⟩ := exists_words_of_inputDefine? hbefore hread
    obtain ⟨rest', ⟨taken', htaken, hline⟩, rfl, hdefine⟩ := inputDefine?_of_words hbefore hwords
    rw [hread] at hdefine
    obtain ⟨found, hfound, he⟩ := Option.map_eq_some_iff.mp hdefine.symm
    cases he
    obtain rfl := List.append_cancel_right htaken
    rw [hbefore, hwords, definesIn_some hfound, readings_match hne hread, ih, hline]

end FirmwareCatalog.ConfigBlock
