import FirmwareCatalog.Proofs.ConfigBlock.Acceptance
import FirmwareCatalog.Proofs.ConfigBlock.Words
import FirmwareCatalog.Proofs.Text.Digits
import FirmwareCatalog.Proofs.Validation.Defines

/-!
# Defines line by line

A directive whose words do not stand on one line takes its name or its value from
the lines behind it, and what stands there is not read as a define of its own.
Where no line stops short of a value each define is read from its own line.
-/

namespace FirmwareCatalog.ConfigBlock

open Character Header Numeral Validation

/-! ## Lines -/

theorem wordsFrom_line (line : List Char) (first : Bool) (text : List Char) :
    wordsFrom first (line ++ '\n' :: text) = wordsFrom first line ++ wordsFrom true text := by
  induction line using words_induction generalizing first with
  | nil =>
    have hnil : nextWord? [] = none := rfl
    rw [List.nil_append, wordsFrom_blank (by decide), wordsFrom_none hnil, beq_self_eq_true, Bool.or_true,
      List.nil_append]
  | blank c line hblank ih => rw [List.cons_append, wordsFrom_blank hblank, wordsFrom_blank hblank, ih]
  | word word rest hword hends ih =>
    have hends' : EndsWord (rest ++ '\n' :: text) := by
      cases rest with
      | nil => exact (stopsAt_cons _ _ _).mpr (by decide)
      | cons d rest => exact (stopsAt_cons _ _ _).mpr ((stopsAt_cons _ _ _).mp hends)
    rw [List.append_assoc, wordsFrom_word hword hends', wordsFrom_word hword hends, ih, List.cons_append]

theorem first_of_mem_wordsFrom {line : List Char} (hline : '\n' ∉ line) :
    ∀ word ∈ wordsFrom false line, word.first = false := by
  induction line using words_induction with
  | nil =>
    rw [wordsFrom_none rfl]
    exact List.forall_mem_nil _
  | blank c line hblank ih =>
    rw [List.mem_cons, not_or] at hline
    have hinside : (false || c == '\n') = false := by simpa using Ne.symm hline.1
    rw [wordsFrom_blank hblank, hinside]
    exact ih hline.2
  | word word rest hword hends ih =>
    rw [wordsFrom_word hword hends]
    exact List.forall_mem_cons.mpr ⟨rfl, ih fun hmem => hline (List.mem_append_right _ hmem)⟩

theorem first_of_mem_tail {line : List Char} (hline : '\n' ∉ line) {word : Word} {words : List Word}
    (hwords : wordsFrom true line = word :: words) : ∀ word ∈ words, word.first = false := by
  rcases wordsFrom_cases line with ⟨hnil, -⟩ | ⟨first, text, words', hbegins, hinner⟩
  · rw [hnil] at hwords
    cases hwords
  · rw [hwords] at hbegins
    cases hbegins
    intro word hmem
    exact first_of_mem_wordsFrom hline word (hinner ▸ List.mem_cons_of_mem _ hmem)

/-- A line with a directive behind which nothing stands, or the name of a field and no value. -/
def stopsShort (line : List Char) : Bool :=
  match wordsFrom true line with
  | [directive] => directive.text = "#define".toList
  | [directive, name] => directive.text = "#define".toList && (namedField? name.text).isSome
  | _ => false

def lineDefine? (line : List Char) : Option WrittenDefine := (inputDefine? none line).map (·.1)

theorem lineDefine?_of_words {line : List Char} {directive name value : Word} {words : List Word}
    (h : wordsFrom true line = directive :: name :: value :: words) :
    lineDefine? line = define? directive name value := by
  have hbefore : startsLine none = true := rfl
  obtain ⟨rest, -, -, hread⟩ := inputDefine?_of_words hbefore h
  rw [lineDefine?, hread, Option.map_map]
  exact Option.map_id'

theorem lineDefine?_eq_none {line : List Char}
    (h : ∀ directive name value words, wordsFrom true line ≠ directive :: name :: value :: words) :
    lineDefine? line = none := by
  refine Option.map_eq_none_iff.mpr (Option.eq_none_iff_forall_ne_some.mpr fun read hread => ?_)
  obtain ⟨directive, name, value, words, hwords⟩ := exists_words_of_inputDefine? rfl hread
  exact h directive name value words hwords

/-- Where a line does not stop short, the next lines do not change what it defines. -/
theorem definesIn_line {line : List Char} (hline : '\n' ∉ line) (hshort : stopsShort line = false)
    (rest : List Word) :
    definesIn (wordsFrom true line ++ rest) = (lineDefine? line).toList ++ definesIn rest := by
  have hinner {word : Word} {words : List Word} (hwords : wordsFrom true line = word :: words) :
      definesIn (words ++ rest) = definesIn rest :=
    definesIn_inner_append (first_of_mem_tail hline hwords) rest
  rcases hwords : wordsFrom true line with _ | ⟨directive, _ | ⟨name, _ | ⟨value, words⟩⟩⟩
  · rw [lineDefine?_eq_none (by simp [hwords])]
    rfl
  · rw [stopsShort, hwords] at hshort
    have hkeyword := of_decide_eq_false hshort
    rw [lineDefine?_eq_none (by simp [hwords])]
    exact definesIn_skip fun _ _ _ _ => if_neg fun h => hkeyword h.2
  · rw [stopsShort, hwords] at hshort
    have hfield : directive.text = "#define".toList → namedField? name.text = none := by
      simpa only [Bool.and_eq_false_imp, decide_eq_true_eq, Option.isSome_eq_false_iff,
        Option.isNone_iff_eq_none] using hshort
    rw [lineDefine?_eq_none (by simp [hwords])]
    refine (definesIn_skip fun name' value _ h => ?_).trans (hinner hwords)
    obtain ⟨rfl, -⟩ := List.cons.inj h
    exact define?_eq_none_of_name hfield _
  · rw [lineDefine?_of_words hwords]
    cases hdefine : define? directive name value with
    | none =>
      refine (definesIn_skip fun name' value' _ h => ?_).trans (hinner hwords)
      obtain ⟨hname, h⟩ := List.cons.inj h
      rw [← hname, ← (List.cons.inj h).1]
      exact hdefine
    | some written =>
      have hbehind : ∀ word ∈ words, word.first = false := fun word hmem =>
        first_of_mem_tail hline hwords word (List.mem_cons_of_mem _ (List.mem_cons_of_mem _ hmem))
      exact (definesIn_some hdefine _).trans (congrArg _ (definesIn_inner_append hbehind rest))

def linesIn (text : List Char) : List (List Char) := text.splitOnP (· = '\n')

/-- Where no line stops short, each line defines what it does on its own. -/
theorem definesIn_lines (text : List Char) (hshort : ∀ line ∈ linesIn text, stopsShort line = false) :
    definesIn (wordsFrom true text) = (linesIn text).filterMap lineDefine? := by
  have hinside {line : List Char} (hline : ∀ c ∈ line, decide (c = '\n') = false) : '\n' ∉ line := fun hmem => by
    simpa using hline '\n' hmem
  unfold linesIn at hshort ⊢
  induction text using Text.splitOnP_induction with
  | last line hline =>
    have hdefines := definesIn_line (hinside hline) (hshort line List.mem_cons_self) []
    rw [List.append_nil] at hdefines
    rw [hdefines, List.filterMap_cons]
    cases lineDefine? line <;> rfl
  | cut line sep rest hline hsep ih =>
    rw [List.forall_mem_cons] at hshort
    rw [of_decide_eq_true hsep, wordsFrom_line, definesIn_line (hinside hline) hshort.1, ih hshort.2,
      List.filterMap_cons]
    cases lineDefine? line <;> rfl

/-! ## What a line defines -/

/-- A directive at the start of a line, the name of a field of an input and a value up to the next blank. -/
inductive LineDefines : List Char → Nat → InputField → String → Prop
  | intro {blanks gap digits space value : List Char} {field : InputField} (rest : List Char)
      (blank : ∀ c ∈ blanks, isBlank c = true) (apart : gap ≠ [] ∧ ∀ c ∈ gap, isBlank c = true)
      (numeral : IsNumeral 10 digits) (fits : magnitude 10 digits < 2 ^ 32)
      (apartValue : space ≠ [] ∧ ∀ c ∈ space, isBlank c = true)
      (word : value ≠ [] ∧ ∀ c ∈ value, isBlank c = false)
      (ends : EndsWord rest) :
      LineDefines (blanks ++ ("#define".toList ++ (gap ++ (definedName digits field ++ (space ++ (value ++ rest))))))
        (magnitude 10 digits) field (String.ofList value)

theorem numbered_lineDefine?_iff {line : List Char} {input : Nat} {field : InputField} {value : String} :
    (lineDefine? line).bind numbered? = some ((input, field), value) ↔ LineDefines line input field value := by
  constructor
  · intro h
    obtain ⟨written, hline, hnumbered⟩ := Option.bind_eq_some_iff.mp h
    obtain ⟨⟨⟨digits, field', value'⟩, rest⟩, hread, rfl⟩ := Option.map_eq_some_iff.mp hline
    obtain ⟨blanks, gap, space, rfl, hblank, hgap, hinput, hspace, hword, hends⟩ := exists_of_inputDefine? rfl hread
    obtain ⟨number, hnumber, he⟩ := Option.map_eq_some_iff.mp hnumbered
    cases he
    obtain ⟨hwritten, hfits⟩ := (unsigned?_eq_some_iff (by decide)).mp hnumber
    cases hwritten with
    | plain numeral => exact .intro rest hblank hgap numeral hfits hspace hword hends
    | plus => exact absurd (hinput.2 '+' List.mem_cons_self) (by decide +kernel)
  · rintro ⟨rest, hblank, hgap, hnumeral, hfits, hspace, hword, hends⟩
    have hinput := And.intro hnumeral.1 fun c hc => isDecimalDigit_of_weight (hnumeral.2 c hc)
    have hnumber := (unsigned?_eq_some_iff (by decide)).mpr ⟨.plain hnumeral, hfits⟩
    rw [lineDefine?, inputDefine?_append rfl hblank hgap hinput hspace hword hends, Option.map_some, Option.bind_some,
      numbered?, hnumber]
    rfl

/-! ## The table -/

/-- What the last line says of those that say something. -/
def LastSays {γ β : Type} (states : γ → β → Prop) (lines : List γ) (value : β) : Prop :=
  ∃ before line behind, lines = before ++ line :: behind ∧ states line value ∧
    ∀ other ∈ behind, ∀ value', ¬ states other value'

theorem lastSays_concat {γ β : Type} {states : γ → β → Prop} {lines : List γ} {line : γ} {value : β} :
    LastSays states (lines ++ [line]) value ↔
      states line value ∨ (∀ value', ¬ states line value') ∧ LastSays states lines value := by
  constructor
  · rintro ⟨before, last, behind, hlines, hlast, hbehind⟩
    rcases List.eq_nil_or_concat behind with rfl | ⟨behind, other, rfl⟩
    · obtain ⟨-, hline⟩ := List.append_inj' hlines rfl
      cases hline
      exact .inl hlast
    · rw [List.concat_eq_append] at hlines hbehind
      rw [← List.cons_append, ← List.append_assoc] at hlines
      obtain ⟨rfl, hline⟩ := List.append_inj' hlines rfl
      cases hline
      exact .inr ⟨hbehind line (by simp), before, last, behind, rfl, hlast,
        fun other hmem => hbehind other (by simp [hmem])⟩
  · rintro (hline | ⟨hline, before, last, behind, rfl, hlast, hbehind⟩)
    · exact ⟨lines, line, [], rfl, hline, List.forall_mem_nil _⟩
    · refine ⟨before, last, behind ++ [line], by simp, hlast, fun other hmem => ?_⟩
      rcases List.mem_append.mp hmem with hmem | hmem
      · exact hbehind other hmem
      · exact List.mem_singleton.mp hmem ▸ hline

section
variable {α β γ : Type} [BEq α] [LawfulBEq α] {read : γ → Option (α × β)} {key : α}

theorem lookup_reverse_eq_some_iff {value : β} (lines : List γ) :
    (lines.filterMap read).reverse.lookup key = some value ↔
      LastSays (fun line value => read line = some (key, value)) lines value := by
  induction lines using List.reverseRecOn with
  | nil => simp [LastSays]
  | append_singleton lines line ih =>
    rw [List.filterMap_append, List.reverse_append, lastSays_concat, ← ih]
    cases hline : read line with
    | none => simp [hline]
    | some entry =>
      obtain ⟨key', value'⟩ := entry
      by_cases hkey : key = key'
      · subst hkey
        simp [hline]
      · have hne : (key == key') = false := by simpa using hkey
        simp [hline, List.lookup_cons, hne, Ne.symm hkey]

theorem lookup_reverse_eq_none_iff (lines : List γ) :
    (lines.filterMap read).reverse.lookup key = none ↔
    ∀ line ∈ lines, ∀ value, read line ≠ some (key, value) := by
  rw [List.lookup_eq_none_iff]
  simp only [List.mem_reverse, List.mem_filterMap]
  constructor
  · intro h line hline value hread
    simpa using h _ ⟨line, hline, hread⟩
  · rintro h ⟨key', value⟩ ⟨line, hline, hread⟩
    by_contra hkey
    obtain rfl : key = key' := by simpa using hkey
    exact h line hline value hread

end

section
variable {block : List Char} {table : DefineTable} (hread : DefineTable.read? block = some table)
include hread

theorem defines_of_read? : table.defines = (definesIn (wordsFrom true block)).filterMap numbered? := by
  simp only [DefineTable.read?, Option.bind_eq_bind, Option.bind_eq_some_iff] at hread
  obtain ⟨first, -, count, -, htable⟩ := hread
  cases htable
  show (scan inputDefine? block).filterMap (numbered? ∘ fun m => m.value) = _
  rw [← List.filterMap_map, map_value_scan, readings_inputDefine?]
  rfl

variable (hshort : ∀ line ∈ linesIn block, stopsShort line = false)
include hshort

theorem defines_eq_lines : table.defines = (linesIn block).filterMap fun line => (lineDefine? line).bind numbered? := by
  rw [defines_of_read? hread, definesIn_lines block hshort, List.filterMap_filterMap]

theorem value?_eq_some_iff {input : Nat} {field : InputField} {value : String} :
    table.value? input field = some value ↔
      LastSays (fun line value => LineDefines line input field value) (linesIn block) value := by
  rw [DefineTable.value?, defines_eq_lines hread hshort, lookup_reverse_eq_some_iff]
  simp only [numbered_lineDefine?_iff]

theorem value?_eq_none_iff {input : Nat} {field : InputField} :
    table.value? input field = none ↔
      ∀ line ∈ linesIn block, ∀ value, ¬ LineDefines line input field value := by
  rw [DefineTable.value?, defines_eq_lines hread hshort, lookup_reverse_eq_none_iff]
  simp only [ne_eq, numbered_lineDefine?_iff]

end

theorem missingDefine_mem_iff {markers : BlockMarkers} {text : String} {table : DefineTable}
    (h : HoldsTable markers text table) (catalog : Catalog) {input : Nat} {field : InputField} :
    .missingDefine input field ∈ (checkConfigBlock catalog markers text).findings.faults ↔
      input < table.count ∧ table.value? input field = none := by
  show .missingDefine input field ∈ configFaults catalog markers text ↔ _
  simp only [configFaults_of_holdsTable h, List.mem_flatMap, List.mem_range]
  constructor
  · rintro ⟨about, hcount, hmem⟩
    cases (mem_inputFaults_iff catalog hcount).mp hmem with
    | missing hnone => exact ⟨hcount, hnone⟩
  · rintro ⟨hcount, hnone⟩
    exact ⟨input, hcount, (mem_inputFaults_iff catalog hcount).mpr (.missing hnone)⟩

/-- **Each define is read from its own line where no line stops short.** What is read are the defines among the words of
the block. If no line of it ends before the value of its define, every line gives what it does on its own, the last one
for a field counts, and a field is missing exactly when no line defines it. -/
theorem defines_read_by_lines {markers : BlockMarkers} {text : String} {before block after : Bytes}
    {table : DefineTable} (hlocate : MarkedBlock.locate markers (textBytes text) = .found before block after)
    (hread : DefineTable.read? (Utf8.decodeLossy block) = some table) :
    table.defines = (definesIn (wordsFrom true (Utf8.decodeLossy block))).filterMap numbered? ∧
      ((∀ line ∈ linesIn (Utf8.decodeLossy block), stopsShort line = false) →
        (table.defines = (linesIn (Utf8.decodeLossy block)).filterMap fun line => (lineDefine? line).bind numbered?) ∧
          ∀ input field,
            (∀ value, table.value? input field = some value ↔
              LastSays (fun line => LineDefines line input field) (linesIn (Utf8.decodeLossy block)) value) ∧
            ∀ catalog, .missingDefine input field ∈ (checkConfigBlock catalog markers text).findings.faults ↔
              input < table.count ∧ ∀ line ∈ linesIn (Utf8.decodeLossy block), ∀ value,
                ¬ LineDefines line input field value) := by
  refine ⟨defines_of_read? hread, fun hshort => ⟨defines_eq_lines hread hshort, fun input field =>
    ⟨fun value => value?_eq_some_iff hread hshort, fun catalog => ?_⟩⟩⟩
  rw [missingDefine_mem_iff ⟨before, block, after, hlocate, hread⟩, value?_eq_none_iff hread hshort]

def pinnedHeader (pin : String) : String :=
  "S\n#define NUM_CONFIGURED_INPUTS 1\n#define INPUT_0_PIN" ++ pin ++ "\n#define INPUT_0_SENSOR 0\nE\n"

/-- The pin and the sensor are read each from its own line, and an application is not defined. -/
theorem defines_read_by_lines_pinned :
    LastSays (fun line => LineDefines line 0 .pin) (linesIn (pinnedHeader " A0").toList) "A0" ∧
      ∀ catalog, .missingDefine 0 .application ∈
        (checkConfigBlock catalog letterMarkers (pinnedHeader " A0")).findings.faults := by
  have hlocate : MarkedBlock.locate letterMarkers (textBytes (pinnedHeader " A0")) =
      .found [] (textBytes (pinnedHeader " A0")) [] := rfl
  have hread : DefineTable.read? (pinnedHeader " A0").toList =
      some ⟨1, [((0, .pin), "A0"), ((0, .sensor), "0")]⟩ := rfl
  have hshort : ∀ line ∈ linesIn (pinnedHeader " A0").toList, stopsShort line = false := by decide +kernel
  rw [← Utf8.decodeLossy_textBytes] at hread hshort
  obtain ⟨-, hlines⟩ := defines_read_by_lines hlocate hread
  obtain ⟨-, hfields⟩ := hlines hshort
  obtain ⟨hpin, -⟩ := hfields 0 .pin
  rw [← Utf8.decodeLossy_textBytes]
  exact ⟨(hpin "A0").mp rfl, fun catalog => (missingDefine_mem_iff ⟨[], _, [], hlocate, hread⟩ catalog).mpr
    ⟨by decide, rfl⟩⟩

/-- A line with the name of a field and no value takes the directive behind it for its value. -/
theorem next_define_may_be_lost :
    ¬ ∀ (catalog : Catalog) (markers : BlockMarkers) (text : String) (before block after : Bytes)
        (table : DefineTable),
      MarkedBlock.locate markers (textBytes text) = .found before block after →
        DefineTable.read? (Utf8.decodeLossy block) = some table → ∀ input field,
          .missingDefine input field ∈ (checkConfigBlock catalog markers text).findings.faults ↔
            input < table.count ∧ ∀ line ∈ linesIn (Utf8.decodeLossy block), ∀ value,
              ¬ LineDefines line input field value := by
  intro h
  have hlocate : MarkedBlock.locate letterMarkers (textBytes (pinnedHeader "")) =
      .found [] (textBytes (pinnedHeader "")) [] := rfl
  have hread : DefineTable.read? (pinnedHeader "").toList = some ⟨1, [((0, .pin), "#define")]⟩ := rfl
  have hline : "#define INPUT_0_SENSOR 0".toList ∈ linesIn (pinnedHeader "").toList := by decide +kernel
  rw [← Utf8.decodeLossy_textBytes] at hread hline
  let catalog : Catalog := ⟨.empty Sensor, .empty Application, .empty DisplayUnit⟩
  have hmissing :
      .missingDefine 0 .sensor ∈ (checkConfigBlock catalog letterMarkers (pinnedHeader "")).findings.faults :=
    (missingDefine_mem_iff ⟨[], _, [], hlocate, hread⟩ catalog).mpr ⟨by decide, rfl⟩
  obtain ⟨-, hnone⟩ := (h catalog _ _ _ _ _ _ hlocate hread 0 .sensor).mp hmissing
  exact hnone _ hline "0" (numbered_lineDefine?_iff.mp rfl)

end FirmwareCatalog.ConfigBlock
