import FirmwareCatalog.Proofs.ConfigBlock.Lines
import FirmwareCatalog.Proofs.Header.Scan
import FirmwareCatalog.Proofs.Header.Token
import FirmwareCatalog.Validation.Defines

/-!
# The config block read back

Every line of the block is read by itself: the count from its line, a field of
an input from the line of this field, nothing from any other line. So the table
that is read holds the values that were written, up to their first blank.
-/

namespace FirmwareCatalog.ConfigBlock

open Character Header Numeral Text

/-! ## Readers of defines -/

section
variable {start : String} {before : Option Char}

theorem defineStart?_eq_none (h : startsLine before = false) (cs : List Char) :
    defineStart? start before cs = none := by
  simp [defineStart?, h]

theorem defineStart?_blank (hbefore : startsLine before = true) (cs : List Char) :
    defineStart? start before ('\n' :: cs) = defineStart? start (some '\n') cs := by
  have hskip : skipBlanks ('\n' :: cs) = skipBlanks cs := skipBlanks_cons (by decide) cs
  simp [defineStart?, hbefore, hskip, startsLine_newline]

theorem defineStart?_consumes {cs rest : List Char} (h : defineStart? start before cs = some rest) :
    ∃ taken, taken ≠ [] ∧ cs = taken ++ rest := by
  simp only [defineStart?, Option.bind_eq_bind] at h
  split at h
  · cases h
  · obtain ⟨afterDefine, hdefine, hrest⟩ := Option.bind_eq_some_iff.mp h
    obtain ⟨name, hblanks, hname⟩ := Option.bind_eq_some_iff.mp hrest
    obtain ⟨lead, hlead, -⟩ := exists_skipBlanks cs
    obtain ⟨blanks, hne, hafter, -⟩ := someBlanks?_eq_some hblanks
    refine ⟨lead ++ "#define".toList ++ blanks ++ start.toList, by simp, ?_⟩
    rw [hlead, text?_eq_some_iff.mp hdefine, hafter, text?_eq_some_iff.mp hname]
    simp only [List.append_assoc]

theorem defineStart?_define (hbefore : startsLine before = true) {cs : List Char}
    (hcs : StopsAt isBlank cs) :
    defineStart? start before ("#define ".toList ++ cs) = text? start cs := by
  have hskip : skipBlanks ("#define ".toList ++ cs) = "#define".toList ++ ' ' :: cs := by
    rw [skipBlanks_of_stopsAt (by simp; decide)]
    simp
  have hblank : someBlanks? (' ' :: cs) = some cs := by rw [someBlanks?_cons (by decide),
    skipBlanks_of_stopsAt hcs]
  simp only [defineStart?, hbefore, hskip, text?_append, hblank, Bool.not_true,
    Bool.false_eq_true, if_false,
    Option.bind_eq_bind, Option.bind_some]

theorem defineStart?_otherLine {c : Char} (hc : isBlank c = false) {cs : List Char}
    (h : text? "#define" (c :: cs) = none) : defineStart? start before (c :: cs) = none := by
  have hskip : skipBlanks (c :: cs) = c :: cs := skipBlanks_of_stopsAt ((stopsAt_cons _ _ _).mpr hc)
  simp only [defineStart?, hskip, h, Option.bind_eq_bind, Option.bind_none]
  split <;> rfl

end

/-! ## The count -/

theorem inputCount?_atLineStart : ReadsAtLineStart inputCount? := by
  intro before cs h
  simp [inputCount?, defineStart?_eq_none h]

theorem inputCount?_blank (before : Option Char) (rest : List Char) (h : startsLine before = true) :
    inputCount? before ('\n' :: rest) = inputCount? (some '\n') rest := by
  simp only [inputCount?, defineStart?_blank h]

theorem inputCount?_consumes : Consumes inputCount? := by
  intro before cs digits rest h
  simp only [inputCount?, Option.bind_eq_bind] at h
  obtain ⟨afterName, hname, h⟩ := Option.bind_eq_some_iff.mp h
  obtain ⟨afterBlanks, hblanks, h⟩ := Option.bind_eq_some_iff.mp h
  obtain ⟨⟨found, afterDigits⟩, hdigits, h⟩ := Option.bind_eq_some_iff.mp h
  simp only at h
  split at h
  · cases h
  · cases h
    obtain ⟨taken, hne, rfl⟩ := defineStart?_consumes hname
    obtain ⟨blanks, -, rfl, -⟩ := someBlanks?_eq_some hblanks
    obtain ⟨rfl, -⟩ := someOf?_eq_some hdigits
    exact ⟨taken ++ (blanks ++ digits), by simp [hne], by simp only [List.append_assoc]⟩

theorem stopsAt_decimal_append {p : Char → Bool} {n : Nat} (h : ∀ c ∈ decimal n, p c = false)
    (rest : List Char) :
    StopsAt p (decimal n ++ rest) :=
  StopsAt.append (decimal_ne_nil n) (fun c hc => h c (List.mem_of_mem_head? hc)) rest

theorem inputCount?_countLine {before : Option Char} (h : startsLine before = true) (count : Nat)
    (rest : List Char) :
    inputCount? before (countLine count ++ '\n' :: rest) = some (decimal count, '\n' :: rest) := by
  have hline : countLine count ++ '\n' :: rest =
      "#define ".toList ++
        ("NUM_CONFIGURED_INPUTS".toList ++ (' ' :: (decimal count ++ '\n' :: rest))) := by
    unfold countLine; simp
  have hname : defineStart? "NUM_CONFIGURED_INPUTS" before (countLine count ++ '\n' :: rest) =
      some (' ' :: (decimal count ++ '\n' :: rest)) := by
    have hstop : StopsAt isBlank "NUM_CONFIGURED_INPUTS".toList := by simp; decide
    rw [hline, defineStart?_define h (hstop.append (by simp) _), text?_append]
  have hblanks : someBlanks? (' ' :: (decimal count ++ '\n' :: rest)) =
      some (decimal count ++ '\n' :: rest) := by
    rw [someBlanks?_cons (by decide),
      skipBlanks_of_stopsAt (stopsAt_decimal_append isBlank_of_mem_decimal _)]
  have hdigits : Header.digits? (decimal count ++ '\n' :: rest) = some (decimal count, '\n' :: rest) :=
    someOf?_append isDecimalDigit_of_mem_decimal ((stopsAt_cons _ _ _).mpr (by decide))
      (decimal_ne_nil count)
  have hword : isWord '\n' = false := by decide
  simp [inputCount?, hname, hblanks, hdigits, hword]

theorem readsLines_countLine (count : Nat) :
    ReadsLines inputCount? [countLine count] [decimal count] := by
  have h := readsLines_value inputCount?_atLineStart
    (List.append_ne_nil_of_right_ne_nil _ (decimal_ne_nil count))
    (fitsLine_countLine count).1 List.not_mem_nil fun before rest hbefore =>
      inputCount?_countLine hbefore count rest
  rwa [List.append_nil] at h

/-! ## The fields of the inputs -/

theorem inputDefine?_atLineStart : ReadsAtLineStart inputDefine? := by
  intro before cs h
  simp [inputDefine?, defineStart?_eq_none h]

theorem inputDefine?_blank (before : Option Char) (rest : List Char) (h : startsLine before = true) :
    inputDefine? before ('\n' :: rest) = inputDefine? (some '\n') rest := by
  simp only [inputDefine?, defineStart?_blank h]

theorem inputField?_render (field : InputField) (rest : List Char) :
    inputField? (field.render.toList ++ rest) = some (field, rest) := by
  cases field <;> simp [inputField?, InputField.render, text?, after?]

theorem inputField?_eq_some {cs rest : List Char} {field : InputField}
    (h : inputField? cs = some (field, rest)) :
    cs = field.render.toList ++ rest := by
  unfold inputField? at h
  split at h
  · rename_i hpin
    cases h
    exact text?_eq_some_iff.mp hpin
  · rename_i happlication _
    cases h
    exact text?_eq_some_iff.mp happlication
  · rename_i hsensor _ _
    cases h
    exact text?_eq_some_iff.mp hsensor
  · cases h

theorem inputDefine?_consumes : Consumes inputDefine? := by
  intro before cs written rest h
  simp only [inputDefine?, Option.bind_eq_bind] at h
  obtain ⟨afterName, hname, h⟩ := Option.bind_eq_some_iff.mp h
  obtain ⟨⟨input, afterDigits⟩, hdigits, h⟩ := Option.bind_eq_some_iff.mp h
  obtain ⟨afterEdge, hedge, h⟩ := Option.bind_eq_some_iff.mp h
  obtain ⟨⟨field, afterField⟩, hfield, h⟩ := Option.bind_eq_some_iff.mp h
  obtain ⟨afterBlanks, hblanks, h⟩ := Option.bind_eq_some_iff.mp h
  obtain ⟨⟨value, afterValue⟩, hvalue, h⟩ := Option.bind_eq_some_iff.mp h
  cases h
  obtain ⟨taken, hne, rfl⟩ := defineStart?_consumes hname
  obtain ⟨rfl, -⟩ := someOf?_eq_some hdigits
  obtain rfl := text?_eq_some_iff.mp hedge
  obtain rfl := inputField?_eq_some hfield
  obtain ⟨blanks, -, rfl, -⟩ := someBlanks?_eq_some hblanks
  obtain ⟨rfl, -⟩ := someOf?_eq_some hvalue
  exact ⟨taken ++ (input ++ ("_".toList ++ (field.render.toList ++ (blanks ++ value)))), by simp [hne],
    by simp only [List.append_assoc]⟩

def firstWord (value : List Char) : List Char := value.takeWhile fun c => !isBlank c

theorem inputDefine?_fieldLine {before : Option Char} (h : startsLine before = true) (position : Nat)
    (field : InputField) {word tail : List Char} (hne : word ≠ [])
    (hword : ∀ c ∈ word, isBlank c = false)
    (htail : StopsAt (fun c => !isBlank c) tail) (rest : List Char) :
    inputDefine? before (fieldLine position field word ++ (tail ++ '\n' :: rest)) =
      some (⟨decimal position, field, word⟩, tail ++ '\n' :: rest) := by
  have hline : fieldLine position field word ++ (tail ++ '\n' :: rest) = "#define ".toList ++
      ("INPUT_".toList ++
      (decimal position ++
        ("_".toList ++ (field.render.toList ++ (' ' :: (word ++ (tail ++ '\n' :: rest))))))) := by
    unfold fieldLine; simp
  have hname : defineStart? "INPUT_" before (fieldLine position field word ++
      (tail ++ '\n' :: rest)) = some
      (decimal position ++
        ("_".toList ++ (field.render.toList ++ (' ' :: (word ++ (tail ++ '\n' :: rest)))))) := by
    have hstop : StopsAt isBlank "INPUT_".toList := by simp; decide
    rw [hline, defineStart?_define h (hstop.append (by simp) _), text?_append]
  have hdigits : Header.digits?
      (decimal position ++
        ("_".toList ++ (field.render.toList ++ (' ' :: (word ++ (tail ++ '\n' :: rest)))))) =
        some (decimal position, "_".toList ++
          (field.render.toList ++ (' ' :: (word ++ (tail ++ '\n' :: rest))))) := by
    have hstop : StopsAt isDecimalDigit "_".toList := by simp; decide
    exact someOf?_append isDecimalDigit_of_mem_decimal (hstop.append (by simp) _)
      (decimal_ne_nil position)
  have hblanks : someBlanks? (' ' :: (word ++ (tail ++ '\n' :: rest))) =
      some (word ++ (tail ++ '\n' :: rest)) := by
    rw [someBlanks?_cons (by decide), skipBlanks_of_stopsAt]
    exact StopsAt.append hne (fun c hc => hword c (List.mem_of_mem_head? hc)) _
  have hvalue : someOf? (fun c => !isBlank c) (word ++ (tail ++ '\n' :: rest)) =
      some (word, tail ++ '\n' :: rest) := by
    refine someOf?_append (fun c hc => by simp [hword c hc]) ?_ hne
    cases tail with
    | nil => exact (stopsAt_cons _ _ _).mpr (by decide)
    | cons c tail => exact (stopsAt_cons _ _ _).mpr ((stopsAt_cons _ _ _).mp htail)
  simp only [inputDefine?, hname, hdigits, text?_append, inputField?_render, hblanks, hvalue,
    Option.bind_eq_bind,
    Option.bind_some]
  rfl

theorem readsLines_fieldLine (position : Nat) (field : InputField) {value : List Char}
    (hvalue : FitsLine value)
    (hne : firstWord value ≠ []) :
    ReadsLines inputDefine? [fieldLine position field value]
      [⟨decimal position, field, firstWord value⟩] := by
  have hsplit : fieldLine position field value =
      fieldLine position field (firstWord value) ++ value.dropWhile fun c => !isBlank c := by
    unfold fieldLine
    rw [List.append_assoc _ (firstWord value), firstWord, List.takeWhile_append_dropWhile]
  have hnewline := (fitsLine_fieldLine position field hvalue).1
  rw [hsplit] at hnewline ⊢
  rw [List.mem_append, not_or] at hnewline
  refine readsLines_value inputDefine?_atLineStart ?_ hnewline.1 hnewline.2 fun before
    rest hbefore => ?_
  · unfold fieldLine
    simp
  · refine inputDefine?_fieldLine hbefore position field hne (fun c hc => ?_)
      (stopsAt_dropWhile _ value) rest
    simpa using List.mem_takeWhile_imp hc

/-! ## The other lines -/

def NoDefine (line : List Char) : Prop :=
  StopsAt isBlank line ∧ line ≠ [] ∧ ∀ rest, text? "#define" (line ++ rest) = none

theorem NoDefine.defineStart? {line : List Char} (h : NoDefine line) (start : String)
    (before : Option Char)
    (rest : List Char) : FirmwareCatalog.defineStart? start before (line ++ rest) = none := by
  obtain ⟨hstop, hne, hnone⟩ := h
  cases line with
  | nil => exact absurd rfl hne
  | cons c line => exact defineStart?_otherLine ((stopsAt_cons _ _ _).mp hstop) (hnone rest)

theorem NoDefine.inputCount? {line : List Char} (h : NoDefine line) (hline : '\n' ∉ line) :
    ReadsLines inputCount? [line] [] :=
  readsLines_other inputCount?_atLineStart h.2.1 hline fun before rest _ => by
    simp [FirmwareCatalog.inputCount?, h.defineStart?]

theorem NoDefine.inputDefine? {line : List Char} (h : NoDefine line) (hline : '\n' ∉ line) :
    ReadsLines inputDefine? [line] [] :=
  readsLines_other inputDefine?_atLineStart h.2.1 hline fun before rest _ => by
    simp [FirmwareCatalog.inputDefine?, h.defineStart?]

theorem NoDefine.all {lines : List (List Char)} (h : ∀ line ∈ lines, NoDefine line)
    (hlines : ∀ line ∈ lines, '\n' ∉ line) :
    ReadsLines FirmwareCatalog.inputCount? lines [] ∧
      ReadsLines FirmwareCatalog.inputDefine? lines [] := by
  induction lines with
  | nil => exact ⟨.nil, .nil⟩
  | cons line lines ih =>
    rw [List.forall_mem_cons] at h hlines
    obtain ⟨hcount, hdefine⟩ := ih h.2 hlines.2
    exact ⟨(h.1.inputCount? hlines.1).append hcount, (h.1.inputDefine? hlines.1).append hdefine⟩

theorem noDefine_note (line : List Char) : NoDefine ('/' :: line) :=
  ⟨(stopsAt_cons _ _ _).mpr (by decide), List.cons_ne_nil _ _, fun rest => by simp [text?, after?]⟩

theorem noDefine_start : NoDefine BlockMarkers.standard.start.toList := by
  show NoDefine "#ifdef USE_STATIC_CONFIG".toList
  exact ⟨by simp; decide, by simp, fun rest => by simp [text?, after?]⟩

theorem noDefine_stop : NoDefine BlockMarkers.standard.stop.toList := by
  show NoDefine "#endif // USE_STATIC_CONFIG".toList
  exact ⟨by simp; decide, by simp, fun rest => by simp [text?, after?]⟩

theorem readsLines_inputCount?_fieldLine (position : Nat) (field : InputField) {value : List Char}
    (hvalue : FitsLine value) : ReadsLines inputCount? [fieldLine position field value] [] := by
  refine readsLines_other inputCount?_atLineStart (by unfold fieldLine; simp)
    (fitsLine_fieldLine position field hvalue).1
    fun before rest hbefore => ?_
  have hline : fieldLine position field value ++ '\n' :: rest = "#define ".toList ++
      ("INPUT_".toList ++
      (decimal position ++
        ("_".toList ++ (field.render.toList ++ (' ' :: (value ++ '\n' :: rest)))))) := by
    unfold fieldLine; simp
  have hstop : StopsAt isBlank "INPUT_".toList := by simp; decide
  have hname : defineStart? "NUM_CONFIGURED_INPUTS" before (fieldLine position field value ++
      '\n' :: rest) = none := by
    rw [hline, defineStart?_define hbefore (hstop.append (by simp) _)]
    simp [text?, after?]
  simp [inputCount?, hname]

theorem readsLines_inputDefine?_countLine (count : Nat) :
    ReadsLines inputDefine? [countLine count] [] := by
  refine readsLines_other inputDefine?_atLineStart (by unfold countLine; simp)
    (fitsLine_countLine count).1
    fun before rest hbefore => ?_
  have hline : countLine count ++ '\n' :: rest =
      "#define ".toList ++
        ("NUM_CONFIGURED_INPUTS".toList ++ (' ' :: (decimal count ++ '\n' :: rest))) := by
    unfold countLine; simp
  have hstop : StopsAt isBlank "NUM_CONFIGURED_INPUTS".toList := by simp; decide
  have hname : defineStart? "INPUT_" before (countLine count ++ '\n' :: rest) = none := by
    rw [hline, defineStart?_define hbefore (hstop.append (by simp) _)]
    simp [text?, after?]
  simp [inputDefine?, hname]

/-! ## The block -/

def fieldValue (input : InputAssignment) : InputField → List Char
  | .pin => trim input.pin.toList
  | .application => decimal input.applicationIndex.toNat
  | .sensor => decimal input.sensorIndex.toNat

def allFields : List InputField := [.pin, .application, .sensor]

def definesFrom : Nat → List InputAssignment → List WrittenDefine
  | _, [] => []
  | position, input :: inputs =>
    allFields.map (fun field => ⟨decimal position, field, firstWord (fieldValue input field)⟩)
      ++ definesFrom (position + 1) inputs

theorem firstWord_decimal (n : Nat) : firstWord (decimal n) = decimal n := by
  refine List.takeWhile_eq_self_iff.mpr fun c hc => ?_
  simp [isBlank_of_mem_decimal c hc]

theorem linesOf_eq (position : Nat) (input : InputAssignment) :
    linesOf position input = [] :: noteLine position input.application input.sensor
      :: allFields.map fun field => fieldLine position field (fieldValue input field) := rfl

theorem firstWord_ne_nil {value : List Char} (hne : value ≠ []) (h : StopsAt isBlank value) :
    firstWord value ≠ [] := by
  cases value with
  | nil => exact absurd rfl hne
  | cons c value => simp [firstWord, (stopsAt_cons _ _ _).mp h]

section
variable {input : InputAssignment} (hpin : FitsLine (trim input.pin.toList))
    (hgiven : trim input.pin.toList ≠ [])

include hpin in
theorem fitsLine_fieldValue (field : InputField) : FitsLine (fieldValue input field) := by
  cases field with
  | pin => exact hpin
  | application => exact fitsLine_decimal _
  | sensor => exact fitsLine_decimal _

include hgiven in
theorem firstWord_fieldValue_ne_nil (field : InputField) :
    firstWord (fieldValue input field) ≠ [] := by
  cases field with
  | pin => exact firstWord_ne_nil hgiven (stopsAt_trim _)
  | application => exact (firstWord_decimal _).symm ▸ decimal_ne_nil _
  | sensor => exact (firstWord_decimal _).symm ▸ decimal_ne_nil _

include hpin hgiven in
theorem readsLines_fields (position : Nat) (fields : List InputField) :
    ReadsLines inputDefine? (fields.map fun field => fieldLine position field (fieldValue input field))
      (fields.map fun field => ⟨decimal position, field, firstWord (fieldValue input field)⟩) := by
  induction fields with
  | nil => exact .nil
  | cons field fields ih =>
    exact (readsLines_fieldLine position field (fitsLine_fieldValue hpin field)
      (firstWord_fieldValue_ne_nil hgiven field)).append ih

include hpin in
theorem readsLines_inputCount?_fields (position : Nat) (fields : List InputField) :
    ReadsLines inputCount?
      (fields.map fun field => fieldLine position field (fieldValue input field)) [] := by
  induction fields with
  | nil => exact .nil
  | cons field fields ih =>
    exact (readsLines_inputCount?_fieldLine position field (fitsLine_fieldValue hpin field)).append ih

end

/-- A block that reads back: its texts stand on their lines, every input has a pin, and positions fit 32 bits. -/
structure Readable (inputs : List InputAssignment)
    (ctx : GenerationContext) : Prop extends Plain inputs ctx where
  count : inputs.length < 2 ^ 32
  pinsGiven : ∀ input ∈ inputs, trim input.pin.toList ≠ []

theorem noDefine_noteLine (position : Nat) (application sensor : String) :
    NoDefine (noteLine position application sensor) := by
  unfold noteLine
  exact noDefine_note _

theorem readsLines_linesFrom {inputs : List InputAssignment}
    (happlication : ∀ input ∈ inputs, FitsLine input.application.toList)
    (hsensor : ∀ input ∈ inputs, FitsLine input.sensor.toList)
    (hpin : ∀ input ∈ inputs, FitsLine (trim input.pin.toList))
    (hgiven : ∀ input ∈ inputs, trim input.pin.toList ≠ []) :
    ∀ position, ReadsLines inputCount? (linesFrom position inputs) [] ∧
      ReadsLines inputDefine? (linesFrom position inputs) (definesFrom position inputs) := by
  induction inputs with
  | nil => exact fun _ => ⟨.nil, .nil⟩
  | cons input inputs ih =>
    intro position
    rw [List.forall_mem_cons] at happlication hsensor hpin hgiven
    obtain ⟨hcount, hdefines⟩ := ih happlication.2 hsensor.2 hpin.2 hgiven.2 (position + 1)
    have hnote := noDefine_noteLine position input.application input.sensor
    have hnoteLine := (fitsLine_noteLine position happlication.1 hsensor.1).1
    rw [linesFrom, definesFrom, linesOf_eq]
    exact ⟨((readsLines_empty inputCount?_consumes inputCount?_blank).append
      ((hnote.inputCount? hnoteLine).append
        (readsLines_inputCount?_fields hpin.1 position allFields))).append hcount,
      ((readsLines_empty inputDefine?_consumes inputDefine?_blank).append
        ((hnote.inputDefine? hnoteLine).append
        (readsLines_fields hpin.1 hgiven.1 position allFields))).append hdefines⟩

variable {inputs : List InputAssignment} {ctx : GenerationContext}

theorem toList_render (inputs : List InputAssignment) (ctx : GenerationContext) :
    (render inputs ctx .standard).toList =
      ofLines (BlockMarkers.standard.start.toList ::
        (innerLines inputs ctx ++ [BlockMarkers.standard.stop.toList])) := by
  have hnewline : "\n".toList = ['\n'] := rfl
  simp only [render, String.toList_append, toList_body, hnewline, ofLines_cons, ofLines_append,
    ofLines_nil,
    List.nil_append, List.append_assoc, List.cons_append]

theorem noDefine_headLines : ∀ line ∈ headLines ctx, NoDefine line := by
  unfold headLines rule bannerLine timestampLine
  simp [noDefine_note]

/-- The count and the defines of the inputs, in order, and nothing else. -/
theorem Plain.readings (h : Plain inputs ctx) (hgiven : ∀ input ∈ inputs, trim input.pin.toList ≠ []) :
    readings inputCount? none (render inputs ctx .standard).toList = [decimal inputs.length] ∧
      readings inputDefine? none (render inputs ctx .standard).toList = definesFrom 0 inputs := by
  have hhead : ∀ line ∈ headLines ctx, '\n' ∉ line := fun line hline =>
    (fitsLine_headLines h.version h.platform line hline).1
  obtain ⟨hheadCount, hheadDefine⟩ := NoDefine.all noDefine_headLines hhead
  obtain ⟨hcount, hdefine⟩ := readsLines_linesFrom h.applications h.sensors h.pins hgiven 0
  have hstart : '\n' ∉ BlockMarkers.standard.start.toList := by decide
  have hstop : '\n' ∉ BlockMarkers.standard.stop.toList := by decide
  have hemptyCount := readsLines_empty inputCount?_consumes inputCount?_blank
  have hemptyDefine := readsLines_empty inputDefine?_consumes inputDefine?_blank
  rw [toList_render, innerLines]
  constructor
  · have hinner := hheadCount.append (hemptyCount.append ((readsLines_countLine inputs.length).append
      (hcount.append hemptyCount)))
    exact ((noDefine_start.inputCount? hstart).append
      (hinner.append (noDefine_stop.inputCount? hstop))).readings
  · have hinner := hheadDefine.append
      (hemptyDefine.append ((readsLines_inputDefine?_countLine inputs.length).append
      (hdefine.append hemptyDefine)))
    have hblock :=
      (noDefine_start.inputDefine? hstart).append (hinner.append (noDefine_stop.inputDefine? hstop))
    simpa using hblock.readings

end FirmwareCatalog.ConfigBlock
