import FirmwareCatalog.CalibrationTable
import FirmwareCatalog.ConfigBlock
import FirmwareCatalog.Proofs.Elementwise
import FirmwareCatalog.Proofs.Table

/-!
# Complete calibration tables

A table has a section with all fields for every input with a calibration of its
own, or there is none and the error is about the first input that has to do
without. The loops over the inputs and over the fields of a layout both end with
their first error.
-/

namespace FirmwareCatalog

open Numeral

namespace CalibrationTable

/-! ## Fields -/

section

variable (c : Calibration)

def Unfilled (names : List String) : Prop := ∀ name ∈ names, c.params.find? name = none

instance (names : List String) : Decidable (Unfilled c names) :=
  inferInstanceAs (Decidable (∀ name ∈ names, c.params.find? name = none))

def Fills (names : List String) (value : JsonNumber) : Prop :=
  ∃ before name after, names = before ++ name :: after ∧ c.params.find? name = some value ∧ Unfilled c before

def IsFieldLine (field : String × List String) (line : String) : Prop :=
  ∃ value, Fills c field.2 value ∧ line = "    ." ++ field.1 ++ " = " ++ value.render ++ ",\n"

def fieldLine (field : String × List String) : Except String String :=
  match field.2.findSome? c.params.find? with
  | none => .error (field.2.head?.getD "")
  | some value => .ok ("    ." ++ field.1 ++ " = " ++ value.render ++ ",\n")

theorem fieldLines_eq_mapM (fields : List (String × List String)) :
    fieldLines c fields = (fields.mapM (fieldLine c)).map String.join := by
  induction fields with
  | nil => rfl
  | cons field fields ih =>
    rw [fieldLines, List.mapM_cons, fieldLine, ih]
    cases field.2.findSome? c.params.find? with
    | none => rfl
    | some value =>
      cases fields.mapM (fieldLine c) with
      | error e => rfl
      | ok lines => simp [bind, Except.bind, pure, Except.pure, Except.map, String.append_assoc]

variable {c}

theorem fieldLine_eq_ok_iff {field : String × List String} {line : String} :
    fieldLine c field = .ok line ↔ IsFieldLine c field line := by
  unfold fieldLine IsFieldLine Fills Unfilled
  simp only [← List.findSome?_eq_some_iff]
  cases field.2.findSome? c.params.find? with
  | none => simp
  | some value => simp [eq_comm]

theorem fieldLine_eq_error_iff {field : String × List String} {param : String} :
    fieldLine c field = .error param ↔ Unfilled c field.2 ∧ param = field.2.head?.getD "" := by
  unfold fieldLine Unfilled
  rw [← List.findSome?_eq_none_iff]
  cases field.2.findSome? c.params.find? with
  | none => simp [eq_comm]
  | some value => simp

end

section

variable {c : Calibration} {fields : List (String × List String)}

theorem exists_isFieldLine_iff {field : String × List String} :
    (∃ line, IsFieldLine c field line) ↔ ¬ Unfilled c field.2 := by
  simp only [← fieldLine_eq_ok_iff]
  constructor
  · intro ⟨line, hline⟩ hunfilled
    rw [fieldLine_eq_error_iff.mpr ⟨hunfilled, rfl⟩] at hline
    cases hline
  · intro hfilled
    cases h : fieldLine c field with
    | ok line => exact ⟨line, rfl⟩
    | error param => exact absurd (fieldLine_eq_error_iff.mp h).1 hfilled

theorem fieldLines_eq_ok_iff {text : String} : fieldLines c fields = .ok text ↔
    ∃ lines, List.Forall₂ (IsFieldLine c) fields lines ∧ text = String.join lines := by
  have hlines (lines : List String) :
      fields.mapM (fieldLine c) = .ok lines ↔ List.Forall₂ (IsFieldLine c) fields lines := by
    simp only [mapM_eq_ok_iff, fieldLine_eq_ok_iff]
  simp only [← hlines, fieldLines_eq_mapM]
  cases fields.mapM (fieldLine c) <;> simp [Except.map, eq_comm]

/-- What is missing is the first name of the first field that is not filled. -/
theorem fieldLines_eq_error_iff {param : String} : fieldLines c fields = .error param ↔
    ∃ filled field rest, fields = filled ++ field :: rest ∧ (∀ f ∈ filled, ¬ Unfilled c f.2) ∧
      Unfilled c field.2 ∧ param = field.2.head?.getD "" := by
  have herror : fieldLines c fields = .error param ↔ fields.mapM (fieldLine c) = .error param := by
    rw [fieldLines_eq_mapM]
    cases fields.mapM (fieldLine c) <;> simp [Except.map]
  simp only [herror, mapM_eq_error_iff, fieldLine_eq_ok_iff, exists_isFieldLine_iff, fieldLine_eq_error_iff]

end

theorem exists_mem_byType {type : String} {layout : CalibrationLayout}
    (h : CalibrationLayout.ofType? type = some layout) : ∃ name, (name, layout) ∈ CalibrationLayout.byType := by
  unfold CalibrationLayout.ofType? at h
  exact ⟨_, mem_of_lookup_eq_some h⟩

theorem fields_of_ofType? {type : String} {layout : CalibrationLayout}
    (h : CalibrationLayout.ofType? type = some layout) :
    (layout.fields.map (·.1)).Nodup ∧ ∀ field ∈ layout.fields, field.2 ≠ [] := by
  have hall : ∀ p ∈ CalibrationLayout.byType,
      (p.2.fields.map (·.1)).Nodup ∧ ∀ field ∈ p.2.fields, field.2 ≠ [] := by decide +kernel
  obtain ⟨name, hmem⟩ := exists_mem_byType h
  exact hall _ hmem

/-! ## Sections -/

/-- An input with a calibration of its own, at its position in the list. -/
structure Custom where
  position : Nat
  input : InputAssignment
  calibration : Calibration

def customsFrom (position : Nat) (inputs : List InputAssignment) : List Custom :=
  (inputs.zipIdx position).filterMap fun p => p.1.customCalibration?.map fun c => ⟨p.2, p.1, c⟩

def customs (inputs : List InputAssignment) : List Custom := customsFrom 0 inputs

/-- Such inputs have no section. -/
inductive Lacks (c : Calibration) : Prop
  | layout (unknown : CalibrationLayout.ofType? c.type = none)
  | parameter {layout : CalibrationLayout} {field : String × List String}
      (known : CalibrationLayout.ofType? c.type = some layout) (mem : field ∈ layout.fields)
      (unfilled : Unfilled c field.2)

/-- The error that is about an input. -/
inductive Stops (custom : Custom) : GenerateError → Prop
  | unknownType (unknown : CalibrationLayout.ofType? custom.calibration.type = none) :
      Stops custom (.unknownCalibrationType custom.input.idx.toNat custom.calibration.type)
  | missingParam {layout : CalibrationLayout} {filled rest : List (String × List String)} {field name : String}
      {names : List String} (known : CalibrationLayout.ofType? custom.calibration.type = some layout)
      (split : layout.fields = filled ++ (field, name :: names) :: rest)
      (before : ∀ f ∈ filled, ¬ Unfilled custom.calibration f.2)
      (unfilled : Unfilled custom.calibration (name :: names)) :
      Stops custom (.missingCalibrationParam custom.input.idx.toNat custom.calibration.type name)

/-- The constant of an input: its position is in the comment, the define and the name. -/
def sectionText (custom : Custom) (structName lines : String) : String :=
  "// Input " ++ decimalText custom.position ++ ": " ++ custom.input.application ++ " (" ++ custom.input.sensor ++
    ") - "
      ++ custom.calibration.type ++ "\n"
    ++ "#define INPUT_" ++ decimalText custom.position ++ "_CUSTOM_CALIBRATION\n"
    ++ "static const PROGMEM " ++ structName ++ " input_" ++ decimalText custom.position ++ "_custom_cal = \x7b\n"
    ++ lines ++ "\x7d;\n"

/-- The constant of an input with a line for each field of its layout, in the order of the struct. -/
def IsSection (custom : Custom) (text : String) : Prop :=
  ∃ layout lines, CalibrationLayout.ofType? custom.calibration.type = some layout ∧
    (layout.fields.map (·.1)).Nodup ∧ List.Forall₂ (IsFieldLine custom.calibration) layout.fields lines ∧
    text = sectionText custom layout.structName (String.join lines)

section

variable {custom : Custom}

theorem sectionOf_unknown (h : CalibrationLayout.ofType? custom.calibration.type = none) :
    sectionOf custom.position custom.input custom.calibration =
      .error (.unknownCalibrationType custom.input.idx.toNat custom.calibration.type) := by
  unfold sectionOf
  rw [h]

theorem sectionOf_known {layout : CalibrationLayout}
    (h : CalibrationLayout.ofType? custom.calibration.type = some layout) :
    sectionOf custom.position custom.input custom.calibration =
      match fieldLines custom.calibration layout.fields with
      | .error param =>
        .error (.missingCalibrationParam custom.input.idx.toNat custom.calibration.type param)
      | .ok lines => .ok (sectionText custom layout.structName lines) := by
  unfold sectionOf
  rw [h]
  rfl

theorem sectionOf_eq_ok_iff {text : String} :
    sectionOf custom.position custom.input custom.calibration = .ok text ↔ IsSection custom text := by
  constructor
  · intro h
    cases known : CalibrationLayout.ofType? custom.calibration.type with
    | none =>
      rw [sectionOf_unknown known] at h
      cases h
    | some layout =>
      rw [sectionOf_known known] at h
      cases joined : fieldLines custom.calibration layout.fields with
      | error param =>
        rw [joined] at h
        cases h
      | ok lines =>
        rw [joined] at h
        obtain ⟨lines, hlines, rfl⟩ := fieldLines_eq_ok_iff.mp joined
        exact ⟨layout, lines, known, (fields_of_ofType? known).1, hlines, (Except.ok.inj h).symm⟩
  · intro ⟨layout, lines, known, _, hlines, htext⟩
    rw [sectionOf_known known, fieldLines_eq_ok_iff.mpr ⟨lines, hlines, rfl⟩, htext]

theorem sectionOf_eq_error_iff {error : GenerateError} :
    sectionOf custom.position custom.input custom.calibration = .error error ↔ Stops custom error := by
  constructor
  · intro h
    cases known : CalibrationLayout.ofType? custom.calibration.type with
    | none =>
      rw [sectionOf_unknown known] at h
      cases h
      exact .unknownType known
    | some layout =>
      rw [sectionOf_known known] at h
      cases missing : fieldLines custom.calibration layout.fields with
      | ok lines =>
        rw [missing] at h
        cases h
      | error param =>
        rw [missing] at h
        cases h
        obtain ⟨filled, ⟨field, names⟩, rest, split, before, unfilled, rfl⟩ :=
          fieldLines_eq_error_iff.mp missing
        cases names with
        | nil =>
          have hne := (fields_of_ofType? known).2 (field, []) (by simp [split])
          exact absurd rfl hne
        | cons name names => exact .missingParam known split before unfilled
  · intro h
    cases h with
    | unknownType unknown => exact sectionOf_unknown unknown
    | missingParam known split before unfilled =>
      rw [sectionOf_known known, fieldLines_eq_error_iff.mpr ⟨_, _, _, split, before, unfilled, rfl⟩]
      rfl

theorem lacks_iff : Lacks custom.calibration ↔ ∃ error, Stops custom error := by
  constructor
  · intro h
    cases h with
    | layout unknown => exact ⟨_, .unknownType unknown⟩
    | @parameter layout field known mem unfilled =>
      cases h : sectionOf custom.position custom.input custom.calibration with
      | error e => exact ⟨e, sectionOf_eq_error_iff.mp h⟩
      | ok text =>
        obtain ⟨layout', lines, hlayout, -, hlines, -⟩ := sectionOf_eq_ok_iff.mp h
        rw [known] at hlayout
        cases hlayout
        obtain ⟨line, -, hline⟩ := exists_mem_of_forall₂ hlines field mem
        exact absurd unfilled (exists_isFieldLine_iff.mp ⟨line, hline⟩)
  · intro ⟨error, h⟩
    cases h with
    | unknownType unknown => exact .layout unknown
    | missingParam known split before unfilled => exact .parameter known (split ▸ List.mem_append_cons_self) unfilled

theorem exists_isSection_iff : (∃ text, IsSection custom text) ↔ ¬ Lacks custom.calibration := by
  rw [lacks_iff]
  simp only [← sectionOf_eq_ok_iff, ← sectionOf_eq_error_iff]
  cases sectionOf custom.position custom.input custom.calibration <;> simp

end

/-! ## Inputs -/

theorem sectionsFrom_eq_mapM (position : Nat) (inputs : List InputAssignment) :
    sectionsFrom position inputs =
      (customsFrom position inputs).mapM fun e => sectionOf e.position e.input e.calibration := by
  induction inputs generalizing position with
  | nil => rfl
  | cons input inputs ih =>
    rw [sectionsFrom, customsFrom, List.zipIdx_cons]
    cases custom : input.customCalibration? with
    | none =>
      rw [List.filterMap_cons_none (by rw [custom]; rfl)]
      exact ih (position + 1)
    | some c =>
      rw [List.filterMap_cons_some (by rw [custom]; rfl), List.mapM_cons]
      simp only
      rw [ih]
      rfl

section

variable {inputs : List InputAssignment} {ctx : GenerationContext}

theorem mem_customs_iff {custom : Custom} : custom ∈ customs inputs ↔
    inputs[custom.position]? = some custom.input ∧
      custom.input.customCalibration? = some custom.calibration := by
  unfold customs customsFrom
  rw [List.mem_filterMap]
  constructor
  · intro ⟨p, hp, hcustom⟩
    obtain ⟨c, hc, rfl⟩ := Option.map_eq_some_iff.mp hcustom
    exact ⟨List.mem_zipIdx_iff_getElem?.mp hp, hc⟩
  · intro ⟨hinput, hc⟩
    exact ⟨(custom.input, custom.position), List.mem_zipIdx_iff_getElem?.mpr hinput, by rw [hc]; rfl⟩

theorem customs_eq_nil_iff : customs inputs = [] ↔ ∀ input ∈ inputs, input.customCalibration? = none := by
  constructor
  · intro h input hmem
    obtain ⟨k, hk⟩ := List.mem_iff_getElem?.mp hmem
    cases hc : input.customCalibration? with
    | none => rfl
    | some c =>
      have hcustom : ⟨k, input, c⟩ ∈ customs inputs := mem_customs_iff.mpr ⟨hk, hc⟩
      rw [h] at hcustom
      cases hcustom
  · intro h
    apply List.eq_nil_iff_forall_not_mem.mpr
    intro custom hmem
    obtain ⟨hinput, hc⟩ := mem_customs_iff.mp hmem
    rw [h custom.input (List.mem_of_getElem? hinput)] at hc
    cases hc

theorem sections_eq_ok_iff {sections : List String} :
    sectionsFrom 0 inputs = .ok sections ↔ List.Forall₂ IsSection (customs inputs) sections := by
  simp only [sectionsFrom_eq_mapM, mapM_eq_ok_iff, sectionOf_eq_ok_iff, customs]

theorem sections_eq_error_iff {error : GenerateError} : sectionsFrom 0 inputs = .error error ↔
    ∃ before custom after, customs inputs = before ++ custom :: after ∧
      (∀ b ∈ before, ¬ Lacks b.calibration) ∧ Stops custom error := by
  simp only [sectionsFrom_eq_mapM, mapM_eq_error_iff, sectionOf_eq_ok_iff, sectionOf_eq_error_iff,
    exists_isSection_iff, customs]

/-! ## Tables -/

def opening (ctx : GenerationContext) : String :=
  "// Custom input calibrations for USE_STATIC_CONFIG builds\n"
    ++ ctx.banner ++ " at " ++ ctx.timestamp.render ++ "\n"
    ++ "// Do not edit by hand.\n\n"
    ++ "#ifndef " ++ guardName ++ "\n#define " ++ guardName ++ "\n\n"
    ++ "#include \"../sensor_types.h\"\n"

def closing : String := "\n#endif // " ++ guardName ++ "\n"

theorem page_eq (sections : List String) :
    page ctx sections = opening ctx ++ String.join (sections.map ("\n" ++ ·)) ++ closing := by
  unfold page opening closing
  simp only [String.append_assoc]

theorem render?_eq_error_iff {error : GenerateError} :
    render? inputs ctx = .error error ↔ sectionsFrom 0 inputs = .error error := by
  unfold render?
  cases sectionsFrom 0 inputs with
  | error e => simp [bind, Except.bind]
  | ok sections => simp [bind, Except.bind, pure, Except.pure]

theorem render?_eq_ok_iff {table : Option String} : render? inputs ctx = .ok table ↔
    ∃ sections, sectionsFrom 0 inputs = .ok sections ∧
      table = if sections.isEmpty then none else some (page ctx sections) := by
  unfold render?
  cases sectionsFrom 0 inputs with
  | error e =>
    constructor
    · intro h
      cases h
    · intro ⟨sections, h, _⟩
      cases h
  | ok sections =>
    constructor
    · intro h
      exact ⟨sections, rfl, (Except.ok.inj h).symm⟩
    · intro ⟨sections', h, htable⟩
      rw [htable, ← Except.ok.inj h]
      rfl

theorem exists_render?_error_iff :
    (∃ error, render? inputs ctx = .error error) ↔ ∃ custom ∈ customs inputs, Lacks custom.calibration := by
  simp only [render?_eq_error_iff]
  constructor
  · intro ⟨error, h⟩
    obtain ⟨before, custom, after, hsplit, -, hstops⟩ := sections_eq_error_iff.mp h
    exact ⟨custom, hsplit ▸ List.mem_append_cons_self, lacks_iff.mpr ⟨error, hstops⟩⟩
  · intro ⟨custom, hmem, hlacks⟩
    cases h : sectionsFrom 0 inputs with
    | error error => exact ⟨error, rfl⟩
    | ok sections =>
      obtain ⟨text, -, htext⟩ := exists_mem_of_forall₂ (sections_eq_ok_iff.mp h) custom hmem
      exact absurd hlacks (exists_isSection_iff.mp ⟨text, htext⟩)

theorem render?_eq_none_iff :
    render? inputs ctx = .ok none ↔ ∀ input ∈ inputs, input.customCalibration? = none := by
  rw [render?_eq_ok_iff, ← customs_eq_nil_iff]
  simp only [sections_eq_ok_iff]
  constructor
  · intro ⟨sections, hsections, hnone⟩
    cases sections with
    | nil => exact List.forall₂_nil_right_iff.mp hsections
    | cons text sections => cases hnone
  · intro hnil
    exact ⟨[], hnil ▸ .nil, rfl⟩

theorem render?_eq_some_iff {text : String} : render? inputs ctx = .ok (some text) ↔ customs inputs ≠ [] ∧
    ∃ sections, List.Forall₂ IsSection (customs inputs) sections ∧
      text = opening ctx ++ String.join (sections.map ("\n" ++ ·)) ++ closing := by
  simp only [render?_eq_ok_iff, sections_eq_ok_iff, ← page_eq]
  constructor
  · intro ⟨sections, hsections, htext⟩
    cases sections with
    | nil => cases htext
    | cons first sections =>
      refine ⟨?_, first :: sections, hsections, Option.some.inj htext⟩
      intro hnil
      rw [hnil] at hsections
      cases hsections
  · intro ⟨hne, sections, hsections, htext⟩
    refine ⟨sections, hsections, ?_⟩
    cases sections with
    | nil => exact absurd (List.forall₂_nil_right_iff.mp hsections) hne
    | cons first sections => exact congrArg some htext

end

/-! ## Positions -/

theorem inputsFrom_append (position : Nat) (front inputs : List InputAssignment) :
    ConfigBlock.inputsFrom position (front ++ inputs) =
      ConfigBlock.inputsFrom position front ++ ConfigBlock.inputsFrom (position + front.length) inputs := by
  induction front generalizing position with
  | nil => simp [ConfigBlock.inputsFrom]
  | cons input front ih =>
    rw [List.cons_append, ConfigBlock.inputsFrom, ConfigBlock.inputsFrom, ih, String.append_assoc, List.length_cons,
      Nat.add_assoc, Nat.add_comm 1]

theorem exists_render_eq (inputs : List InputAssignment) (ctx : GenerationContext) (markers : BlockMarkers) :
    ∃ head tail, ConfigBlock.render inputs ctx markers = head ++ (ConfigBlock.inputsFrom 0 inputs ++ tail) := by
  have regroup (start front lines stop newline : String) : start ++ (front ++ lines ++ newline) ++ stop ++ newline =
      (start ++ front) ++ (lines ++ (newline ++ stop ++ newline)) := by
    simp only [String.append_assoc]
  exact ⟨_, _, regroup _ _ _ _ _⟩

def pinLines (custom : Custom) : String :=
  "\n// Input " ++ decimalText custom.position ++ ": " ++ custom.input.application ++ " (" ++ custom.input.sensor ++
    ")\n"
    ++ "#define INPUT_" ++ decimalText custom.position ++ "_PIN " ++ Text.trimmed custom.input.pin ++ "\n"

theorem exists_inputLines_eq (custom : Custom) :
    ∃ tail, ConfigBlock.inputLines custom.position custom.input = pinLines custom ++ tail := by
  refine ⟨"#define INPUT_" ++ decimalText custom.position ++ "_APPLICATION "
      ++ decimalText custom.input.applicationIndex.toNat ++ "\n"
    ++ "#define INPUT_" ++ decimalText custom.position ++ "_SENSOR "
      ++ decimalText custom.input.sensorIndex.toNat ++ "\n", ?_⟩
  unfold ConfigBlock.inputLines pinLines
  simp only [String.append_assoc]

/-- A config block defines the pin of an input by the same position, behind the lines of the inputs before it. -/
def PinIsNumbered (inputs : List InputAssignment) (block : String) (custom : Custom) : Prop :=
  ∃ before after head tail, inputs = before ++ custom.input :: after ∧ before.length = custom.position ∧
    block = head ++ (ConfigBlock.inputsFrom 0 before ++ (pinLines custom ++ tail))

theorem pinIsNumbered {inputs : List InputAssignment} {custom : Custom} (h : custom ∈ customs inputs)
    (ctx : GenerationContext) (markers : BlockMarkers) :
    PinIsNumbered inputs (ConfigBlock.render inputs ctx markers) custom := by
  obtain ⟨front, behind, hsplit, hlength⟩ := exists_append_of_getElem? (mem_customs_iff.mp h).1
  obtain ⟨head, tail, hblock⟩ := exists_render_eq inputs ctx markers
  obtain ⟨rest, hlines⟩ := exists_inputLines_eq custom
  have hinputs : ConfigBlock.inputsFrom 0 inputs = ConfigBlock.inputsFrom 0 front ++
      (pinLines custom ++ (rest ++ ConfigBlock.inputsFrom (custom.position + 1) behind)) := by
    rw [hsplit, inputsFrom_append, hlength, Nat.zero_add, ConfigBlock.inputsFrom, hlines, String.append_assoc]
  rw [hinputs, String.append_assoc, String.append_assoc] at hblock
  exact ⟨_, _, head, _, hsplit, hlength, hblock⟩

/-! ## Complete or refused -/

/-- **A table is complete or refused.** There is an error just when an input with a calibration of its own has a type
without layout or a field none of whose parameters is there, and it is about the first such input. Else there is no
table just when there is no such input, and a table has a section for each of them, in order. They are numbered by
their positions among all inputs, as in the config block. -/
theorem table_complete_or_refused (inputs : List InputAssignment) (ctx : GenerationContext) :
    ((∃ error, render? inputs ctx = .error error) ↔ ∃ custom ∈ customs inputs, Lacks custom.calibration) ∧
    (∀ error, render? inputs ctx = .error error ↔
      ∃ before custom after, customs inputs = before ++ custom :: after ∧
        (∀ b ∈ before, ¬ Lacks b.calibration) ∧ Stops custom error) ∧
    (render? inputs ctx = .ok none ↔ ∀ input ∈ inputs, input.customCalibration? = none) ∧
    (∀ text, render? inputs ctx = .ok (some text) ↔ customs inputs ≠ [] ∧
      ∃ sections, List.Forall₂ IsSection (customs inputs) sections ∧
        text = opening ctx ++ String.join (sections.map ("\n" ++ ·)) ++ closing) ∧
    ∀ custom ∈ customs inputs, ∀ markers,
      PinIsNumbered inputs (ConfigBlock.render inputs ctx markers) custom := by
  refine ⟨exists_render?_error_iff, ?_, render?_eq_none_iff, fun text => render?_eq_some_iff,
    fun custom hcustom => pinIsNumbered hcustom ctx⟩
  intro error
  rw [render?_eq_error_iff, sections_eq_error_iff]

def linearSample : Calibration :=
  ⟨"linear", .custom, .ofList [("voltageMin", .integer 0), ("voltageMax", .integer 5), ("outputMin", .integer 1),
    ("pressureMin", .integer 2), ("outputMax", .integer 9)]⟩

theorem not_lacks_linearSample : ¬ Lacks linearSample := by
  have hlayout : CalibrationLayout.ofType? "linear" = some .linear := by rfl
  have hfilled : ∀ field ∈ CalibrationLayout.linear.fields, ¬ Unfilled linearSample field.2 := by decide +kernel
  intro h
  cases h with
  | layout unknown => exact absurd (hlayout.symm.trans unknown) (by simp)
  | parameter known mem unfilled =>
    obtain rfl := Option.some.inj (hlayout.symm.trans known)
    exact hfilled _ mem unfilled

def betaSample : Calibration :=
  ⟨"CAL_THERMISTOR_BETA", .custom, .ofList [("beta", .integer 3950), ("t0", .integer 25)]⟩

def sampleInput (idx : UInt32) (calibration : Option Calibration) : InputAssignment :=
  ⟨idx, "A1", "CHT", 1, "NTC", 2, calibration⟩

def sampleInputs : List InputAssignment :=
  [sampleInput 7 none, sampleInput 8 (some linearSample), sampleInput 9 (some betaSample)]

theorem table_complete_or_refused_beta :
    customs sampleInputs = [⟨1, sampleInput 8 (some linearSample), linearSample⟩,
      ⟨2, sampleInput 9 (some betaSample), betaSample⟩] ∧
    render? sampleInputs ⟨"1", "p", ⟨0⟩⟩ =
      .error (.missingCalibrationParam 9 "CAL_THERMISTOR_BETA" "biasResistor") ∧
    PinIsNumbered sampleInputs (ConfigBlock.render sampleInputs ⟨"1", "p", ⟨0⟩⟩ ⟨"#ifdef S", "#endif"⟩)
      ⟨1, sampleInput 8 (some linearSample), linearSample⟩ := by
  have hcustoms : customs sampleInputs = [⟨1, sampleInput 8 (some linearSample), linearSample⟩,
      ⟨2, sampleInput 9 (some betaSample), betaSample⟩] := rfl
  obtain ⟨-, herror, -, -, hpins⟩ := table_complete_or_refused sampleInputs ⟨"1", "p", ⟨0⟩⟩
  refine ⟨hcustoms, (herror _).mpr ⟨[_], _, [], hcustoms, ?_, ?_⟩, hpins _ ?_ _⟩
  · simpa using not_lacks_linearSample
  · have known : CalibrationLayout.ofType? "CAL_THERMISTOR_BETA" = some .beta := by rfl
    refine .missingParam known (List.nil_append _).symm nofun ?_
    decide +kernel
  · rw [hcustoms]
    exact List.mem_cons_self

end CalibrationTable

end FirmwareCatalog
