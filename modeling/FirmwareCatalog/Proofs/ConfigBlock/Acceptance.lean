import FirmwareCatalog.Proofs.ConfigBlock.Reading
import FirmwareCatalog.Proofs.MarkedBlock.Text
import FirmwareCatalog.Proofs.Table
import FirmwareCatalog.Validation.Basic
import Mathlib.Data.List.Nodup

/-!
# Admitted inputs pass the check

The table that is read off a generated block answers for every input what was
written for it. Inputs that select existing entries, on pins that differ in
their first words, are then found without fault.
-/

namespace FirmwareCatalog.ConfigBlock

open Numeral Text Validation

/-! ## The table -/

def fieldText (input : InputAssignment) (field : InputField) : String :=
  String.ofList (firstWord (fieldValue input field))

def tableFrom : Nat → List InputAssignment → List ((Nat × InputField) × String)
  | _, [] => []
  | position, input :: inputs =>
    allFields.map (fun field => ((position, field), fieldText input field)) ++ tableFrom
      (position + 1) inputs

def tableOf (inputs : List InputAssignment) : DefineTable := ⟨inputs.length, tableFrom 0 inputs⟩

/-- A define with the number of its input, unless that number is too large. -/
def numbered? (written : WrittenDefine) : Option ((Nat × InputField) × String) :=
  (unsigned? 32 10 written.input).map fun input =>
    ((input, written.field), String.ofList written.value)

theorem filterMap_definesFrom (inputs : List InputAssignment) :
    ∀ position, position + inputs.length ≤ 2 ^ 32 →
    (definesFrom position inputs).filterMap numbered? = tableFrom position inputs := by
  induction inputs with
  | nil => exact fun _ _ => rfl
  | cons input inputs ih =>
    intro position hposition
    rw [List.length_cons] at hposition
    have hread : unsigned? 32 10 (decimal position) = some position := unsigned?_decimal (by omega)
    rw [definesFrom, tableFrom, List.filterMap_append, ih (position + 1) (by omega),
      List.filterMap_map]
    congr 1
    simp [allFields, numbered?, hread, fieldText]

section
variable {inputs : List InputAssignment} {ctx : GenerationContext}

theorem Plain.inputCount (h : Plain inputs ctx) (hgiven : ∀ input ∈ inputs, trim input.pin.toList ≠ []) :
    ((Header.scan inputCount? (render inputs ctx .standard).toList).head?).map (·.value) =
      some (decimal inputs.length) := by
  rw [← List.head?_map, Header.map_value_scan, (h.readings hgiven).1, List.head?_cons]

/-- More inputs than a count of 32 bits can say are none that can be checked. -/
theorem Plain.read?_eq_none (h : Plain inputs ctx) (hgiven : ∀ input ∈ inputs, trim input.pin.toList ≠ [])
    (hcount : 2 ^ 32 ≤ inputs.length) :
    DefineTable.read? (render inputs ctx .standard).toList = none := by
  obtain ⟨first, hscan, hvalue⟩ := Option.map_eq_some_iff.mp (h.inputCount hgiven)
  have hread : unsigned? 32 10 first.value = none := hvalue ▸ unsigned?_decimal_eq_none hcount
  simp only [DefineTable.read?, hscan, hread, Option.bind_eq_bind, Option.bind_some, Option.bind_none]

theorem Readable.read? (h : Readable inputs ctx) :
    DefineTable.read? (render inputs ctx .standard).toList = some (tableOf inputs) := by
  obtain ⟨first, hscan, hvalue⟩ := Option.map_eq_some_iff.mp (h.inputCount h.pinsGiven)
  have hread : unsigned? 32 10 first.value = some inputs.length := hvalue ▸ unsigned?_decimal h.count
  have htable :
      (Header.scan inputDefine? (render inputs ctx .standard).toList).filterMap
      (fun m => numbered? m.value) =
      tableFrom 0 inputs := by
    rw [← filterMap_definesFrom inputs 0 (by have := h.count; omega), ← (h.readings h.pinsGiven).2,
      ← Header.map_value_scan,
      List.filterMap_map]
    rfl
  simp only [DefineTable.read?, hscan, hread, Option.bind_eq_bind, Option.bind_some]
  exact congrArg (fun defines : List ((Nat × InputField) × String) =>
    some (DefineTable.mk inputs.length defines)) htable

end

/-! ## Looking up -/

theorem mem_tableFrom_iff {inputs : List InputAssignment} :
    ∀ {position index : Nat} {field : InputField} {text : String},
    ((index, field), text) ∈ tableFrom position inputs ↔
      ∃ offset input, index = position + offset ∧ inputs[offset]? = some input ∧
        text = fieldText input field := by
  induction inputs with
  | nil => simp [tableFrom]
  | cons input inputs ih =>
    intro position index field text
    rw [tableFrom, List.mem_append, ih]
    constructor
    · rintro (h | ⟨offset, other, rfl, hother, rfl⟩)
      · obtain ⟨f, -, hf⟩ := List.mem_map.mp h
        cases hf
        exact ⟨0, input, rfl, rfl, rfl⟩
      · exact ⟨offset + 1, other, by omega, by simpa using hother, rfl⟩
    · rintro ⟨offset, other, rfl, hother, rfl⟩
      cases offset with
      | zero =>
        cases hother
        exact .inl (List.mem_map.mpr ⟨field, by cases field <;> decide, rfl⟩)
      | succ offset => exact .inr ⟨offset, other, by omega, by simpa using hother, rfl⟩

theorem lookup_eq_some_iff_mem {α β : Type} [BEq α] [LawfulBEq α] {entries : List (α × β)}
    {key : α} {value : β}
    (h : ∀ v w, (key, v) ∈ entries → (key, w) ∈ entries → v = w) :
    entries.lookup key = some value ↔ (key, value) ∈ entries := by
  refine ⟨mem_of_lookup_eq_some, fun hmem => ?_⟩
  cases hl : entries.lookup key with
  | none =>
    have hnone := List.lookup_eq_none_iff.mp hl _ hmem
    simp at hnone
  | some other => rw [h other value (mem_of_lookup_eq_some hl) hmem]

/-- No two defines of the block have the same name, so each answers for its own. -/
theorem value?_tableOf {inputs : List InputAssignment} {index : Nat} {field : InputField}
    {text : String} :
    (tableOf inputs).value? index field = some text ↔
      ∃ input, inputs[index]? = some input ∧ text = fieldText input field := by
  have hmem (text : String) : ((index, field), text) ∈ (tableFrom 0 inputs).reverse ↔
      ∃ input, inputs[index]? = some input ∧ text = fieldText input field := by
    rw [List.mem_reverse, mem_tableFrom_iff]
    simp
  rw [← hmem]
  refine lookup_eq_some_iff_mem fun v w hv hw => ?_
  obtain ⟨input, hinput, rfl⟩ := (hmem v).mp hv
  obtain ⟨input', hinput', rfl⟩ := (hmem w).mp hw
  rw [hinput, Option.some.injEq] at hinput'
  rw [hinput']

theorem value?_of_getElem? {inputs : List InputAssignment} {index : Nat} {input : InputAssignment}
    (h : inputs[index]? = some input) (field : InputField) :
    (tableOf inputs).value? index field = some (fieldText input field) :=
  value?_tableOf.mpr ⟨input, h, rfl⟩

theorem fieldText_application (input : InputAssignment) :
    fieldText input .application = decimalText input.applicationIndex.toNat :=
  congrArg String.ofList (firstWord_decimal _)

theorem fieldText_sensor (input : InputAssignment) :
    fieldText input .sensor = decimalText input.sensorIndex.toNat :=
  congrArg String.ofList (firstWord_decimal _)

theorem readIndex?_decimalText (n : UInt32) : readIndex? (decimalText n.toNat) = some n.toNat := by
  rw [readIndex?, toList_decimalText]
  exact unsigned?_decimal n.toNat_lt

/-! ## Faults -/

section
variable {catalog : Catalog} {inputs : List InputAssignment} {index : Nat} {input : InputAssignment}
  (hinput : inputs[index]? = some input)
include hinput

theorem missingFaults_tableOf : missingFaults (tableOf inputs) index = [] := by
  simp [missingFaults, value?_of_getElem? hinput]

theorem malformedFaults_tableOf :
    [InputField.application, .sensor].filterMap (malformedFault? (tableOf inputs) index) = [] := by
  simp [malformedFault?, value?_of_getElem? hinput, fieldText_application, fieldText_sensor,
    readIndex?_decimalText]

theorem unknownIndex?_tableOf {E : Type} [CatalogEntry E] {registry : Registry E}
    {field : InputField} {n : UInt32}
    (htext : fieldText input field = decimalText n.toNat) (hexists : (registry.get? n.toNat).isSome) :
    unknownIndex? (tableOf inputs) registry index field = none := by
  have hsome : registry.get? n.toNat ≠ none := Option.isSome_iff_ne_none.mp hexists
  simp [unknownIndex?, value?_of_getElem? hinput, htext, readIndex?_decimalText, hsome]

theorem duplicatePinFault?_tableOf (hapart : (inputs.map fun i => fieldText i .pin).Nodup) :
    duplicatePinFault? (tableOf inputs).pins index (fieldText input .pin) = none := by
  unfold duplicatePinFault?
  cases hfirst : (tableOf inputs).pins.lookup (fieldText input .pin) with
  | none => rfl
  | some first =>
    obtain ⟨i, -, hi⟩ := List.mem_filterMap.mp (mem_of_lookup_eq_some hfirst)
    obtain ⟨pin, hpin, he⟩ := Option.map_eq_some_iff.mp hi
    cases he
    obtain ⟨input', hinput', hsame⟩ := value?_tableOf.mp hpin
    have hget {k : Nat} {a : InputAssignment} (h : inputs[k]? = some a) :
        (inputs.map fun i => fieldText i .pin)[k]? = some (fieldText a .pin) := by simp [h]
    have hnotBefore : ¬ first < index := by
      intro hlt
      have hindex : index < (inputs.map fun i => fieldText i .pin).length := by
        simpa using (List.getElem?_eq_some_iff.mp hinput).1
      refine List.nodup_iff_getElem?_ne_getElem?.mp hapart first index hlt hindex ?_
      rw [hget hinput', hget hinput, hsame]
    rw [Option.bind_some, if_neg hnotBefore]

end

theorem validateInputs_faults_eq_nil_iff {catalog : Catalog} {inputs : List InputAssignment} :
    (catalog.validateInputs inputs).faults = [] ↔
      ∀ input ∈ inputs, inputPinFault? catalog.sensors input = none ∧
        (assignmentFindings catalog input).faults = [] := by
  have hfaults : (catalog.validateInputs inputs).faults =
      inputs.filterMap (inputPinFault? catalog.sensors) ++
        inputs.flatMap fun input => (assignmentFindings catalog input).faults := by
    simp [Catalog.validateInputs, Report.faults, checkPins, checkAssignments, Findings.ofFaults, Findings.forEach]
  rw [hfaults, List.append_eq_nil_iff, List.filterMap_eq_nil_iff, List.flatMap_eq_nil_iff]
  exact forall₂_and.symm

theorem get?_isSome_of_validateInputs {catalog : Catalog} {inputs : List InputAssignment}
    (h : (catalog.validateInputs inputs).faults = []) : ∀ input ∈ inputs,
    (catalog.applications.get? input.applicationIndex.toNat).isSome ∧
      (catalog.sensors.get? input.sensorIndex.toNat).isSome := by
  intro input hinput
  have hfindings : (assignmentFindings catalog input).faults = [] :=
    (validateInputs_faults_eq_nil_iff.mp h input hinput).2
  have happend : (assignmentFindings catalog input).faults =
      (selectionFindings input (.unknownApplication input.idx.toNat input.applicationIndex.toNat)
        (catalog.applications.get? input.applicationIndex.toNat)).faults ++
      (selectionFindings input (.unknownSensor input.idx.toNat input.sensorIndex.toNat)
        (catalog.sensors.get? input.sensorIndex.toNat)).faults := rfl
  have hsome {E : Type} [CatalogEntry E] {unknown : Fault} {entry : Option E}
      (he : (selectionFindings input unknown entry).faults = []) : entry.isSome := by
    cases entry with
    | none => cases he
    | some e => rfl
  rw [happend, List.append_eq_nil_iff] at hfindings
  exact ⟨hsome hfindings.1, hsome hfindings.2⟩

theorem Readable.blockFaults {catalog : Catalog} {inputs : List InputAssignment}
    {ctx : GenerationContext}
    (h : Readable inputs ctx) (hgate : (catalog.validateInputs inputs).faults = [])
    (hapart : (inputs.map fun i => fieldText i .pin).Nodup) :
    blockFaults catalog (render inputs ctx .standard).toList = [] := by
  rw [Validation.blockFaults, h.read?]
  refine List.flatMap_eq_nil_iff.mpr fun index hindex => ?_
  obtain ⟨input, hinput⟩ : ∃ input, inputs[index]? = some input :=
    ⟨_, List.getElem?_eq_getElem (List.mem_range.mp hindex)⟩
  obtain ⟨happlication, hsensor⟩ :=
    get?_isSome_of_validateInputs hgate input (List.mem_of_getElem? hinput)
  have hpin :
      ((tableOf inputs).value? index .pin).bind (duplicatePinFault? (tableOf inputs).pins index) =
      none := by
    rw [value?_of_getElem? hinput, Option.bind_some, duplicatePinFault?_tableOf hinput hapart]
  have happlication' := unknownIndex?_tableOf hinput (fieldText_application input) happlication
  have hsensor' := unknownIndex?_tableOf hinput (fieldText_sensor input) hsensor
  simp [inputFaults, missingFaults_tableOf hinput, hpin, malformedFaults_tableOf hinput,
    happlication', hsensor']

/-! ## In the header -/

open MarkedBlock

/-- A header into which the block of plain inputs is spliced is a text of which the check reads that block. -/
theorem Plain.exists_text {inputs : List InputAssignment} {ctx : GenerationContext}
    (h : Plain inputs ctx)
    {header : String} {spliced : Spliced}
    (hsplice : splice .standard (textBytes (render inputs ctx .standard)) (textBytes header) =
      .ok spliced) :
    ∃ text : String, textBytes text = spliced.text ∧ ∀ catalog,
      (checkConfigBlock catalog .standard text).findings.faults =
        blockFaults catalog (render inputs ctx .standard).toList := by
  have hstart : newline ∉ textBytes BlockMarkers.standard.start :=
    notMem_newline_textBytes (by decide)
  obtain ⟨before, after, hsurroundings, hspliced⟩ := exists_surroundings?_of_splice hsplice
  obtain ⟨b, a, rfl, rfl⟩ :=
    exists_chars_of_surroundings? hstart (by decide) (by decide) hsurroundings
  have hbytes : textBytes (String.ofList (b ++ (render inputs ctx .standard).toList ++ a)) =
      Utf8.encode b ++ textBytes (render inputs ctx .standard) ++ Utf8.encode a := by
    rw [textBytes, String.toList_ofList, Utf8.encode_append, Utf8.encode_append]
    rfl
  refine ⟨_, hbytes.trans hspliced.symm, fun catalog => ?_⟩
  simp only [checkConfigBlock, Findings.ofFaults, configFaults, hbytes,
    locate_spliced hstart hsurroundings h.delimited]
  rw [textBytes, Utf8.decodeLossy_encode]

/-- **What the gate admits and the generator writes, the check accepts.** For inputs that pass validation, with
texts that stand on their lines and pins that differ in their first words, a header into which their block is
spliced is a text in which the check finds no fault. -/
theorem spliced_block_accepted (catalog : Catalog) (inputs : List InputAssignment)
    (ctx : GenerationContext)
    (hreadable : Readable inputs ctx) (hapart : (inputs.map fun i => fieldText i .pin).Nodup)
    (hgate : (catalog.validateInputs inputs).faults = []) (header : String) (spliced : Spliced)
    (hsplice : splice .standard (textBytes (render inputs ctx .standard)) (textBytes header) =
      .ok spliced) :
    ∃ text : String, textBytes text = spliced.text ∧
      (checkConfigBlock catalog .standard text).findings.faults = [] := by
  obtain ⟨text, htext, hfaults⟩ := hreadable.exists_text hsplice
  exact ⟨text, htext, by rw [hfaults, hreadable.blockFaults hgate hapart]⟩

/-! ## The bus -/

def busCatalog : Catalog :=
  let record (index : Nat) (fields : List (String × FieldValue)) : EntryRecord :=
    ⟨index, Table.ofList fields, [], "", .structLiteral, true⟩
  { sensors := ⟨[
      .ofRecord (record 0 [("name", .string "BMP280"), ("nameHash", .int 0x977E),
        ("measurementType", .raw "PRESSURE"),
        ("pinTypeRequirement", .raw "PIN_I2C")]),
      .ofRecord (record 1 [("name", .string "MAX6675"), ("nameHash", .int 0x2A23),
        ("measurementType", .raw "TEMPERATURE"),
        ("pinTypeRequirement", .raw "PIN_DIGITAL")])], .empty, "", ""⟩
    applications := ⟨[.ofRecord (record 1 [("name", .string "CABIN"), ("nameHash", .int 0x3102),
      ("expectedMeasurementType", .raw "PRESSURE"), ("defaultSensor", .int 0)])], .empty, "", ""⟩
    units := .empty _ }

def busContext : GenerationContext := ⟨"0.3.0", "atmega2560", ⟨0⟩⟩

def onBus (idx : UInt32) : InputAssignment := ⟨idx, "I2C", "CABIN", 1, "BMP280", 0, none⟩

def onDigital (idx : UInt32) : InputAssignment := ⟨idx, " 6 ", "CABIN", 1, "MAX6675", 1, none⟩

def mixedPins : List InputAssignment := [onBus 0, onDigital 1]

theorem splice_emptyHeader (block : Bytes) :
    splice .standard block (textBytes "") = .ok ⟨block, false⟩ := by
  have habsent : locate .standard (textBytes "") = .absent := rfl
  rw [splice, habsent]
  rfl

theorem spliced_block_accepted_bus :
    Readable mixedPins busContext ∧ (mixedPins.map fun i => fieldText i .pin).Nodup ∧
      (busCatalog.validateInputs mixedPins).faults = [] ∧ ∃ spliced,
        splice .standard (textBytes (render mixedPins busContext .standard))
          (textBytes "") = .ok spliced ∧
          ∃ text : String, textBytes text = spliced.text ∧
            (checkConfigBlock busCatalog .standard text).findings.faults = [] := by
  have hreadable : Readable mixedPins busContext := by
    refine ⟨⟨?_, ?_, ?_, ?_, ?_⟩, by decide, by decide⟩ <;> unfold FitsLine <;>
      decide
  have hapart : (mixedPins.map fun i => fieldText i .pin).Nodup := by decide
  have hgate : (busCatalog.validateInputs mixedPins).faults = [] := by decide
  have haccepted := spliced_block_accepted busCatalog mixedPins busContext hreadable hapart hgate "" _
    (splice_emptyHeader _)
  exact ⟨hreadable, hapart, hgate, _, splice_emptyHeader _, haccepted⟩

/-! ## Blocks that are refused -/

/-- Inputs that pass validation, and a context without line feeds, with a block in which the check finds a fault. -/
def Refused (inputs : List InputAssignment) (ctx : GenerationContext) : Prop :=
  busCatalog.validate.faults = [] ∧ (busCatalog.validateInputs inputs).faults = [] ∧
    '\n' ∉ ctx.toolVersion.toList ∧ '\n' ∉ ctx.platform.toList ∧ ∃ spliced,
      splice .standard (textBytes (render inputs ctx .standard)) (textBytes "") = .ok spliced ∧
        ∃ text : String, textBytes text = spliced.text ∧
          (checkConfigBlock busCatalog .standard text).findings.faults ≠ []

def faultsOf (text : List Char) : List Fault :=
  match locate .standard (Utf8.encode text) with
  | .found _ block _ => blockFaults busCatalog (Utf8.decodeLossy block)
  | .unterminated before =>
    [.unterminatedBlock BlockMarkers.standard.start BlockMarkers.standard.stop ((lines before).length + 1)]
  | .absent => [.missingBlock BlockMarkers.standard.start]

theorem refused_of_lines {inputs : List InputAssignment} {ctx : GenerationContext}
    (hgate : (busCatalog.validateInputs inputs).faults = [])
    (hversion : '\n' ∉ ctx.toolVersion.toList) (hplatform : '\n' ∉ ctx.platform.toList)
    (hfaults : faultsOf (ofLines (BlockMarkers.standard.start.toList ::
      (innerLines inputs ctx ++ [BlockMarkers.standard.stop.toList]))) ≠ []) : Refused inputs ctx := by
  have hsplice (text : String) : ∃ spliced,
      splice .standard (textBytes text) (textBytes "") = .ok spliced ∧ textBytes text = spliced.text :=
    ⟨_, splice_emptyHeader _, rfl⟩
  have hcheck (text : String) :
      (checkConfigBlock busCatalog .standard text).findings.faults = faultsOf text.toList := rfl
  obtain ⟨spliced, hspliced, htext⟩ := hsplice (render inputs ctx .standard)
  refine ⟨by decide, hgate, hversion, hplatform, spliced, hspliced, _, htext, ?_⟩
  rwa [hcheck, toList_render]

/-- Any number of inputs can be on one pin, and the check can read only so many. -/
theorem refused_replicate {count : Nat} (hcount : 2 ^ 32 ≤ count) :
    Refused (List.replicate count (onDigital 0)) busContext := by
  have hplain : Plain [onDigital 0] busContext := by
    refine ⟨?_, ?_, ?_, ?_, ?_⟩ <;> unfold FitsLine <;> decide
  have hall {p : InputAssignment → Prop} (h : ∀ input ∈ [onDigital 0], p input) :
      ∀ input ∈ List.replicate count (onDigital 0), p input := fun input hinput =>
    List.eq_of_mem_replicate hinput ▸ h _ List.mem_cons_self
  have hgate : (busCatalog.validateInputs [onDigital 0]).faults = [] := by decide
  have hmany : Plain (List.replicate count (onDigital 0)) busContext :=
    ⟨hplain.version, hplain.platform, hall hplain.applications, hall hplain.sensors, hall hplain.pins⟩
  obtain ⟨text, htext, hfaults⟩ := hmany.exists_text (splice_emptyHeader _)
  refine ⟨by decide, validateInputs_faults_eq_nil_iff.mpr (hall (validateInputs_faults_eq_nil_iff.mp hgate)),
    by decide, by decide, _, splice_emptyHeader _, text, htext, ?_⟩
  rw [hfaults, Validation.blockFaults, hmany.read?_eq_none (hall (by decide)) (by simpa using hcount)]
  exact List.cons_ne_nil _ _

def withTexts (idx : UInt32) (application sensor pin : String) : InputAssignment :=
  ⟨idx, pin, application, 1, sensor, 1, none⟩

def stopText : String := "7 #endif // USE_STATIC_CONFIG"

def defineText : String := "7\n#define INPUT_0_SENSOR none"

/-- **The check refuses some blocks of inputs that pass validation.** Two inputs share the bus or the first word
of their pins, a pin is blank, a text goes on with a define on a line of its own, a text holds the end marker, or
there are too many inputs to be counted. -/
theorem generated_block_may_be_refused :
    (Refused [onBus 0, onBus 1] busContext ∧
      Refused [withTexts 0 "CABIN" "MAX6675" "6 a", withTexts 1 "CABIN" "MAX6675" "6 b"] busContext ∧
      Refused [withTexts 0 "CABIN" "MAX6675" " "] busContext) ∧
    (Refused [onDigital 0, withTexts 1 defineText "MAX6675" "7"] busContext ∧
      Refused [onDigital 0, withTexts 1 "CABIN" defineText "7"] busContext ∧
      Refused [onDigital 0, withTexts 1 "CABIN" "MAX6675" defineText] busContext) ∧
    (Refused [] ⟨stopText, "atmega2560", ⟨0⟩⟩ ∧ Refused [] ⟨"0.3.0", stopText, ⟨0⟩⟩ ∧
      Refused [withTexts 0 stopText "MAX6675" "7"] busContext ∧
      Refused [withTexts 0 "CABIN" stopText "7"] busContext ∧
      Refused [withTexts 0 "CABIN" "MAX6675" stopText] busContext) ∧
    Refused (List.replicate (2 ^ 32) (onDigital 0)) busContext := by
  refine ⟨⟨?_, ?_, ?_⟩, ⟨?_, ?_, ?_⟩, ⟨?_, ?_, ?_, ?_, ?_⟩, refused_replicate le_rfl⟩
  all_goals exact refused_of_lines (by decide) (by decide) (by decide) (by decide +kernel)

end FirmwareCatalog.ConfigBlock
