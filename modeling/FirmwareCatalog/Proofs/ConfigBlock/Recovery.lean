import FirmwareCatalog.Proofs.ConfigBlock.Acceptance
import FirmwareCatalog.Proofs.Table

/-!
# What the check says about a generated block

The check reads back from a generated block what was written for each input. All
it can then find is a pin that an earlier input has, and an index that no entry
has.
-/

namespace FirmwareCatalog.ConfigBlock

open Character MarkedBlock Numeral Text Validation

/-! ## What was written -/

def HoldsStop (text : String) : Prop := BlockMarkers.standard.stop.toList <:+: text.toList

/-- Inputs and a context with texts on one line, pins of one word each, and no end marker in any of them. -/
structure Written (inputs : List InputAssignment) (ctx : GenerationContext) : Prop where
  count : inputs.length < 2 ^ 32
  version : '\n' ∉ ctx.toolVersion.toList ∧ ¬ HoldsStop ctx.toolVersion
  platform : '\n' ∉ ctx.platform.toList ∧ ¬ HoldsStop ctx.platform
  applications : ∀ input ∈ inputs, '\n' ∉ input.application.toList ∧ ¬ HoldsStop input.application
  sensors : ∀ input ∈ inputs, '\n' ∉ input.sensor.toList ∧ ¬ HoldsStop input.sensor
  stopPins : ∀ input ∈ inputs, ¬ HoldsStop input.pin
  pins : ∀ input ∈ inputs, trim input.pin.toList ≠ [] ∧ ∀ c ∈ trim input.pin.toList, isBlank c = false

theorem trim_isInfix (text : List Char) : trim text <:+: text :=
  (Header.trimEnd_isPrefix _).isInfix.trans (List.dropWhile_suffix _).isInfix

section
variable {inputs : List InputAssignment} {ctx : GenerationContext} (h : Written inputs ctx)
include h

theorem Written.readable : Readable inputs ctx where
  version := h.version
  platform := h.platform
  applications := h.applications
  sensors := h.sensors
  pins := fun input hinput => by
    refine ⟨fun hnewline => ?_, fun hstop => h.stopPins input hinput (hstop.trans (trim_isInfix _))⟩
    have hblank := (h.pins input hinput).2 '\n' hnewline
    exact absurd hblank (by decide)
  count := h.count
  pinsGiven := fun input hinput => (h.pins input hinput).1

theorem Written.fieldText_pin {input : InputAssignment} (hinput : input ∈ inputs) :
    fieldText input .pin = trimmed input.pin := by
  refine congrArg String.ofList (List.takeWhile_eq_self_iff.mpr fun c hc => ?_)
  simp [(h.pins input hinput).2 c hc]

end

/-! ## The pins -/

def earlierUser? (inputs : List InputAssignment) (position : Nat) (pin : String) : Option Nat :=
  (inputs.take position).findIdx? fun other => trimmed other.pin = pin

theorem lookup_zipIdx {α : Type} (f : α → String) (key : String) (items : List α) :
    (items.zipIdx.map fun (a, i) => (f a, i)).lookup key = items.findIdx? fun a => f a = key := by
  have hfrom (start : Nat) : ((items.zipIdx start).map fun (a, i) => (f a, i)).lookup key =
      (items.findIdx? fun a => f a = key).map (start + ·) := by
    induction items generalizing start with
    | nil => rfl
    | cons a items ih =>
      rw [List.zipIdx_cons, List.map_cons, lookup_cons_eq_ite, ih, List.findIdx?_cons]
      by_cases hkey : f a = key
      · simp [hkey]
      · simp [hkey, Ne.symm hkey, Function.comp_def, Nat.add_comm, Nat.add_left_comm]
  simpa using hfrom 0

theorem flatMap_range_length {α β : Type} (items : List α) (f : Nat → List β) :
    (List.range items.length).flatMap f = items.zipIdx.flatMap fun (_, i) => f i := by
  rw [List.range_eq_range', ← List.zipIdx_map_snd 0 items, List.flatMap_map]

theorem pins_tableOf (inputs : List InputAssignment) :
    (tableOf inputs).pins = inputs.zipIdx.map fun (input, i) => (fieldText input .pin, i) := by
  have hcount : (tableOf inputs).count = inputs.length := rfl
  rw [DefineTable.pins, hcount, List.range_eq_range', ← List.zipIdx_map_snd 0 inputs,
    List.filterMap_map, ← List.filterMap_eq_map]
  refine List.filterMap_congr fun p hp => ?_
  have hinput := List.mem_zipIdx_iff_getElem?.mp hp
  simp [value?_of_getElem? hinput]

theorem Written.duplicatePinFault?_eq {inputs : List InputAssignment} {ctx : GenerationContext}
    (h : Written inputs ctx) (position : Nat) (pin : String) :
    duplicatePinFault? (tableOf inputs).pins position pin =
      (earlierUser? inputs position pin).map fun first => .duplicatePin pin first position := by
  have hpins : (tableOf inputs).pins = inputs.zipIdx.map fun (input, i) => (trimmed input.pin, i) := by
    rw [pins_tableOf]
    refine List.map_congr_left fun p hp => ?_
    have hinput := List.mem_of_getElem? (List.mem_zipIdx_iff_getElem?.mp hp)
    exact congrArg (·, p.2) (h.fieldText_pin hinput)
  rw [duplicatePinFault?, hpins, lookup_zipIdx fun input : InputAssignment => trimmed input.pin,
    earlierUser?, List.findIdx?_take]
  cases inputs.findIdx? fun input => trimmed input.pin = pin with
  | none => rfl
  | some first => by_cases hlt : first < position <;> simp [Option.guard, hlt]

/-! ## The findings -/

def absentIndex? {E : Type} [CatalogEntry E] (registry : Registry E) (index : UInt32) : Option Nat :=
  if (registry.get? index.toNat).isNone then some index.toNat else none

/-- What can be found about the input at a position: its pin is taken, it has no application, it has no sensor. -/
def inputReport (catalog : Catalog) (inputs : List InputAssignment) (position : Nat)
    (input : InputAssignment) : List Fault :=
  let pin := trimmed input.pin
  ((earlierUser? inputs position pin).map fun first => Fault.duplicatePin pin first position).toList
    ++ ((absentIndex? catalog.applications input.applicationIndex).map
      (.unknownApplication position)).toList
    ++ ((absentIndex? catalog.sensors input.sensorIndex).map (.unknownSensor position)).toList

theorem unknownIndex?_eq_absentIndex? {E : Type} [CatalogEntry E] (registry : Registry E)
    {inputs : List InputAssignment} {position : Nat} {input : InputAssignment}
    (hinput : inputs[position]? = some input) {field : InputField} {index : UInt32}
    (htext : fieldText input field = decimalText index.toNat) :
    unknownIndex? (tableOf inputs) registry position field = absentIndex? registry index := by
  rw [unknownIndex?, value?_of_getElem? hinput, htext, Option.bind_some, readIndex?_decimalText,
    absentIndex?, Option.filter_some]

theorem Written.inputFaults_eq {inputs : List InputAssignment} {ctx : GenerationContext}
    (h : Written inputs ctx) (catalog : Catalog) {position : Nat} {input : InputAssignment}
    (hinput : inputs[position]? = some input) :
    inputFaults catalog (tableOf inputs) (tableOf inputs).pins position =
      inputReport catalog inputs position input := by
  rw [inputFaults, missingFaults_tableOf hinput, malformedFaults_tableOf hinput,
    value?_of_getElem? hinput, h.fieldText_pin (List.mem_of_getElem? hinput), Option.bind_some,
    h.duplicatePinFault?_eq,
    unknownIndex?_eq_absentIndex? catalog.applications hinput (fieldText_application input),
    unknownIndex?_eq_absentIndex? catalog.sensors hinput (fieldText_sensor input),
    List.nil_append, List.append_nil]
  rfl

/-- **The check finds in a generated block what was written for its inputs.** A header into which the block of
inputs with proper texts is spliced is a text about which the check says of each input, in order, whether an
earlier one has its pin and whether its application and its sensor exist, and nothing else. -/
theorem spliced_block_reported (catalog : Catalog) (inputs : List InputAssignment)
    (ctx : GenerationContext) (hwritten : Written inputs ctx) (header : String) (spliced : Spliced)
    (hsplice : splice .standard (textBytes (render inputs ctx .standard)) (textBytes header) =
      .ok spliced) :
    ∃ text : String, textBytes text = spliced.text ∧
      (checkConfigBlock catalog .standard text).findings =
        .ofFaults (inputs.zipIdx.flatMap fun (input, i) => inputReport catalog inputs i input) := by
  obtain ⟨text, htext, hfaults⟩ := hwritten.readable.exists_text hsplice
  refine ⟨text, htext, congrArg Findings.ofFaults ((hfaults catalog).trans ?_)⟩
  rw [blockFaults, hwritten.readable.read?]
  refine (flatMap_range_length inputs _).trans (List.flatMap_congr fun p hp => ?_)
  exact hwritten.inputFaults_eq catalog (List.mem_zipIdx_iff_getElem?.mp hp)

def faultyInputs : List InputAssignment :=
  [onDigital 0, onDigital 1, ⟨2, "A0", "NONE", 7, "NONE", 9, none⟩]

/-- A shared pin and two missing entries, found below a stray define. -/
theorem spliced_block_reported_faulty :
    Written faultyInputs busContext ∧ ∃ spliced,
      splice .standard (textBytes (render faultyInputs busContext .standard))
        (textBytes "#define INPUT_0_PIN A7\n") = .ok spliced ∧
      ∃ text : String, textBytes text = spliced.text ∧
        (checkConfigBlock busCatalog .standard text).findings =
          .ofFaults [.duplicatePin "6" 0 1, .unknownApplication 2 7, .unknownSensor 2 9] := by
  have hwritten : Written faultyInputs busContext := by
    refine ⟨by decide, ?_, ?_, ?_, ?_, ?_, by decide⟩ <;> unfold HoldsStop <;>
      decide
  have hsplice : ∃ spliced, splice .standard (textBytes (render faultyInputs busContext .standard))
      (textBytes "#define INPUT_0_PIN A7\n") = .ok spliced := by
    have habsent : locate .standard (textBytes "#define INPUT_0_PIN A7\n") = .absent := rfl
    exact ⟨_, by rw [splice, habsent]⟩
  obtain ⟨spliced, hspliced⟩ := hsplice
  obtain ⟨text, htext, hfindings⟩ :=
    spliced_block_reported busCatalog faultyInputs busContext hwritten _ spliced hspliced
  refine ⟨hwritten, spliced, hspliced, text, htext, hfindings.trans (congrArg Findings.ofFaults ?_)⟩
  decide

end FirmwareCatalog.ConfigBlock
