import FirmwareCatalog.Proofs.Text.Utf8
import FirmwareCatalog.Proofs.Validation.Consistency
import FirmwareCatalog.Validation.Defines
import Mathlib.Data.Nat.Find

/-!
# What is wrong with an input

The check of a static configuration looks at each input for itself, but for its
pin: that is compared with the pins of the inputs before it. The report of an
input holds what is wrong with it, whatever else is, and each finding once.
-/

namespace FirmwareCatalog

open Validation

def HoldsTable (markers : BlockMarkers) (text : String) (table : DefineTable) : Prop :=
  ∃ before block after, MarkedBlock.locate markers (textBytes text) = .found before block after ∧
    DefineTable.read? (Utf8.decodeLossy block) = some table

theorem holdsTable_of_wholeText {markers : BlockMarkers} {text : String} {table : DefineTable}
    (hlocate : MarkedBlock.locate markers (textBytes text) = .found [] (textBytes text) [])
    (hread : DefineTable.read? text.toList = some table) : HoldsTable markers text table :=
  ⟨_, _, _, hlocate, by rw [Utf8.decodeLossy_textBytes, hread]⟩

namespace DefineTable

inductive Wrong (catalog : Catalog) (table : DefineTable) (input : Nat) : Fault → Prop
  | missing {field : InputField} (none : table.value? input field = none) :
      Wrong catalog table input (.missingDefine input field)
  /-- Of the inputs with this pin, the first is an earlier one. -/
  | taken {pin : String} {first : Nat} (value : table.value? input .pin = some pin) (earlier : first < input)
      (same : table.value? first .pin = some pin) (earliest : ∀ i < first, table.value? i .pin ≠ some pin) :
      Wrong catalog table input (.duplicatePin pin first input)
  | malformed {field : InputField} {text : String} (index : field ≠ .pin)
      (value : table.value? input field = some text) (unread : readIndex? text = none) :
      Wrong catalog table input (.malformedDefine input field text)
  | noApplication {text : String} {index : Nat} (value : table.value? input .application = some text)
      (read : readIndex? text = some index)
      (absent : ∀ e ∈ catalog.applications.entries, CatalogEntry.index e ≠ index) :
      Wrong catalog table input (.unknownApplication input index)
  | noSensor {text : String} {index : Nat} (value : table.value? input .sensor = some text)
      (read : readIndex? text = some index)
      (absent : ∀ e ∈ catalog.sensors.entries, CatalogEntry.index e ≠ index) :
      Wrong catalog table input (.unknownSensor input index)

def NamesEntry {E : Type} [CatalogEntry E] (registry : Registry E) (text : String) : Prop :=
  ∃ index, readIndex? text = some index ∧ ∃ e ∈ registry.entries, CatalogEntry.index e = index

/-- A table that defines every input below its count, on pins of their own and by entries of a catalog. -/
structure Complete (catalog : Catalog) (table : DefineTable) : Prop where
  defined : ∀ input < table.count, ∀ field, (table.value? input field).isSome
  pinsApart : ∀ first second, first < second → second < table.count →
    table.value? first .pin ≠ table.value? second .pin
  applications : ∀ input < table.count, ∀ text, table.value? input .application = some text →
    NamesEntry catalog.applications text
  sensors : ∀ input < table.count, ∀ text, table.value? input .sensor = some text →
    NamesEntry catalog.sensors text

theorem namesEntry_iff {E : Type} [CatalogEntry E] {registry : Registry E} {text : String} :
    NamesEntry registry text ↔ readIndex? text ≠ none ∧ ∀ index, readIndex? text = some index →
      ¬ ∀ e ∈ registry.entries, CatalogEntry.index e ≠ index := by
  unfold NamesEntry
  cases readIndex? text with
  | none => simp
  | some index => simp [eq_comm, and_comm]

theorem complete_iff (catalog : Catalog) (table : DefineTable) :
    table.Complete catalog ↔ ∀ input < table.count, ∀ fault, ¬ table.Wrong catalog input fault := by
  constructor
  · intro h input hinput fault hwrong
    cases hwrong with
    | @missing field hnone => simpa [hnone] using h.defined input hinput field
    | taken hvalue hearlier hsame => exact h.pinsApart _ _ hearlier hinput (hsame.trans hvalue.symm)
    | @malformed field text hindex hvalue hunread =>
      cases field with
      | pin => exact hindex rfl
      | application => exact (namesEntry_iff.mp (h.applications input hinput text hvalue)).1 hunread
      | sensor => exact (namesEntry_iff.mp (h.sensors input hinput text hvalue)).1 hunread
    | noApplication hvalue hread habsent =>
      exact (namesEntry_iff.mp (h.applications input hinput _ hvalue)).2 _ hread habsent
    | noSensor hvalue hread habsent => exact (namesEntry_iff.mp (h.sensors input hinput _ hvalue)).2 _ hread habsent
  · intro h
    have hdefined : ∀ input < table.count, ∀ field, (table.value? input field).isSome := by
      intro input hinput field
      by_contra hnone
      exact h input hinput _ (.missing (Option.not_isSome_iff_eq_none.mp hnone))
    refine ⟨hdefined, fun first second hlt hsecond hsame => ?_, fun input hinput text hvalue => ?_,
      fun input hinput text hvalue => ?_⟩
    · obtain ⟨pin, hpin⟩ := Option.isSome_iff_exists.mp (hdefined second hsecond .pin)
      have hexists : ∃ i, table.value? i .pin = some pin := ⟨first, hsame.trans hpin⟩
      have hearlier : Nat.find hexists < second :=
        Nat.lt_of_le_of_lt (Nat.find_min' hexists (hsame.trans hpin)) hlt
      exact h second hsecond _ (.taken hpin hearlier (Nat.find_spec hexists) fun i hi => Nat.find_min hexists hi)
    · exact namesEntry_iff.mpr ⟨fun hunread => h input hinput _ (.malformed (by decide) hvalue hunread),
        fun _ hread habsent => h input hinput _ (.noApplication hvalue hread habsent)⟩
    · exact namesEntry_iff.mpr ⟨fun hunread => h input hinput _ (.malformed (by decide) hvalue hunread),
        fun _ hread habsent => h input hinput _ (.noSensor hvalue hread habsent)⟩

end DefineTable

namespace Validation

/-! ## The findings about an input -/

section
variable {table : DefineTable} {input : Nat} {fault : Fault}

theorem mem_missingFaults_iff : fault ∈ missingFaults table input ↔
    ∃ field, table.value? input field = none ∧ fault = .missingDefine input field := by
  rw [missingFaults, List.mem_filterMap]
  constructor
  · rintro ⟨field, -, hfault⟩
    split at hfault
    · cases hfault
    · rename_i hnone
      exact ⟨field, by simpa using hnone, (Option.some.inj hfault).symm⟩
  · rintro ⟨field, hnone, rfl⟩
    exact ⟨field, by cases field <;> decide, by simp [hnone]⟩

theorem lookup_positions (f : Nat → Option String) (key : String) (positions : List Nat) :
    (positions.filterMap fun i => (f i).map fun text => (text, i)).lookup key =
      positions.find? fun i => f i = some key := by
  induction positions with
  | nil => rfl
  | cons i positions ih =>
    cases hi : f i with
    | none => simp [hi, ih]
    | some text =>
      by_cases hkey : key = text
      · subst hkey
        simp [hi]
      · simp [hi, ih, Ne.symm hkey, List.lookup_cons, beq_false_of_ne hkey]

theorem lookup_pins_eq_some_iff {pin : String} {first : Nat} : table.pins.lookup pin = some first ↔
    first < table.count ∧ table.value? first .pin = some pin ∧ ∀ i < first, table.value? i .pin ≠ some pin := by
  rw [DefineTable.pins, lookup_positions, List.find?_range_eq_some]
  simp only [decide_eq_true_eq, List.mem_range, Bool.not_eq_true', decide_eq_false_iff_not]
  exact ⟨fun ⟨hsame, hlt, hearliest⟩ => ⟨hlt, hsame, hearliest⟩, fun ⟨hlt, hsame, hearliest⟩ =>
    ⟨hsame, hlt, hearliest⟩⟩

theorem mem_duplicatePin_iff (hinput : input < table.count) :
    fault ∈ ((table.value? input .pin).bind (duplicatePinFault? table.pins input)).toList ↔
      ∃ pin first, table.value? input .pin = some pin ∧ (first < input ∧ table.value? first .pin = some pin ∧
        ∀ i < first, table.value? i .pin ≠ some pin) ∧ fault = .duplicatePin pin first input := by
  rw [Option.mem_toList, Option.bind_eq_some_iff]
  refine exists_congr fun pin => ?_
  rw [exists_and_left, and_congr_right_iff]
  intro _
  rw [duplicatePinFault?, Option.bind_eq_some_iff]
  refine exists_congr fun first => ?_
  rw [lookup_pins_eq_some_iff]
  constructor
  · rintro ⟨⟨-, hsame, hearliest⟩, hfault⟩
    split at hfault
    · rename_i hearlier
      exact ⟨⟨hearlier, hsame, hearliest⟩, (Option.some.inj hfault).symm⟩
    · cases hfault
  · rintro ⟨⟨hearlier, hsame, hearliest⟩, rfl⟩
    exact ⟨⟨Nat.lt_trans hearlier hinput, hsame, hearliest⟩, if_pos hearlier⟩

theorem mem_malformedFaults_iff :
    fault ∈ [InputField.application, .sensor].filterMap (malformedFault? table input) ↔
      ∃ field text, field ≠ .pin ∧ (table.value? input field = some text ∧ readIndex? text = none) ∧
        fault = .malformedDefine input field text := by
  rw [List.mem_filterMap]
  refine exists_congr fun field => ?_
  have hfield : field ∈ [InputField.application, .sensor] ↔ field ≠ .pin := by cases field <;> decide
  rw [hfield, exists_and_left, and_congr_right_iff]
  intro _
  rw [malformedFault?, Option.bind_eq_some_iff]
  refine exists_congr fun text => ?_
  rw [and_assoc, and_congr_right_iff]
  intro _
  cases readIndex? text with
  | none => simp [eq_comm]
  | some index => simp

theorem unknownIndex?_eq_some_iff {E : Type} [CatalogEntry E] {registry : Registry E} {field : InputField}
    {index : Nat} :
    unknownIndex? table registry input field = some index ↔
      ∃ text, table.value? input field = some text ∧ readIndex? text = some index ∧
        ∀ e ∈ registry.entries, CatalogEntry.index e ≠ index := by
  have habsent : (registry.get? index).isNone = true ↔
      ∀ e ∈ registry.entries, CatalogEntry.index e ≠ index := by
    rw [← Option.not_isSome, Bool.not_eq_true', ← Bool.not_eq_true, get?_isSome_iff]
    simp
  rw [unknownIndex?, Option.filter_eq_some_iff, habsent, Option.bind_eq_some_iff]
  simp only [exists_and_right, ← and_assoc]

theorem mem_inputFaults_iff (catalog : Catalog) (hinput : input < table.count) :
    fault ∈ inputFaults catalog table table.pins input ↔ table.Wrong catalog input fault := by
  rw [inputFaults]
  simp only [List.mem_append, mem_missingFaults_iff, mem_duplicatePin_iff hinput, mem_malformedFaults_iff,
    Option.mem_toList, Option.map_eq_some_iff, unknownIndex?_eq_some_iff]
  constructor
  · rintro ((((⟨field, hnone, rfl⟩ | ⟨pin, first, hvalue, ⟨hearlier, hsame, hearliest⟩, rfl⟩) |
      ⟨field, text, hfield, ⟨hvalue, hunread⟩, rfl⟩) | ⟨index, ⟨text, hvalue, hread, habsent⟩, rfl⟩) |
      ⟨index, ⟨text, hvalue, hread, habsent⟩, rfl⟩)
    · exact .missing hnone
    · exact .taken hvalue hearlier hsame hearliest
    · exact .malformed hfield hvalue hunread
    · exact .noApplication hvalue hread habsent
    · exact .noSensor hvalue hread habsent
  · intro h
    cases h with
    | missing hnone => exact .inl (.inl (.inl (.inl ⟨_, hnone, rfl⟩)))
    | taken hvalue hearlier hsame hearliest =>
      exact .inl (.inl (.inl (.inr ⟨_, _, hvalue, ⟨hearlier, hsame, hearliest⟩, rfl⟩)))
    | malformed hfield hvalue hunread => exact .inl (.inl (.inr ⟨_, _, hfield, ⟨hvalue, hunread⟩, rfl⟩))
    | noApplication hvalue hread habsent => exact .inl (.inr ⟨_, ⟨_, hvalue, hread, habsent⟩, rfl⟩)
    | noSensor hvalue hread habsent => exact .inr ⟨_, ⟨_, hvalue, hread, habsent⟩, rfl⟩

/-- The findings about an input are of different kinds, or about different fields. -/
theorem nodup_inputFaults (catalog : Catalog) (hinput : input < table.count) :
    (inputFaults catalog table table.pins input).Nodup := by
  have htoList {α : Type} (o : Option α) : o.toList.Nodup := by cases o <;> simp
  have hmissing : (missingFaults table input).Nodup := by
    refine List.Nodup.filterMap (fun field field' fault hfault hfault' => ?_) (by decide)
    split at hfault <;> cases hfault
    split at hfault' <;> cases hfault'
    rfl
  have hmalformed : ([InputField.application, .sensor].filterMap (malformedFault? table input)).Nodup := by
    refine List.Nodup.filterMap (fun field field' fault hfault hfault' => ?_) (by decide)
    obtain ⟨text, -, hfault⟩ := Option.bind_eq_some_iff.mp hfault
    obtain ⟨text', -, hfault'⟩ := Option.bind_eq_some_iff.mp hfault'
    split at hfault <;> cases hfault
    split at hfault' <;> cases hfault'
    rfl
  rw [inputFaults]
  simp only [List.nodup_append, hmissing, hmalformed, htoList, List.mem_append, mem_missingFaults_iff,
    mem_duplicatePin_iff hinput, mem_malformedFaults_iff, Option.mem_toList, Option.map_eq_some_iff]
  grind

end

/-! ## The report -/

section
variable {catalog : Catalog} {markers : BlockMarkers} {text : String}

theorem configFaults_of_holdsTable {table : DefineTable} (h : HoldsTable markers text table) :
    configFaults catalog markers text =
      (List.range table.count).flatMap (inputFaults catalog table table.pins) := by
  obtain ⟨before, block, after, hlocate, hread⟩ := h
  simp only [configFaults, hlocate, blockFaults, hread]

theorem exists_holdsTable_of_nil (h : configFaults catalog markers text = []) :
    ∃ table, HoldsTable markers text table := by
  rw [configFaults] at h
  split at h
  · rename_i before block after hlocate
    rw [blockFaults] at h
    split at h
    · cases h
    · rename_i table hread
      exact ⟨table, before, block, after, hlocate, hread⟩
  · cases h
  · cases h

theorem configFaults_eq_nil_iff : configFaults catalog markers text = [] ↔
    ∃ table, HoldsTable markers text table ∧ table.Complete catalog := by
  have hclean {table : DefineTable} (h : HoldsTable markers text table) :
      configFaults catalog markers text = [] ↔ table.Complete catalog := by
    rw [configFaults_of_holdsTable h, List.flatMap_eq_nil_iff, DefineTable.complete_iff]
    refine forall_congr' fun input => ?_
    rw [List.mem_range]
    refine forall_congr' fun hinput => ?_
    rw [List.eq_nil_iff_forall_not_mem]
    exact forall_congr' fun fault => not_congr (mem_inputFaults_iff catalog hinput)
  constructor
  · intro h
    obtain ⟨table, htable⟩ := exists_holdsTable_of_nil h
    exact ⟨table, htable, (hclean htable).mp h⟩
  · rintro ⟨table, htable, hcomplete⟩
    exact (hclean htable).mpr hcomplete

end

theorem inputFaults_congr (catalog : Catalog) {table table' : DefineTable} (hcount : table'.count = table.count)
    (h : ∀ input < table.count, ∀ field, table'.value? input field = table.value? input field) {input : Nat}
    (hinput : input < table.count) :
    inputFaults catalog table' table'.pins input = inputFaults catalog table table.pins input := by
  have hpins : table'.pins = table.pins := by
    rw [DefineTable.pins, DefineTable.pins, hcount]
    exact List.filterMap_congr fun i hi => by rw [h i (List.mem_range.mp hi)]
  have hmissing : missingFaults table' input = missingFaults table input := by
    simp only [missingFaults, h input hinput]
  have hmalformed : malformedFault? table' input = malformedFault? table input := by
    funext field
    rw [malformedFault?, malformedFault?, h input hinput]
  rw [inputFaults, inputFaults, hpins, hmissing, hmalformed, h input hinput, unknownIndex?, unknownIndex?,
    unknownIndex?, unknownIndex?, h input hinput, h input hinput]

/-- **The check of a static configuration is sound and complete.** It finds no fault exactly in a header from whose
block a table is read that defines every input below its count, on pins of their own and by entries of the catalog.
From any table it lists, input after input, exactly what is wrong with each, each finding once; what is defined for
inputs from the count on changes nothing. -/
theorem check_lists_what_is_wrong (catalog : Catalog) (markers : BlockMarkers) (text : String) :
    ((checkConfigBlock catalog markers text).findings.faults = [] ↔
        ∃ table, HoldsTable markers text table ∧ table.Complete catalog) ∧
      ∀ table, HoldsTable markers text table →
        (∃ about : Nat → List Fault,
          (checkConfigBlock catalog markers text).findings.faults = (List.range table.count).flatMap about ∧
            ∀ input < table.count, (about input).Nodup ∧
              ∀ fault, fault ∈ about input ↔ table.Wrong catalog input fault) ∧
        ∀ markers' text' table', HoldsTable markers' text' table' → table'.count = table.count →
          (∀ input < table.count, ∀ field, table'.value? input field = table.value? input field) →
            (checkConfigBlock catalog markers' text').findings = (checkConfigBlock catalog markers text).findings := by
  refine ⟨configFaults_eq_nil_iff, fun table htable => ⟨⟨_, configFaults_of_holdsTable htable, fun input hinput =>
    ⟨nodup_inputFaults catalog hinput, fun fault => mem_inputFaults_iff catalog hinput⟩⟩, ?_⟩⟩
  intro markers' text' table' htable' hcount hsame
  have hfaults : configFaults catalog markers' text' = configFaults catalog markers text := by
    rw [configFaults_of_holdsTable htable, configFaults_of_holdsTable htable', hcount]
    exact List.flatMap_congr fun input hinput => inputFaults_congr catalog hcount hsame (List.mem_range.mp hinput)
  exact congrArg Findings.ofFaults hfaults

def letterMarkers : BlockMarkers := ⟨"S", "E\n"⟩

def sharedPinHeader (stray : String) : String :=
  "S\n#define NUM_CONFIGURED_INPUTS 2\n#define INPUT_0_PIN A0\n#define INPUT_0_APPLICATION 1\n" ++
    "#define INPUT_0_SENSOR CHT\n#define INPUT_1_PIN A0\n#define INPUT_1_APPLICATION 7\n" ++ stray ++ "E\n"

def sharedPinTable (stray : List ((Nat × InputField) × String)) : DefineTable :=
  ⟨2, [((0, .pin), "A0"), ((0, .application), "1"), ((0, .sensor), "CHT"), ((1, .pin), "A0"),
    ((1, .application), "7")] ++ stray⟩

def uncountedDefine : String := "#define INPUT_2_PIN A0\n"

set_option maxRecDepth 4000 in
theorem holdsTable_sharedPinHeader :
    HoldsTable letterMarkers (sharedPinHeader "") (sharedPinTable []) ∧
      HoldsTable letterMarkers (sharedPinHeader uncountedDefine) (sharedPinTable [((2, .pin), "A0")]) := by
  constructor <;> apply holdsTable_of_wholeText
  all_goals
    unfold sharedPinHeader
    simp only [uncountedDefine, textBytes, String.toList_append]
    repeat rw [String.toList_ofList]
    rfl

theorem value?_sharedPinTable : ∀ input < 2, ∀ field,
    (sharedPinTable [((2, .pin), "A0")]).value? input field = (sharedPinTable []).value? input field := by
  intro input hinput field
  obtain rfl | rfl : input = 0 ∨ input = 1 := by omega
  all_goals cases field <;> rfl

theorem wrong_sharedPinTable_iff {fault : Fault} :
    (sharedPinTable []).Wrong (thermocoupleCatalog false) 0 fault ↔
      fault = .malformedDefine 0 .sensor "CHT" := by
  constructor
  · intro hwrong
    cases hwrong with
    | @missing field hnone => cases field <;> cases hnone
    | taken _ hearlier => exact absurd hearlier (Nat.not_lt_zero _)
    | @malformed field text hindex hvalue hunread =>
      cases field with
      | pin => exact absurd rfl hindex
      | application =>
        cases hvalue
        exact absurd hunread (by decide)
      | sensor =>
        cases hvalue
        rfl
    | noApplication hvalue hread habsent =>
      cases hvalue
      cases hread
      exact absurd habsent (by decide)
    | noSensor hvalue hread =>
      cases hvalue
      cases hread
  · rintro rfl
    exact .malformed (by decide) rfl rfl

/-- The first input is at fault for its sensor, the second for its pin and its application, and a third one does not
count. -/
theorem check_lists_what_is_wrong_sharedPin :
    let catalog := thermocoupleCatalog false
    HoldsTable letterMarkers (sharedPinHeader "") (sharedPinTable []) ∧
      HoldsTable letterMarkers (sharedPinHeader uncountedDefine) (sharedPinTable [((2, .pin), "A0")]) ∧
      (checkConfigBlock catalog letterMarkers (sharedPinHeader uncountedDefine)).findings =
        (checkConfigBlock catalog letterMarkers (sharedPinHeader "")).findings ∧
      ∃ about : Nat → List Fault,
        (checkConfigBlock catalog letterMarkers (sharedPinHeader "")).findings.faults =
            (List.range 2).flatMap about ∧
          (∀ fault, fault ∈ about 0 ↔ fault = .malformedDefine 0 .sensor "CHT") ∧
            .duplicatePin "A0" 0 1 ∈ about 1 ∧ .unknownApplication 1 7 ∈ about 1 ∧
              .missingDefine 1 .sensor ∈ about 1 := by
  intro catalog
  obtain ⟨hholds, huncounted⟩ := holdsTable_sharedPinHeader
  obtain ⟨-, hreport⟩ := check_lists_what_is_wrong catalog letterMarkers (sharedPinHeader "")
  obtain ⟨⟨about, hfaults, habout⟩, hsame⟩ := hreport (sharedPinTable []) hholds
  have hfirst := (habout 0 (by decide)).2
  have hsecond := (habout 1 (by decide)).2
  refine ⟨hholds, huncounted, hsame _ _ _ huncounted rfl value?_sharedPinTable, about, hfaults, fun fault => ?_,
    (hsecond _).mpr (.taken rfl (by decide) rfl fun i hi => absurd hi (Nat.not_lt_zero i)),
    (hsecond _).mpr (.noApplication rfl (by decide) (by decide)), (hsecond _).mpr (.missing rfl)⟩
  exact (hfirst fault).trans wrong_sharedPinTable_iff

end Validation

end FirmwareCatalog
