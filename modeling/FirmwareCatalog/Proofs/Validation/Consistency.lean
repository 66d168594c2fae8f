import FirmwareCatalog.Proofs.NameHash
import FirmwareCatalog.Proofs.Validation.Repetition
import FirmwareCatalog.Validation.Basic
import Mathlib.Data.List.Nodup

/-!
# A catalog without faults is consistent

Each pass over a catalog finds nothing exactly when one clause of `Consistent`
holds, so the report is without faults iff the catalog is consistent. Names that
differ in case only have the same hash; a consistent catalog holds at most one
implemented entry for them.
-/

namespace FirmwareCatalog

/-! ## Consistency -/

section
variable {E : Type} [CatalogEntry E]

def StoresNameHash (e : E) : Prop :=
  ∀ name, CatalogEntry.name? e = some name → CatalogEntry.nameHash? e = some (nameHash name)

def ImplementedPairwise (R : E → E → Prop) (registry : Registry E) : Prop :=
  registry.entries.Pairwise fun a b =>
    CatalogEntry.isImplemented a = true → CatalogEntry.isImplemented b = true → R a b

def NameHashesApart : Registry E → Prop :=
  ImplementedPairwise fun a b =>
    ∀ hash, CatalogEntry.nameHash? a = some hash → CatalogEntry.nameHash? b ≠ some hash

def IndicesApart (registry : Registry E) : Prop :=
  registry.entries.Pairwise fun a b => CatalogEntry.index a ≠ CatalogEntry.index b

def NamesApart : Registry E → Prop :=
  ImplementedPairwise fun a b =>
    ∀ m n, CatalogEntry.name? a = some m → CatalogEntry.name? b = some n → upperCased m ≠ upperCased n

end

/-- The hashes by which a unit is found: that of its name, and that of its other name if it has one. -/
def DisplayUnit.hashes (unit : DisplayUnit) : List UInt16 :=
  unit.nameHash.toList ++ if unit.otherName.isSome then unit.otherNameHash.toList else []

/-- What the firmware relies on in a catalog. -/
structure Catalog.Consistent (catalog : Catalog) : Prop where
  sensorNameHashes : ∀ sensor ∈ catalog.sensors.entries, StoresNameHash sensor
  applicationNameHashes : ∀ app ∈ catalog.applications.entries, StoresNameHash app
  unitNameHashes : ∀ unit ∈ catalog.units.entries, StoresNameHash unit
  unitOtherNameHashes : ∀ unit ∈ catalog.units.entries, ∀ name, unit.otherName = some name →
    unit.otherNameHash = some (nameHash name)
  sensorHashesApart : NameHashesApart catalog.sensors
  applicationHashesApart : NameHashesApart catalog.applications
  unitHashesApart : ImplementedPairwise (fun a b => ∀ hash ∈ a.hashes, hash ∉ b.hashes) catalog.units
  sensorIndicesApart : IndicesApart catalog.sensors
  applicationIndicesApart : IndicesApart catalog.applications
  unitIndicesApart : IndicesApart catalog.units
  defaultSensors : ∀ app ∈ catalog.applications.entries, CatalogEntry.isImplemented app = true → ∃ index : Nat,
    app.defaultSensor = some (.int index) ∧ index < 4294967296 ∧
      ∃ sensor ∈ catalog.sensors.entries, CatalogEntry.index sensor = index
  /-- The first sensor with that index, unless it is a placeholder, measures what the application expects. -/
  measurementTypes : ∀ app ∈ catalog.applications.entries, CatalogEntry.isImplemented app = true →
    ∀ (index : Nat) (sensor : Sensor), app.defaultSensor = some (.int index) →
      catalog.sensors.get? index = some sensor → CatalogEntry.isImplemented sensor = true →
        (app.expectedMeasurementType == sensor.measurementType) = true

namespace Validation

/-! ## Stored hashes -/

theorem checkHash_eq_nil_iff (entry : String) (field : HashField) (name : String)
    (stored : Option UInt16) :
    checkHash entry field name stored = [] ↔ stored = some (nameHash name) := by
  cases stored with
  | none => simp [checkHash]
  | some found =>
    simp only [checkHash, Option.some.injEq]
    split <;> simp_all

theorem nameHashFaults_eq_nil_iff {E : Type} [CatalogEntry E] (registry : Registry E) :
    nameHashFaults registry = [] ↔ ∀ e ∈ registry.entries, StoresNameHash e := by
  rw [nameHashFaults, List.flatMap_eq_nil_iff]
  refine forall₂_congr fun e _ => ?_
  unfold StoresNameHash
  cases CatalogEntry.name? e with
  | none => simp
  | some name => simp [checkHash_eq_nil_iff]

theorem otherNameHashFaults_eq_nil_iff (registry : Registry DisplayUnit) :
    otherNameHashFaults registry = [] ↔
      ∀ unit ∈ registry.entries, ∀ name, unit.otherName = some name → unit.otherNameHash =
        some (nameHash name) := by
  rw [otherNameHashFaults, List.flatMap_eq_nil_iff]
  refine forall₂_congr fun unit _ => ?_
  cases unit.otherName with
  | none => simp
  | some name => simp [checkHash_eq_nil_iff]

/-! ## Collisions -/

section
variable {E : Type} [CatalogEntry E]

theorem pairwise_implemented_iff {R : E → E → Prop} {registry : Registry E} :
    registry.implemented.Pairwise R ↔ ImplementedPairwise R registry := List.pairwise_filter

theorem forall_implemented_iff {p : E → Prop} {registry : Registry E} :
    (∀ e ∈ registry.implemented, p e) ↔
      ∀ e ∈ registry.entries, CatalogEntry.isImplemented e = true → p e := by
  simp only [Registry.implemented, List.mem_filter, and_imp]

theorem collisionFaults_eq_nil_iff (claims : E → List (UInt16 × String)) (registry : Registry E) :
    collisionFaults claims registry = [] ↔
      (∀ e ∈ registry.implemented, ((claims e).map Prod.fst).Nodup) ∧
        ImplementedPairwise (fun a b =>
          ∀ hash ∈ (claims a).map Prod.fst, hash ∉ (claims b).map Prod.fst) registry := by
  rw [collisionFaults, List.map_eq_nil_iff, repetitions_eq_nil_iff, List.map_flatMap, List.Nodup,
    List.pairwise_flatMap, ← pairwise_implemented_iff]
  refine and_congr Iff.rfl (iff_of_eq (congrArg (registry.implemented.Pairwise ·) ?_))
  funext a b
  refine propext ⟨fun h hash ha hb => h hash ha hash hb rfl, fun h x hx y hy hxy => ?_⟩
  exact h x hx (hxy ▸ hy)

theorem nameClaims_hashes (e : E) :
    (nameClaims e).map Prod.fst = (CatalogEntry.nameHash? e).toList := by
  cases h : CatalogEntry.nameHash? e <;> simp [nameClaims, h]

theorem nameCollisions_eq_nil_iff (registry : Registry E) :
    collisionFaults nameClaims registry = [] ↔ NameHashesApart registry := by
  rw [collisionFaults_eq_nil_iff]
  simp only [nameClaims_hashes, Option.mem_toList, NameHashesApart]
  refine and_iff_right fun e _ => ?_
  cases CatalogEntry.nameHash? e <;> simp

end

theorem unitClaims_nodup (unit : DisplayUnit) : ((unitClaims unit).map Prod.fst).Nodup := by
  have hown : CatalogEntry.nameHash? unit = unit.nameHash := rfl
  rw [unitClaims, List.map_append, nameClaims_hashes, hown, otherNameClaims]
  cases unit.nameHash with
  | none => split <;> simp
  | some own =>
    split
    · rename_i other _ _
      by_cases h : own = other
      · simp [h]
      · simp [h]
    · simp

theorem mem_unitClaims_iff (unit : DisplayUnit) (hash : UInt16) :
    hash ∈ (unitClaims unit).map Prod.fst ↔ hash ∈ unit.hashes := by
  have hown : CatalogEntry.nameHash? unit = unit.nameHash := rfl
  rw [unitClaims, List.map_append, nameClaims_hashes, hown, DisplayUnit.hashes, List.mem_append,
    List.mem_append,
    otherNameClaims]
  cases hname : unit.otherName with
  | none => simp
  | some name =>
    cases hother : unit.otherNameHash with
    | none => simp
    | some other =>
      by_cases h : unit.nameHash = some other
      · simp [h]
      · simp [h]

theorem unitCollisions_eq_nil_iff (registry : Registry DisplayUnit) :
    collisionFaults unitClaims registry = [] ↔
      ImplementedPairwise (fun a b => ∀ hash ∈ a.hashes, hash ∉ b.hashes) registry := by
  rw [collisionFaults_eq_nil_iff]
  simp only [mem_unitClaims_iff]
  exact and_iff_right fun unit _ => unitClaims_nodup unit

/-! ## Indices -/

theorem duplicateIndexFaults_eq_nil_iff {E : Type} [CatalogEntry E] (registry : Registry E) :
    duplicateIndexFaults registry = [] ↔ IndicesApart registry := by
  rw [duplicateIndexFaults, List.map_eq_nil_iff, repetitions_eq_nil_iff, List.map_map, List.Nodup,
    List.pairwise_map]
  rfl

/-! ## Default sensors -/

theorem index?_eq_some_iff (value : FieldValue) (index : Nat) :
    value.index? = some index ↔ value = .int index ∧ index < 4294967296 := by
  cases value with
  | int v =>
    simp only [FieldValue.index?, FieldValue.int?, Option.bind_some, FieldValue.int.injEq]
    split
    · rename_i hv
      rw [Option.some.injEq]
      omega
    · rename_i hv
      simp only [reduceCtorEq, false_iff]
      omega
  | _ => simp [FieldValue.index?, FieldValue.int?]

theorem get?_isSome_iff {E : Type} [CatalogEntry E] (registry : Registry E) (index : Nat) :
    (registry.get? index).isSome = true ↔ ∃ e ∈ registry.entries, CatalogEntry.index e = index := by
  simp [Registry.get?, List.find?_isSome]

variable (catalog : Catalog) (app : Application)

theorem defaultSensor?_eq_some_iff (sensor : Sensor) :
    defaultSensor? catalog app = some sensor ↔ ∃ index : Nat,
      app.defaultSensor = some (.int index) ∧ index < 4294967296 ∧
        catalog.sensors.get? index = some sensor := by
  simp only [defaultSensor?, Option.bind_eq_some_iff]
  constructor
  · rintro ⟨index, ⟨value, happ, hvalue⟩, hget⟩
    obtain ⟨rfl, hlt⟩ := (index?_eq_some_iff value index).mp hvalue
    exact ⟨index, happ, hlt, hget⟩
  · rintro ⟨index, happ, hlt, hget⟩
    exact ⟨index, ⟨_, happ, (index?_eq_some_iff _ index).mpr ⟨rfl, hlt⟩⟩, hget⟩

theorem referenceFaults_eq_nil_iff :
    (referenceFindings catalog app).faults = [] ↔ ∃ index : Nat,
      app.defaultSensor = some (.int index) ∧ index < 4294967296 ∧
        ∃ sensor ∈ catalog.sensors.entries, CatalogEntry.index sensor = index := by
  simp only [← get?_isSome_iff, Option.isSome_iff_exists]
  unfold referenceFindings
  cases h : defaultSensor? catalog app with
  | none =>
    simp only [Findings.fault, List.cons_ne_nil, false_iff]
    rintro ⟨index, happ, hlt, sensor, hget⟩
    rw [(defaultSensor?_eq_some_iff catalog app sensor).mpr ⟨index, happ, hlt, hget⟩] at h
    cases h
  | some sensor =>
    obtain ⟨index, happ, hlt, hget⟩ := (defaultSensor?_eq_some_iff catalog app sensor).mp h
    refine iff_of_true ?_ ⟨index, happ, hlt, sensor, hget⟩
    simp only
    split <;> rfl

theorem measurementFaults_eq_nil_iff :
    measurementFaults catalog app = [] ↔ ∀ sensor, defaultSensor? catalog app = some sensor →
      CatalogEntry.isImplemented sensor = true →
        (app.expectedMeasurementType == sensor.measurementType) = true := by
  unfold measurementFaults
  cases h : defaultSensor? catalog app with
  | none => simp
  | some sensor =>
    by_cases himpl : CatalogEntry.isImplemented sensor = true
    · simp only [Option.filter_some, himpl, ite_true, Option.some.injEq, forall_eq']
      split <;> simp_all
    · rw [Option.filter_some, if_neg himpl]
      simp [himpl]

end Validation

/-! ## The report -/

open Validation

theorem validate_faults (catalog : Catalog) :
    catalog.validate.faults =
      (nameHashFaults catalog.sensors ++ nameHashFaults catalog.applications ++
        nameHashFaults catalog.units
          ++ otherNameHashFaults catalog.units)
        ++ (collisionFaults nameClaims catalog.sensors ++
          collisionFaults nameClaims catalog.applications
          ++ collisionFaults unitClaims catalog.units)
        ++ (duplicateIndexFaults catalog.sensors ++ duplicateIndexFaults catalog.applications
          ++ duplicateIndexFaults catalog.units)
        ++ (catalog.applications.implemented.flatMap fun app => (referenceFindings catalog app).faults)
        ++ catalog.applications.implemented.flatMap (measurementFaults catalog) := by
  simp [Catalog.validate, Report.faults, checkHashes, checkCollisions, checkIndices, checkReferences,
    checkMeasurementTypes, Findings.ofFaults, Findings.forEach]

theorem validate_faults_eq_nil_iff (catalog : Catalog) :
    catalog.validate.faults = [] ↔ catalog.Consistent := by
  simp only [validate_faults, List.append_eq_nil_iff, List.flatMap_eq_nil_iff,
    nameHashFaults_eq_nil_iff, otherNameHashFaults_eq_nil_iff, nameCollisions_eq_nil_iff,
    unitCollisions_eq_nil_iff, duplicateIndexFaults_eq_nil_iff, forall_implemented_iff,
    referenceFaults_eq_nil_iff, measurementFaults_eq_nil_iff]
  constructor
  · rintro ⟨⟨⟨⟨⟨⟨⟨hs, ha⟩, hu⟩, ho⟩, ⟨cs, ca⟩, cu⟩, ⟨ds, da⟩, du⟩, hd⟩, hm⟩
    refine ⟨hs, ha, hu, ho, cs, ca, cu, ds, da, du, hd, fun app happ himpl index sensor hindex hget => ?_⟩
    obtain ⟨index', hindex', hlt, -⟩ := hd app happ himpl
    obtain rfl : index = index' := by
      rw [hindex, Option.some.injEq, FieldValue.int.injEq] at hindex'
      exact Int.ofNat_inj.mp hindex'
    exact hm app happ himpl sensor ((defaultSensor?_eq_some_iff catalog app sensor).mpr ⟨index,
      hindex, hlt, hget⟩)
  · intro h
    refine ⟨⟨⟨⟨⟨⟨⟨h.sensorNameHashes, h.applicationNameHashes⟩, h.unitNameHashes⟩,
      h.unitOtherNameHashes⟩,
      ⟨h.sensorHashesApart, h.applicationHashesApart⟩, h.unitHashesApart⟩,
      ⟨h.sensorIndicesApart, h.applicationIndicesApart⟩, h.unitIndicesApart⟩, h.defaultSensors⟩, ?_⟩
    intro app happ himpl sensor hsensor
    obtain ⟨index, hindex, -, hget⟩ := (defaultSensor?_eq_some_iff catalog app sensor).mp hsensor
    exact h.measurementTypes app happ himpl index sensor hindex hget

/-- Entries with names that differ in case only store one hash, so they do not both stand where hashes are apart. -/
theorem NameHashesApart.namesApart {E : Type} [CatalogEntry E] {registry : Registry E}
    (hapart : NameHashesApart registry) (hstores : ∀ e ∈ registry.entries, StoresNameHash e) :
    NamesApart registry := by
  refine List.Pairwise.imp_of_mem ?_ hapart
  intro a b ha hb hab himpl himpl' m n hm hn hcase
  have hsa := hstores a ha m hm
  rw [nameHash_eq_of_upperCased_eq hcase] at hsa
  exact hab himpl himpl' _ hsa (hstores b hb n hn)

theorem Catalog.Consistent.unitNameHashesApart {catalog : Catalog} (h : catalog.Consistent) :
    NameHashesApart catalog.units := by
  refine List.Pairwise.imp ?_ h.unitHashesApart
  intro a b hab himpl himpl' hash ha hb
  have ha : a.nameHash = some hash := ha
  have hb : b.nameHash = some hash := hb
  exact hab himpl himpl' hash (by simp [DisplayUnit.hashes, ha]) (by simp [DisplayUnit.hashes, hb])

/-- **A report is clean iff the catalog is consistent.** In a consistent catalog the names of the implemented
entries of a registry differ in more than case. -/
theorem validate_clean_iff_consistent (catalog : Catalog) :
    (catalog.validate.faults.length = 0 ↔ catalog.Consistent) ∧
      (catalog.validate.faults.length = 0 →
        NamesApart catalog.sensors ∧ NamesApart catalog.applications ∧ NamesApart catalog.units) := by
  have hiff : catalog.validate.faults.length = 0 ↔ catalog.Consistent := by
    rw [List.length_eq_zero_iff, validate_faults_eq_nil_iff]
  refine ⟨hiff, fun hclean => ?_⟩
  have h := hiff.mp hclean
  exact ⟨h.sensorHashesApart.namesApart h.sensorNameHashes,
    h.applicationHashesApart.namesApart h.applicationNameHashes,
    h.unitNameHashesApart.namesApart h.unitNameHashes⟩

/-- Two thermocouples and one more name for the first, an application of the second one, and a unit whose other name
hashes as its name. -/
def thermocoupleCatalog (implemented : Bool) : Catalog :=
  let record (index : Nat) (implemented : Bool) (fields : List (String × FieldValue)) : EntryRecord :=
    ⟨index, Table.ofList fields, [], "", .structLiteral, implemented⟩
  let sensor (index : Nat) (implemented : Bool) (name : String) (hash : Int) : Sensor :=
    .ofRecord (record index implemented [("name", .string name), ("nameHash", .int hash),
      ("measurementType", .raw "TEMPERATURE")])
  let application : Application :=
    .ofRecord (record 1 true [("name", .string "CHT"), ("nameHash", .int 0xD984),
      ("expectedMeasurementType", .raw "TEMPERATURE"), ("defaultSensor", .int 1)])
  let unit : DisplayUnit :=
    .ofRecord (record 0 true [("name", .string "c"), ("nameHash", .int 0xB5E8), ("alias", .string "C"),
      ("aliasHash", .int 0xB5E8)])
  { sensors := ⟨[sensor 0 true "MAX6675" 0x2A23, sensor 1 true "MAX31855" 0x6B91,
      sensor 2 implemented "max6675" 0x2A23], .empty, "", ""⟩
    applications := ⟨[application], .empty, "", ""⟩
    units := ⟨[unit], .empty, "", ""⟩ }

/-- The second name is in the way only where it is implemented. -/
theorem thermocoupleCatalog_clean :
    (thermocoupleCatalog false).validate.faults.length = 0 ∧ (thermocoupleCatalog false).Consistent ∧
      NamesApart (thermocoupleCatalog false).sensors ∧ NamesApart (thermocoupleCatalog false).applications ∧
        NamesApart (thermocoupleCatalog false).units ∧
      (thermocoupleCatalog true).validate.faults.length = 1 ∧ ¬ (thermocoupleCatalog true).Consistent := by
  have hclean : (thermocoupleCatalog false).validate.faults.length = 0 := by decide
  have hfaulty : (thermocoupleCatalog true).validate.faults.length = 1 := by decide
  obtain ⟨hiff, hnames⟩ := validate_clean_iff_consistent (thermocoupleCatalog false)
  obtain ⟨hsensors, happlications, hunits⟩ := hnames hclean
  refine ⟨hclean, hiff.mp hclean, hsensors, happlications, hunits, hfaulty, fun hconsistent => ?_⟩
  have hnone := (validate_clean_iff_consistent (thermocoupleCatalog true)).1.mpr hconsistent
  exact absurd (hfaulty.symm.trans hnone) (by decide)

end FirmwareCatalog
