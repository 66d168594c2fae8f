import FirmwareCatalog.Registry.Basic
import FirmwareCatalog.Validation.Repetition
import FirmwareCatalog.Validation.Report

/-!
# Hashes and indices

The firmware looks names up by their hash alone: a stored hash has to be that of
its name, and two implemented entries of a registry must not share one. Units
are found by their other names too. An index belongs to one entry.
-/

namespace FirmwareCatalog.Validation

/-! ## Stored hashes -/

def checkHash (entry : String) (field : HashField) (name : String) : (stored : Option UInt16) → List Fault
  | none => [.missingHash entry field]
  | some found => if found = nameHash name then [] else [.hashMismatch entry field (nameHash name) found]

def otherNameOwner (unit : DisplayUnit) (name : String) : String := CatalogEntry.describe unit ++ " alias " ++ name

section

variable {E : Type} [CatalogEntry E]

/-- An entry without a name needs no hash. -/
def nameHashFaults (registry : Registry E) : List Fault :=
  registry.entries.flatMap fun e =>
    match CatalogEntry.name? e with
    | none => []
    | some name => checkHash (CatalogEntry.describe e) .name name (CatalogEntry.nameHash? e)

end

def otherNameHashFaults (registry : Registry DisplayUnit) : List Fault :=
  registry.entries.flatMap fun unit =>
    match unit.otherName with
    | none => []
    | some name => checkHash (otherNameOwner unit name) .otherName name unit.otherNameHash

def checkHashes (catalog : Catalog) : Pass where
  title := "Checking hash algorithm correctness"
  success := "All hashes match djb2 algorithm"
  findings := .ofFaults (nameHashFaults catalog.sensors ++ nameHashFaults catalog.applications
    ++ nameHashFaults catalog.units ++ otherNameHashFaults catalog.units)

/-! ## Collisions -/

/-- The hash by which an entry is found, with its owner. -/
def nameClaims {E : Type} [CatalogEntry E] (e : E) : List (UInt16 × String) :=
  (CatalogEntry.nameHash? e).toList.map fun hash => (hash, CatalogEntry.describe e)

/-- Another name with the hash of the unit's own name claims nothing more. -/
def otherNameClaims (unit : DisplayUnit) : List (UInt16 × String) :=
  match unit.otherName, unit.otherNameHash with
  | some name, some hash => if unit.nameHash = some hash then [] else [(hash, otherNameOwner unit name)]
  | _, _ => []

def unitClaims (unit : DisplayUnit) : List (UInt16 × String) := nameClaims unit ++ otherNameClaims unit

/-- The collisions of the implemented entries of a registry. -/
def collisionFaults {E : Type} [CatalogEntry E] (claims : E → List (UInt16 × String)) (registry : Registry E) :
    List Fault :=
  (repetitions (registry.implemented.flatMap claims)).map fun r =>
    .hashCollision (CatalogEntry.kind E) r.key r.first r.second

def checkCollisions (catalog : Catalog) : Pass where
  title := "Checking for hash collisions"
  success := "No hash collisions found"
  findings := .ofFaults (collisionFaults nameClaims catalog.sensors
    ++ collisionFaults nameClaims catalog.applications ++ collisionFaults unitClaims catalog.units)

/-! ## Indices -/

def duplicateIndexFaults {E : Type} [CatalogEntry E] (registry : Registry E) : List Fault :=
  (repetitions (registry.entries.map fun e => (CatalogEntry.index e, CatalogEntry.describe e))).map fun r =>
    .duplicateIndex (CatalogEntry.kind E) r.key r.first r.second

def checkIndices (catalog : Catalog) : Pass where
  title := "Checking index uniqueness"
  success := "All indices are unique"
  findings := .ofFaults (duplicateIndexFaults catalog.sensors ++ duplicateIndexFaults catalog.applications
    ++ duplicateIndexFaults catalog.units)

end FirmwareCatalog.Validation
