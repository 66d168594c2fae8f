import FirmwareCatalog.Header.StringMacro
import FirmwareCatalog.Registry.Entry

/-!
# Registries

The entries of one kind in the order of their declaration, with the string
macros of their header and the array they are declared in.
-/

namespace FirmwareCatalog

structure Registry (E : Type) where
  entries : List E
  macros : Table StringMacro
  elementType : String
  arrayName : String

instance {E : Type} [BEq E] : BEq (Registry E) where
  beq a b := a.entries == b.entries && a.macros = b.macros && a.elementType = b.elementType
    && a.arrayName = b.arrayName

namespace Registry

variable {E : Type} [CatalogEntry E]

/-- The first entry with an index. -/
def get? (r : Registry E) (index : Nat) : Option E :=
  r.entries.find? fun e => CatalogEntry.index e = index

def implemented (r : Registry E) : List E := r.entries.filter CatalogEntry.isImplemented

/-- Keeps a list of numbers ascending and without repetition. -/
def insertIndex (n : Nat) : List Nat → List Nat
  | [] => [n]
  | k :: ks => if n < k then n :: k :: ks else if n = k then k :: ks else k :: insertIndex n ks

/-- The indices in use, ascending. -/
def indices (r : Registry E) : List Nat :=
  r.entries.foldl (fun ks e => insertIndex (CatalogEntry.index e) ks) []

def empty (E : Type) : Registry E := ⟨[], .empty, "", ""⟩

end Registry

/-- The catalog: one registry of each kind. -/
structure Catalog where
  sensors : Registry Sensor
  applications : Registry Application
  units : Registry DisplayUnit
deriving BEq

end FirmwareCatalog
