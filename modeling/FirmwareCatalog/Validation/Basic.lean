import FirmwareCatalog.Validation.Hashes
import FirmwareCatalog.Validation.Pins
import FirmwareCatalog.Validation.References

/-!
# Validation

The passes that a catalog goes through by itself, and those that inputs go
through with it. No pass depends on another, and none stops at its first
finding.
-/

namespace FirmwareCatalog

def Catalog.validate (catalog : Catalog) : Report :=
  ⟨[Validation.checkHashes catalog, Validation.checkCollisions catalog, Validation.checkIndices catalog,
    Validation.checkReferences catalog, Validation.checkMeasurementTypes catalog]⟩

def Catalog.validateInputs (catalog : Catalog) (inputs : List InputAssignment) : Report :=
  ⟨[Validation.checkPins catalog.sensors inputs, Validation.checkAssignments catalog inputs]⟩

end FirmwareCatalog
