import FirmwareCatalog.Document
import FirmwareCatalog.Registry.Basic
import FirmwareCatalog.Validation.Report

/-!
# References

Applications name a default sensor, inputs name an application and a sensor.
What is named has to exist, and should be implemented; an application and its
sensor have to measure the same quantity.
-/

namespace FirmwareCatalog.Validation

/-! ## Default sensors -/

def defaultSensor? (catalog : Catalog) (app : Application) : Option Sensor :=
  (app.defaultSensor.bind (·.index?)).bind catalog.sensors.get?

def shownOr (absent : String) (value : Option FieldValue) : String := (value.map FieldValue.render).getD absent

def referenceFindings (catalog : Catalog) (app : Application) : Findings :=
  match defaultSensor? catalog app with
  | none => .fault (.missingDefaultSensor (CatalogEntry.describe app) (shownOr "none" app.defaultSensor))
  | some sensor =>
    if CatalogEntry.isImplemented sensor then .none
    else .warning (.unimplementedDefaultSensor (CatalogEntry.describe app) (CatalogEntry.describe sensor))

def checkReferences (catalog : Catalog) : Pass where
  title := "Checking cross-references"
  success := "All index references are valid"
  findings := .forEach catalog.applications.implemented (referenceFindings catalog)

/-- Placeholders measure nothing. -/
def measurementFaults (catalog : Catalog) (app : Application) : List Fault :=
  match (defaultSensor? catalog app).filter CatalogEntry.isImplemented with
  | none => []
  | some sensor =>
    if app.expectedMeasurementType == sensor.measurementType then []
    else [.measurementTypeMismatch (CatalogEntry.describe app) (shownOr "nothing" app.expectedMeasurementType)
      (CatalogEntry.describe sensor) (shownOr "nothing" sensor.measurementType)]

def checkMeasurementTypes (catalog : Catalog) : Pass where
  title := "Checking measurement types"
  success := "All measurement types are consistent"
  findings := .ofFaults (catalog.applications.implemented.flatMap (measurementFaults catalog))

/-! ## Inputs -/

/-- The findings about an entry that an input selects. -/
def selectionFindings {E : Type} [CatalogEntry E] (input : InputAssignment) (unknown : Fault) : Option E → Findings
  | none => .fault unknown
  | some e =>
    if CatalogEntry.isImplemented e then .none
    else .warning (.unimplementedSelection input.idx.toNat (CatalogEntry.describe e))

def assignmentFindings (catalog : Catalog) (input : InputAssignment) : Findings :=
  let application := input.applicationIndex.toNat
  let sensor := input.sensorIndex.toNat
  selectionFindings input (.unknownApplication input.idx.toNat application) (catalog.applications.get? application)
    ++ selectionFindings input (.unknownSensor input.idx.toNat sensor) (catalog.sensors.get? sensor)

def checkAssignments (catalog : Catalog) (inputs : List InputAssignment) : Pass where
  title := "Checking input assignments"
  success := "All inputs reference existing entries"
  findings := .forEach inputs (assignmentFindings catalog)

end FirmwareCatalog.Validation
