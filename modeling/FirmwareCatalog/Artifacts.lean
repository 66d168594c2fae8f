import FirmwareCatalog.CalibrationTable
import FirmwareCatalog.ConfigBlock
import FirmwareCatalog.ConfigHeader
import FirmwareCatalog.Settings
import FirmwareCatalog.ThinLibrary

/-!
# Generated artifacts

A run of the generator patches the config header, writes the calibration table
or removes one that is no longer needed, and writes the thin libraries if they
are asked for. Calibrations are rendered first, so one that cannot be used
leaves the project alone.
-/

namespace FirmwareCatalog

/-- What became of the calibration table. -/
inductive CalibrationArtifact where
  | written (path : Path)
  | removed (path : Path)
  | notNeeded

/-- What a run did. -/
structure Generated where
  configHeader : Path
  patch : ConfigHeader.Patch
  calibration : CalibrationArtifact
  thinLibraries : List Path

section

variable {m : Type → Type} [Monad m] [Files m]

/-- Writes a file and makes the directories that it needs. -/
def writeArtifact (path : Path) (content : String) : m (Except GenerateError Unit) := do
  let directories : Except GenerateError Unit ← match path.parent? with
    | none => pure (.ok ())
    | some directory => do
      match ← Files.createDirectories directory with
      | .error e => pure (.error (.io directory e))
      | .ok () => pure (.ok ())
  match directories with
  | .error e => return .error e
  | .ok () =>
    match ← Files.write path (textBytes content) with
    | .error e => return .error (.io path e)
    | .ok () => return .ok ()

/-- Writes the table, or removes an old one when there is none. -/
def writeCalibrationTable (path : Path) (content : Option String) : m (Except GenerateError CalibrationArtifact) := do
  match content with
  | some text =>
    match ← writeArtifact path text with
    | .error e => return .error e
    | .ok () => return .ok (.written path)
  | none =>
    if ← Files.isPresent path then
      match ← Files.removeFile path with
      | .error e => return .error (.io path e)
      | .ok () => return .ok (.removed path)
    else return .ok .notNeeded

/-- Writes the entries of a registry that inputs use. -/
def writeThinLibrary {E : Type} [CatalogEntry E] (registry : Registry E) (referenced : List Nat)
    (ctx : GenerationContext) (directory : Path) (fileName : String) : m (Except GenerateError Path) := do
  let path := directory.join ⟨fileName⟩
  match ← writeArtifact path (ThinLibrary.render registry referenced ctx fileName) with
  | .error e => return .error e
  | .ok () => return .ok path

/-- The library of sensors, then that of applications. -/
def writeThinLibraries (settings : GeneratorSettings) (directory : Path) (catalog : Catalog)
    (inputs : List InputAssignment) (ctx : GenerationContext) : m (Except GenerateError (List Path)) := do
  let sensors := inputs.map (·.sensorIndex.toNat)
  let applications := inputs.map (·.applicationIndex.toNat)
  match ← writeThinLibrary catalog.sensors sensors ctx directory settings.sensorThinLibrary with
  | .error e => return .error e
  | .ok sensorPath =>
    match ← writeThinLibrary catalog.applications applications ctx directory settings.applicationThinLibrary with
    | .error e => return .error e
    | .ok applicationPath => return .ok [sensorPath, applicationPath]

/-- Writes everything, with the calibration table at hand. -/
def writeArtifacts (settings : GeneratorSettings) (project : Path) (catalog : Catalog)
    (inputs : List InputAssignment) (ctx : GenerationContext) (thin : Bool) (table : Option String) :
    m (Except GenerateError Generated) := do
  let configHeader := project.join settings.configHeader
  let block := ConfigBlock.render inputs ctx settings.markers
  match ← ConfigHeader.patch configHeader block settings.markers settings.backupSuffix with
  | .error e => return .error e
  | .ok patch =>
    let directory := project.join settings.generatedDir
    match ← writeCalibrationTable (directory.join ⟨settings.calibrationFile⟩) table with
    | .error e => return .error e
    | .ok calibration =>
      if thin then
        match ← writeThinLibraries settings directory catalog inputs ctx with
        | .error e => return .error e
        | .ok thinLibraries => return .ok { configHeader, patch, calibration, thinLibraries }
      else return .ok { configHeader, patch, calibration, thinLibraries := [] }

/-- Generates the artifacts of a list of inputs. -/
def generate (settings : GeneratorSettings) (project : Path) (catalog : Catalog) (inputs : List InputAssignment)
    (ctx : GenerationContext) (thin : Bool) : m (Except GenerateError Generated) := do
  match CalibrationTable.render? inputs ctx with
  | .error e => return .error e
  | .ok table => writeArtifacts settings project catalog inputs ctx thin table

end

end FirmwareCatalog
