import FirmwareCatalog.Header.EnumConstant
import FirmwareCatalog.Registry.Inlining
import FirmwareCatalog.Registry.Layout
import FirmwareCatalog.Settings

/-!
# Loading the catalog

Reads the registries of a project from its headers. A project without a readable
header of enum constants has none.
-/

namespace FirmwareCatalog

variable {m : Type → Type} [Monad m] [Files m]

def loadEnumConstants (settings : RegistrySettings) (project : Path) : m (Table Int) := do
  match ← Files.readText (settings.enumPath project) with
  | .error _ => return .empty
  | .ok text => return Header.enumConstants text.toList

/-- Reads a registry from its header. -/
def loadRegistry (E : Type) [CatalogEntry E] (layout : RegistryLayout) (enums : Table Int) (path : Path) :
    m (Except CompileError (Registry E)) := do
  match ← Files.readText path with
  | .error e => return .error (.io path e)
  | .ok text => return compileRegistry E layout enums path text

/-- The header of the sensors is read with its includes. -/
def loadSensors (settings : RegistrySettings) (project : Path) (enums : Table Int) :
    m (Except CompileError (Registry Sensor)) := do
  let path := settings.sensorPath project
  match ← Files.readText path with
  | .error e => return .error (.io path e)
  | .ok text =>
    return compileRegistry Sensor .sensors enums path (← inlineIncludes path settings.includeSubdir text)

def loadApplications (settings : RegistrySettings) (project : Path) (enums : Table Int) :
    m (Except CompileError (Registry Application)) :=
  loadRegistry Application .applications enums (settings.applicationPath project)

def loadUnits (settings : RegistrySettings) (project : Path) (enums : Table Int) :
    m (Except CompileError (Registry DisplayUnit)) :=
  loadRegistry DisplayUnit .units enums (settings.unitPath project)

def Catalog.load (settings : RegistrySettings) (project : Path) : m (Except CompileError Catalog) := do
  let enums ← loadEnumConstants settings project
  match ← loadSensors settings project enums with
  | .error e => return .error e
  | .ok sensors =>
    match ← loadApplications settings project enums with
    | .error e => return .error e
    | .ok applications =>
      match ← loadUnits settings project enums with
      | .error e => return .error e
      | .ok units => return .ok { sensors, applications, units }

end FirmwareCatalog
