import FirmwareCatalog.Files
import FirmwareCatalog.MarkedBlock
import FirmwareCatalog.Toml.Parser

/-!
# Project settings

Where a project keeps its registry headers and generated files. Settings come
from `regc.toml`, and what it leaves out has a default. A table may be written as
an array of its values in order, or as a date or time, which sets none of them.
-/

namespace FirmwareCatalog

structure RegistrySettings where
  headerDir : Path
  sensorHeader : String
  applicationHeader : String
  unitHeader : String
  /-- Only includes below this directory are inlined. -/
  includeSubdir : String
  /-- The header of enum constants, in the directory of the headers. -/
  enumHeader : String
deriving DecidableEq

structure GeneratorSettings where
  /-- The header that receives the static config block. -/
  configHeader : Path
  generatedDir : Path
  startMarker : String
  endMarker : String
  backupSuffix : String
  calibrationFile : String
  sensorThinLibrary : String
  applicationThinLibrary : String
  /-- The platform where neither the user nor the document names one. -/
  platform : String
deriving DecidableEq

structure LoggingSettings where
  level : String
deriving DecidableEq

structure Settings where
  registry : RegistrySettings
  generator : GeneratorSettings
  logging : LoggingSettings
deriving DecidableEq

/-! ## Defaults -/

def RegistrySettings.standard : RegistrySettings where
  headerDir := ⟨"src/lib"⟩
  sensorHeader := "sensor_library.h"
  applicationHeader := "application_presets.h"
  unitHeader := "units_registry.h"
  includeSubdir := "sensor_library/"
  enumHeader := "generated/registry_enums.h"

def BlockMarkers.standard : BlockMarkers where
  start := "#ifdef USE_STATIC_CONFIG"
  stop := "#endif // USE_STATIC_CONFIG"

def GeneratorSettings.standard : GeneratorSettings where
  configHeader := ⟨"src/config.h"⟩
  generatedDir := ⟨"src/lib/generated"⟩
  startMarker := BlockMarkers.standard.start
  endMarker := BlockMarkers.standard.stop
  backupSuffix := ".bak"
  calibrationFile := "static_calibrations.h"
  sensorThinLibrary := "sensor_library_static.h"
  applicationThinLibrary := "application_presets_static.h"
  platform := "uno"

def LoggingSettings.standard : LoggingSettings where
  level := "warn"

def Settings.standard : Settings where
  registry := .standard
  generator := .standard
  logging := .standard

def GeneratorSettings.markers (settings : GeneratorSettings) : BlockMarkers :=
  ⟨settings.startMarker, settings.endMarker⟩

/-! ## Locations -/

namespace RegistrySettings

def directory (settings : RegistrySettings) (project : Path) : Path := project.join settings.headerDir

def headerPath (settings : RegistrySettings) (project : Path) (header : String) : Path :=
  (settings.directory project).join ⟨header⟩

def sensorPath (settings : RegistrySettings) (project : Path) : Path :=
  settings.headerPath project settings.sensorHeader

def applicationPath (settings : RegistrySettings) (project : Path) : Path :=
  settings.headerPath project settings.applicationHeader

def unitPath (settings : RegistrySettings) (project : Path) : Path :=
  settings.headerPath project settings.unitHeader

def enumPath (settings : RegistrySettings) (project : Path) : Path :=
  settings.headerPath project settings.enumHeader

end RegistrySettings

/-! ## Reading -/

/-- The members of a table, or the items of an array under the names in order. A moment has no member with one
of the names. -/
def namedMembers? (names : List String) : Toml → Option Toml.Members
  | .table _ members => some members
  | .moment _ => some []
  | .array items => some (names.zip items)
  | .tables earlier last => some (names.zip (earlier ++ [.table .header last]))
  | _ => none

/-- A text, by default another one. -/
def textMember? (members : Toml.Members) (name default : String) : Option String :=
  match members.lookup name with
  | none => some default
  | some (.string text) => some text
  | some _ => none

def RegistrySettings.ofToml? (toml : Toml) : Option RegistrySettings := do
  let names := ["header_dir", "sensor_header", "application_header", "unit_header", "include_subdir", "enum_header"]
  let members ← namedMembers? names toml
  let base := RegistrySettings.standard
  return { headerDir := ⟨← textMember? members "header_dir" base.headerDir.text⟩
           sensorHeader := ← textMember? members "sensor_header" base.sensorHeader
           applicationHeader := ← textMember? members "application_header" base.applicationHeader
           unitHeader := ← textMember? members "unit_header" base.unitHeader
           includeSubdir := ← textMember? members "include_subdir" base.includeSubdir
           enumHeader := ← textMember? members "enum_header" base.enumHeader }

def GeneratorSettings.ofToml? (toml : Toml) : Option GeneratorSettings := do
  let names := ["config_header", "generated_dir", "start_marker", "end_marker", "backup_suffix", "calibration_file",
    "sensor_thin_lib", "application_thin_lib", "platform"]
  let members ← namedMembers? names toml
  let base := GeneratorSettings.standard
  return { configHeader := ⟨← textMember? members "config_header" base.configHeader.text⟩
           generatedDir := ⟨← textMember? members "generated_dir" base.generatedDir.text⟩
           startMarker := ← textMember? members "start_marker" base.startMarker
           endMarker := ← textMember? members "end_marker" base.endMarker
           backupSuffix := ← textMember? members "backup_suffix" base.backupSuffix
           calibrationFile := ← textMember? members "calibration_file" base.calibrationFile
           sensorThinLibrary := ← textMember? members "sensor_thin_lib" base.sensorThinLibrary
           applicationThinLibrary := ← textMember? members "application_thin_lib" base.applicationThinLibrary
           platform := ← textMember? members "platform" base.platform }

def LoggingSettings.ofToml? (toml : Toml) : Option LoggingSettings := do
  let members ← namedMembers? ["level"] toml
  return { level := ← textMember? members "level" LoggingSettings.standard.level }

/-- A member that is a table, or its default. -/
def tableMember? {α : Type} (members : Toml.Members) (name : String) (default : α) (read : Toml → Option α) :
    Option α :=
  match members.lookup name with
  | none => some default
  | some toml => read toml

/-- The settings of a text; nothing when it is not TOML or has another shape. -/
def Settings.parse? (text : String) : Option Settings := do
  let members ← Toml.parse? text
  return { registry := ← tableMember? members "registry" .standard RegistrySettings.ofToml?
           generator := ← tableMember? members "generator" .standard GeneratorSettings.ofToml?
           logging := ← tableMember? members "logging" .standard LoggingSettings.ofToml? }

/-! ## Files -/

inductive SettingsError where
  | io (error : FileError)
  | parse
  | notFound (path : Path)

def SettingsError.message : SettingsError → String
  | .io error => "Failed to read config file: " ++ error.message
  | .parse => "Failed to parse config"
  | .notFound path => "Config file not found: " ++ path.text

def Settings.fileName : String := "regc.toml"

section

variable {m : Type → Type} [Monad m] [Files m]

def Settings.load (path : Path) : m (Except SettingsError Settings) := do
  if !(← Files.isPresent path) then return .error (.notFound path)
  match ← Files.readText path with
  | .error e => return .error (.io e)
  | .ok text =>
    match Settings.parse? text with
    | none => return .error .parse
    | some settings => return .ok settings

/-- The settings of the first directory that has some, else the defaults. -/
def Settings.findIn : List Path → m (Except SettingsError Settings)
  | [] => return .ok .standard
  | directory :: directories => do
    let path := directory.join ⟨Settings.fileName⟩
    if ← Files.isPresent path then Settings.load path else Settings.findIn directories

/-- Looks in a directory and in those above it. -/
def Settings.find (start : Path) : m (Except SettingsError Settings) := Settings.findIn start.ancestors

end

end FirmwareCatalog
