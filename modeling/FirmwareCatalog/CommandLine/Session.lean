import FirmwareCatalog.Artifacts
import FirmwareCatalog.CommandLine.Request
import FirmwareCatalog.NameHash
import FirmwareCatalog.Registry.Loading
import FirmwareCatalog.Validation.Basic
import FirmwareCatalog.Validation.Defines

/-!
# Sessions

What a command prints and does. Each line is printed as soon as it is known, so
what stands before a failure is seen. Generation starts only after the catalog,
the document and its inputs have been found to be in order.
-/

namespace FirmwareCatalog.CommandLine

open Numeral

/-- Why a command failed, the nearest cause first. -/
structure Failure where
  message : String
  causes : List String

/-- Steps that print and may fail. -/
abbrev Session (m : Type → Type) := ExceptT Failure (StateT String m)

/-- What remains of a run. -/
structure Outcome where
  output : String
  failure : Option Failure
  exitCode : Nat

section

variable {m : Type → Type} [Monad m]

def say (line : String) : Session m Unit := modify fun printed => printed ++ line ++ "\n"

/-- Goes on with a result, or fails with the cause behind a message. -/
def orFail {ε α : Type} (message : String) (cause : ε → String) : Except ε α → Session m α
  | .ok a => pure a
  | .error e => throw ⟨message, [cause e]⟩

/-- Announces a header, and how many entries its registry has. -/
def announced {E : Type} (header entries failure : String) (load : m (Except CompileError (Registry E))) :
    Session m (Registry E) := do
  say ("\nChecking " ++ header ++ "...")
  let registry ← orFail failure CompileError.message (← load)
  say ("  ✓ " ++ decimalText registry.entries.length ++ " " ++ entries ++ " loaded")
  return registry

def sayReport (report : Report) : Session m Unit := do
  for pass in report.passes do
    say ("\n" ++ String.ofList (Text.trimEnd pass.render.toList))
  say "\n=== Summary ==="
  say ("Status: " ++ report.summary)

def runHash (names : List String) : Session m Bool := do
  for name in names do
    say (NameHash.render (nameHash name) ++ "  " ++ name)
  return true

variable [Files m]

def loadSettings (explicit : Option Path) (project : Path) : Session m Settings := do
  match explicit with
  | some path => orFail ("Failed to load config " ++ path.text) SettingsError.message (← (Settings.load path : m _))
  | none => orFail "Failed to load regc.toml" SettingsError.message (← (Settings.find project : m _))

def loadCatalog (settings : RegistrySettings) (project : Path) : Session m Catalog := do
  let enums ← (loadEnumConstants settings project : m _)
  let sensors ← announced settings.sensorHeader "sensors" "Could not compile the sensor registry"
    (loadSensors settings project enums)
  let applications ← announced settings.applicationHeader "applications" "Could not compile the application registry"
    (loadApplications settings project enums)
  let units ← announced settings.unitHeader "units" "Could not compile the unit registry"
    (loadUnits settings project enums)
  return { sensors, applications, units }

/-- The check of the config header; bytes that are no text do not hinder it. -/
def checkedConfig (settings : GeneratorSettings) (project : Path) (catalog : Catalog) : Session m Report := do
  let path := project.join settings.configHeader
  let content ← orFail ("Failed to read " ++ path.text) FileError.message (← (Files.read path : m _))
  let text := String.ofList (Utf8.decodeLossy content)
  return ⟨[Validation.checkConfigBlock catalog settings.markers text]⟩

def runValidate (settings : Settings) (project : Path) (checkConfig ci : Bool) : Session m Bool := do
  say "=== Registry Validation ==="
  let catalog ← loadCatalog settings.registry project
  let config ← if checkConfig then checkedConfig settings.generator project catalog else pure ⟨[]⟩
  let report := catalog.validate ++ config
  sayReport report
  return !ci || report.isValid

/-- The platform that banners cite: the one that was asked for, else that of the document, else that of the
settings. -/
def platformOf (asked : Option String) (document : ConfigDocument) (settings : GeneratorSettings) : String :=
  let recorded := document.metadata.platform
  asked.getD (if recorded.isEmpty then settings.platform else recorded)

def sayGenerated (generated : Generated) : Session m Unit := do
  say "\n=== Generated ==="
  let change := if generated.patch.replaced then "block replaced" else "block appended"
  say ("  ✓ " ++ generated.configHeader.text ++ " (" ++ change ++ ")")
  say ("  ✓ backup at " ++ generated.patch.backup.text)
  match generated.calibration with
  | .written path => say ("  ✓ " ++ path.text)
  | .removed path => say ("  ✓ removed " ++ path.text ++ " (no custom calibrations)")
  | .notNeeded => pure ()
  for path in generated.thinLibraries do
    say ("  ✓ " ++ path.text)

def saveDocument (document : ConfigDocument) (path : Path) : Session m Unit := do
  orFail ("Failed to save config document " ++ path.text) DocumentError.message (← (document.save path : m _))
  say ("  ✓ saved " ++ path.text)

/-- Loads the document and lets it pass only if it and the catalog have no faults. -/
def checkedDocument (catalog : Catalog) (path : Path) : Session m ConfigDocument := do
  let document ← orFail ("Failed to load config document " ++ path.text) DocumentError.message
    (← (ConfigDocument.load path : m _))
  say ("\nLoaded " ++ decimalText document.inputs.length ++ " inputs from " ++ path.text)
  let report := catalog.validate ++ catalog.validateInputs document.inputs
  sayReport report
  if !report.isValid then
    throw ⟨"Validation failed with " ++ decimalText report.faults.length ++ " errors; nothing was generated", []⟩
  return document

def runGenerate (toolVersion : String) (now : Timestamp) (settings : Settings) (path project : Path)
    (platform : Option String) (thin : Bool) (save : Option Path) : Session m Bool := do
  say "=== Static Configuration ==="
  let catalog ← loadCatalog settings.registry project
  let document ← checkedDocument catalog path
  let ctx := { toolVersion, platform := platformOf platform document settings.generator, timestamp := now }
  let generated ← orFail "Generation failed" GenerateError.message
    (← (generate settings.generator project catalog document.inputs ctx thin : m _))
  sayGenerated generated
  match save with
  | some path => saveDocument document path
  | none => pure ()
  return true

def Command.project : Command → Path
  | .validate project .. => project
  | .generate _ project .. => project
  | .hash _ => ⟨"."⟩

/-- Runs a command; the answer is whether the run counts as a success. -/
def Request.run (request : Request) (toolVersion : String) (now : Timestamp) : Session m Bool := do
  let settings ← loadSettings request.settings request.command.project
  match request.command with
  | .validate project checkConfig ci => runValidate settings project checkConfig ci
  | .generate document project platform thin save =>
    runGenerate toolVersion now settings document project platform thin save
  | .hash names => runHash names

def Session.outcome (session : Session m Bool) : m Outcome := do
  match ← (session.run).run "" with
  | (.ok success, output) => return { output, failure := none, exitCode := if success then 0 else 1 }
  | (.error failure, output) => return { output, failure := some failure, exitCode := 1 }

/-! ## The program -/

def version : String := "0.1.0"

def helpText : String :=
  "Registry compiler for firmware catalog headers\n\n"
    ++ "Usage: regc [OPTIONS] <COMMAND>\n\n"
    ++ "Commands:\n"
    ++ "  validate  Compile the registries and run every validation pass\n"
    ++ "  generate  Generate static configuration from a saved config document\n"
    ++ "  hash      Print the DJB2-16 hash of each name\n"
    ++ "  help      Print this message or the help of the given subcommand(s)\n\n"
    ++ "Options:\n"
    ++ "  -v, --verbose...     Increase log verbosity (-v info, -vv debug, -vvv trace)\n"
    ++ "      --config <FILE>  Path to regc.toml (searched upward from the project directory by default)\n"
    ++ "  -h, --help           Print help\n"
    ++ "  -V, --version        Print version\n"

/-- Arguments that cannot be read end a run before it prints anything. -/
def run (args : List String) (now : Timestamp) : m Outcome := do
  match Request.parse args with
  | .error .usage => return { output := "", failure := none, exitCode := 2 }
  | .error .help => return { output := helpText, failure := none, exitCode := 0 }
  | .error .version => return { output := "regc " ++ version ++ "\n", failure := none, exitCode := 0 }
  | .ok request => (request.run version now).outcome

end

end FirmwareCatalog.CommandLine
