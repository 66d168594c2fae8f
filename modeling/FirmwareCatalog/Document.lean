import FirmwareCatalog.Files
import FirmwareCatalog.Json.Parser
import FirmwareCatalog.Json.Printer
import FirmwareCatalog.Timestamp

/-!
# Configuration documents

A document records a finished list of input assignments, with the tool, the
platform and the time it was made for. It is kept as JSON of schema version 1 in
static mode; other versions and modes are refused before anything else is looked
at.
-/

namespace FirmwareCatalog

inductive CalibrationSource where
  /-- The calibration that the sensor brings. -/
  | builtIn
  /-- Parameters of this input. -/
  | custom
deriving DecidableEq, Inhabited

def CalibrationSource.render : CalibrationSource → String
  | .builtIn => "DEFAULT"
  | .custom => "CUSTOM"

structure Calibration where
  type : String
  source : CalibrationSource
  params : Table JsonNumber
deriving BEq

structure InputAssignment where
  idx : UInt32
  pin : String
  application : String
  applicationIndex : UInt32
  sensor : String
  sensorIndex : UInt32
  calibration : Option Calibration
deriving BEq

/-- The calibration of an input that does not use the one of its sensor. -/
def InputAssignment.customCalibration? (input : InputAssignment) : Option Calibration :=
  input.calibration.filter fun c => c.source = .custom

structure Metadata where
  toolVersion : String
  platform : String
  /-- Seconds since 1970. -/
  timestamp : Int64
deriving BEq

def Metadata.generatedAt? (metadata : Metadata) : Option Timestamp :=
  let t : Timestamp := ⟨metadata.timestamp.toInt⟩
  if t.inRange then some t else none

structure ConfigDocument where
  metadata : Metadata
  inputs : List InputAssignment
deriving BEq

inductive DocumentError where
  | io (path : Path) (error : FileError)
  | notJson
  | wrongShape
  /-- The version as it stands in the document. -/
  | unsupportedSchema (version : String)
  | unsupportedMode (mode : String)

def DocumentError.message : DocumentError → String
  | .io path error => "Failed to access " ++ path.text ++ ": " ++ error.message
  | .notJson => "Invalid configuration document: no JSON"
  | .wrongShape => "Invalid configuration document: wrong shape"
  | .unsupportedSchema version => "Unsupported schemaVersion " ++ version ++ " (only 1 is supported)"
  | .unsupportedMode mode => "Unsupported mode " ++ mode ++ " (only \"static\" is supported)"

/-! ## Writing -/

def natJson (n : Nat) : Json := .number (.integer n)

def Calibration.toJson (c : Calibration) : Json :=
  .object [("type", .string c.type), ("source", .string c.source.render),
    ("params", .object (c.params.entries.map fun p => (p.1, .number p.2)))]

/-- An absent calibration is not written. -/
def InputAssignment.toJson (input : InputAssignment) : Json :=
  let calibration := match input.calibration with
    | some c => [("calibration", c.toJson)]
    | none => []
  .object ([("idx", natJson input.idx.toNat), ("pin", .string input.pin), ("application", .string input.application),
    ("applicationIndex", natJson input.applicationIndex.toNat), ("sensor", .string input.sensor),
    ("sensorIndex", natJson input.sensorIndex.toNat)] ++ calibration)

def Metadata.toJson (metadata : Metadata) : Json :=
  .object [("toolVersion", .string metadata.toolVersion), ("platform", .string metadata.platform),
    ("timestamp", .number (.integer metadata.timestamp.toInt))]

def ConfigDocument.toJson (document : ConfigDocument) : Json :=
  .object [("schemaVersion", natJson 1), ("mode", .string "static"), ("metadata", document.metadata.toJson),
    ("inputs", .array (document.inputs.map InputAssignment.toJson))]

/-- The text of a document. -/
def ConfigDocument.render (document : ConfigDocument) : String := document.toJson.pretty ++ "\n"

/-! ## Reading -/

/-- The members of a record: those of an object, or the items of an array for the names in order. -/
def recordMembers? (names : List String) : Json → Option (List (String × Json))
  | .object members => some members
  | .array items => if items.length ≤ names.length then some (names.zip items) else none
  | _ => none

def uint32? (json : Json) : Option UInt32 := (json.natural? 32).map UInt32.ofNat

def int64? (json : Json) : Option Int64 :=
  json.int?.bind fun v => if -9223372036854775808 ≤ v ∧ v < 9223372036854775808 then some (Int64.ofInt v) else none

def sourceOfName? (name : String) : Option CalibrationSource :=
  if name = "DEFAULT" || name = "default" then some .builtIn
  else if name = "CUSTOM" || name = "custom" then some .custom
  else none

/-- A source is written by its name, alone or as the only member of an object with nothing in it. -/
def CalibrationSource.ofJson? : Json → Option CalibrationSource
  | .string name => sourceOfName? name
  | .object [(name, .null)] => sourceOfName? name
  | _ => none

def paramOfMember? : String × Json → Option (String × JsonNumber)
  | (name, .number value) => some (name, value)
  | _ => none

def paramsOfJson? : Json → Option (Table JsonNumber)
  | .object members => (members.mapM paramOfMember?).map Table.ofList
  | _ => none

def Calibration.ofJson? (json : Json) : Option Calibration := do
  let members ← recordMembers? ["type", "source", "params"] json
  return { type := ← (← members.lookup "type").text?
           source := ← CalibrationSource.ofJson? (← members.lookup "source")
           params := ← match members.lookup "params" with
             | some json => paramsOfJson? json
             | none => some .empty }

/-- A calibration may be absent or null. -/
def optionalCalibration? : Option Json → Option (Option Calibration)
  | none | some .null => some none
  | some json => (Calibration.ofJson? json).map some

def InputAssignment.ofJson? (json : Json) : Option InputAssignment := do
  let names := ["idx", "pin", "application", "applicationIndex", "sensor", "sensorIndex", "calibration"]
  let members ← recordMembers? names json
  return { idx := ← uint32? (← members.lookup "idx")
           pin := ← (← members.lookup "pin").text?
           application := ← (← members.lookup "application").text?
           applicationIndex := ← uint32? (← members.lookup "applicationIndex")
           sensor := ← (← members.lookup "sensor").text?
           sensorIndex := ← uint32? (← members.lookup "sensorIndex")
           calibration := ← optionalCalibration? (members.lookup "calibration") }

def Metadata.ofJson? (json : Json) : Option Metadata := do
  let members ← recordMembers? ["toolVersion", "platform", "timestamp"] json
  return { toolVersion := ← (← members.lookup "toolVersion").text?
           platform := ← (← members.lookup "platform").text?
           timestamp := ← int64? (← members.lookup "timestamp") }

def inputsOfJson? (json : Json) : Option (List InputAssignment) :=
  json.items?.bind (·.mapM InputAssignment.ofJson?)

def ConfigDocument.ofJson? (json : Json) : Option ConfigDocument := do
  return { metadata := ← Metadata.ofJson? (← json.member? "metadata")
           inputs := ← match json.member? "inputs" with
             | some json => inputsOfJson? json
             | none => some [] }

/-- How a value is shown that is not supported. -/
def shown (json? : Option Json) : String := (json?.map Json.compact).getD "missing"

def ConfigDocument.parse (text : String) : Except DocumentError ConfigDocument :=
  match Json.parse? text with
  | none => .error .notJson
  | some json =>
    let version := json.member? "schemaVersion"
    let mode := json.member? "mode"
    if version.bind (·.int?) ≠ some 1 then .error (.unsupportedSchema (shown version))
    else if mode.bind (·.text?) ≠ some "static" then .error (.unsupportedMode (shown mode))
    else match ConfigDocument.ofJson? json with
      | none => .error .wrongShape
      | some document => .ok document

/-! ## Files -/

section

variable {m : Type → Type} [Monad m] [Files m]

def ConfigDocument.load (path : Path) : m (Except DocumentError ConfigDocument) := do
  match ← Files.readText path with
  | .error e => return .error (.io path e)
  | .ok text => return ConfigDocument.parse text

def ConfigDocument.save (document : ConfigDocument) (path : Path) : m (Except DocumentError Unit) := do
  match ← Files.write path (textBytes document.render) with
  | .error e => return .error (.io path e)
  | .ok () => return .ok ()

end

end FirmwareCatalog
