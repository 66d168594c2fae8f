import FirmwareCatalog.Header.RawBlock
import FirmwareCatalog.NameHash
import FirmwareCatalog.Registry.Value
import FirmwareCatalog.Table

/-!
# Entries

A record holds the resolved fields of one entry. Sensors, applications and
display units read their own fields from it and keep it.
-/

namespace FirmwareCatalog

open Numeral

inductive RegistryKind where
  | sensor
  | application
  | unit
deriving DecidableEq

/-- The mark of a kind in findings. -/
def RegistryKind.tag : RegistryKind → String
  | .sensor => "SENSOR"
  | .application => "APP"
  | .unit => "UNIT"

def RegistryKind.label : RegistryKind → String
  | .sensor => "Sensor"
  | .application => "Application"
  | .unit => "Unit"

/-- The kind of a pin. -/
inductive PinClass where
  | analog
  | digital
  | i2c
deriving DecidableEq

namespace PinClass

def render : PinClass → String
  | .analog => "analog"
  | .digital => "digital"
  | .i2c => "I2C"

/-- Reads `PIN_ANALOG` and its like, in any case of ASCII letters, with or without the start. -/
def ofSymbol? (symbol : String) : Option PinClass :=
  let name := (Text.trim symbol.toList)
  let name := ((Text.after? "PIN_".toList name).getD name).map Char.toLower
  if name = "analog".toList then some .analog
  else if name = "digital".toList then some .digital
  else if name = "i2c".toList then some .i2c
  else none

end PinClass

structure EntryRecord where
  index : Nat
  fields : Table FieldValue
  /-- The string macros that the fields name, in field order. -/
  usedMacros : List String
  /-- The source of the entry with the comment that announces its index. -/
  raw : String
  form : EntryForm
  /-- Whether the entry is more than a placeholder. -/
  implemented : Bool

namespace EntryRecord

instance : BEq EntryRecord where
  beq a b := a.index = b.index && a.fields == b.fields && a.usedMacros = b.usedMacros && a.raw = b.raw
    && a.form = b.form && a.implemented = b.implemented

def field? (r : EntryRecord) (name : String) : Option FieldValue := r.fields.find? name

/-- A field with a text that is neither empty nor an undefined macro. -/
def textField? (r : EntryRecord) (name : String) : Option String :=
  ((r.field? name).filter fun v => !v.isUnresolvedMacro).bind (·.text?) |>.filter fun s => !s.isEmpty

/-- A field with a number of 16 bits. -/
def hashField? (r : EntryRecord) (name : String) : Option UInt16 :=
  match r.field? name with
  | some (.int v) => if 0 ≤ v ∧ v < 65536 then some (UInt16.ofNat v.toNat) else none
  | some (.raw text) => NameHash.read? text
  | _ => none

end EntryRecord

/-- The entries of one registry. -/
class CatalogEntry (E : Type) where
  kind : RegistryKind
  ofRecord : EntryRecord → E
  record : E → EntryRecord
  name? : E → Option String
  nameHash? : E → Option UInt16

namespace CatalogEntry

variable {E : Type} [CatalogEntry E]

def index (e : E) : Nat := (record e).index

def isImplemented (e : E) : Bool := (record e).implemented

/-- Kind, index and name, as findings cite an entry. -/
def describe (e : E) : String :=
  let place := (kind E).tag ++ "[" ++ decimalText (index e) ++ "]"
  match name? e with
  | some name => place ++ ":" ++ name
  | none => place

end CatalogEntry

/-! ## Sensors -/

structure Sensor where
  record : EntryRecord
  name : Option String
  nameHash : Option UInt16
  label : Option String
  description : Option String
  measurementType : Option FieldValue
  calibrationType : Option FieldValue
  pinRequirement : Option PinClass
  minValue : Option Float
  maxValue : Option Float
  minReadInterval : Option Int
deriving BEq

/-- A name that was not resolved counts without its `PSTR_`. -/
def Sensor.ofRecord (r : EntryRecord) : Sensor where
  record := r
  name := match r.field? "name" with
    | some (.raw symbol) => some (Text.dropLeading "PSTR_" symbol)
    | _ => r.textField? "name"
  nameHash := r.hashField? "nameHash"
  label := r.textField? "label"
  description := r.textField? "description"
  measurementType := r.field? "measurementType"
  calibrationType := r.field? "calibrationType"
  pinRequirement := ((r.field? "pinTypeRequirement").bind (·.text?)).bind PinClass.ofSymbol?
  minValue := (r.field? "minValue").bind (·.float?)
  maxValue := (r.field? "maxValue").bind (·.float?)
  minReadInterval := (r.field? "minReadInterval").bind (·.int?)

instance : CatalogEntry Sensor where
  kind := .sensor
  ofRecord := Sensor.ofRecord
  record := Sensor.record
  name? := Sensor.name
  nameHash? := Sensor.nameHash

/-! ## Applications -/

structure Application where
  record : EntryRecord
  name : Option String
  nameHash : Option UInt16
  label : Option String
  expectedMeasurementType : Option FieldValue
  /-- The index of a sensor, or a symbol that was not resolved. -/
  defaultSensor : Option FieldValue
deriving BEq

def Application.ofRecord (r : EntryRecord) : Application where
  record := r
  name := r.textField? "name"
  nameHash := r.hashField? "nameHash"
  label := r.textField? "label"
  expectedMeasurementType := r.field? "expectedMeasurementType"
  defaultSensor := r.field? "defaultSensor"

instance : CatalogEntry Application where
  kind := .application
  ofRecord := Application.ofRecord
  record := Application.record
  name? := Application.name
  nameHash? := Application.nameHash

/-! ## Display units -/

structure DisplayUnit where
  record : EntryRecord
  name : Option String
  nameHash : Option UInt16
  /-- The alias of the unit. -/
  otherName : Option String
  otherNameHash : Option UInt16
  symbol : Option String
  measurementType : Option FieldValue
deriving BEq

def DisplayUnit.ofRecord (r : EntryRecord) : DisplayUnit where
  record := r
  name := r.textField? "name"
  nameHash := r.hashField? "nameHash"
  otherName := r.textField? "alias"
  otherNameHash := r.hashField? "aliasHash"
  symbol := r.textField? "symbol"
  measurementType := r.field? "measurementType"

instance : CatalogEntry DisplayUnit where
  kind := .unit
  ofRecord := DisplayUnit.ofRecord
  record := DisplayUnit.record
  name? := DisplayUnit.name
  nameHash? := DisplayUnit.nameHash

end FirmwareCatalog
