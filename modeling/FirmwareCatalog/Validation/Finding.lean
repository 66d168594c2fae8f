import FirmwareCatalog.NameHash
import FirmwareCatalog.Registry.Entry

/-!
# Findings

What validation finds. A fault makes a catalog or a configuration invalid; a
warning only says that it is probably not what was meant.
-/

namespace FirmwareCatalog

open Numeral

/-- The hash that an entry stores for one of its names. -/
inductive HashField where
  | name
  | otherName
deriving DecidableEq

def HashField.render : HashField → String
  | .name => "nameHash"
  | .otherName => "aliasHash"

/-- What the static configuration defines for each input. -/
inductive InputField where
  | pin
  | application
  | sensor
deriving DecidableEq

def InputField.render : InputField → String
  | .pin => "PIN"
  | .application => "APPLICATION"
  | .sensor => "SENSOR"

def PinClass.withArticle : PinClass → String
  | .digital => "a " ++ PinClass.digital.render
  | c => "an " ++ c.render

inductive Fault where
  | hashMismatch (entry : String) (field : HashField) (expected found : UInt16)
  /-- A name without a hash that could be read. -/
  | missingHash (entry : String) (field : HashField)
  | hashCollision (kind : RegistryKind) (hash : UInt16) (first second : String)
  | duplicateIndex (kind : RegistryKind) (index : Nat) (first second : String)
  | missingDefaultSensor (application sensor : String)
  | measurementTypeMismatch (application expected sensor actual : String)
  | missingBlock (startMarker : String)
  | unterminatedBlock (startMarker endMarker : String) (line : Nat)
  | missingInputCount
  | missingDefine (input : Nat) (field : InputField)
  /-- A value that is no index. -/
  | malformedDefine (input : Nat) (field : InputField) (value : String)
  | duplicatePin (pin : String) (first second : Nat)
  | unknownApplication (input index : Nat)
  | unknownSensor (input index : Nat)
  | i2cPinRequired (input : Nat) (sensor pin : String)
  | i2cPinReserved (input : Nat) (sensor : String)
  | pinClassMismatch (input : Nat) (sensor pin : String) (required actual : PinClass)
deriving DecidableEq

/-- The name of a define in the static configuration. -/
def defineName (input : Nat) (field : InputField) : String :=
  "INPUT_" ++ decimalText input ++ "_" ++ field.render

def Fault.message : Fault → String
  | .hashMismatch entry field expected found =>
    "Hash mismatch for " ++ entry ++ " (" ++ field.render ++ "). Expected " ++ NameHash.render expected
      ++ ", found " ++ NameHash.render found
  | .missingHash entry field => entry ++ " has no integer " ++ field.render ++ " literal"
  | .hashCollision kind hash first second =>
    kind.label ++ " hash collision: " ++ second ++ " and " ++ first ++ " have the same hash " ++ NameHash.render hash
  | .duplicateIndex kind index first second =>
    kind.label ++ " index " ++ decimalText index ++ " declared twice: " ++ first ++ " and " ++ second
  | .missingDefaultSensor application sensor =>
    application ++ " references non-existent SENSOR[" ++ sensor ++ "]"
  | .measurementTypeMismatch application expected sensor actual =>
    "Measurement type mismatch in " ++ application ++ ". Expected " ++ expected ++ ", but " ++ sensor
      ++ " provides " ++ actual
  | .missingBlock startMarker => "Could not find the '" ++ startMarker ++ "' block"
  | .unterminatedBlock startMarker endMarker line =>
    "'" ++ startMarker ++ "' on line " ++ decimalText line ++ " has no matching '" ++ endMarker ++ "'"
  | .missingInputCount => "NUM_CONFIGURED_INPUTS is not defined in the static config block"
  | .missingDefine input field => defineName input field ++ " is not defined"
  | .malformedDefine input field value =>
    defineName input field ++ " must be an integer index (found " ++ value ++ ")"
  | .duplicatePin pin first second =>
    "Duplicate pin assignment for " ++ pin ++ " on INPUT_" ++ decimalText second ++ " (already used by INPUT_"
      ++ decimalText first ++ ")"
  | .unknownApplication input index =>
    "INPUT_" ++ decimalText input ++ " references non-existent APP[" ++ decimalText index ++ "]"
  | .unknownSensor input index =>
    "INPUT_" ++ decimalText input ++ " references non-existent SENSOR[" ++ decimalText index ++ "]"
  | .i2cPinRequired input sensor pin =>
    "Input " ++ decimalText input ++ ": I2C sensor '" ++ sensor ++ "' must use 'I2C' as pin (not " ++ pin ++ ")"
  | .i2cPinReserved input sensor =>
    "Input " ++ decimalText input ++ ": Sensor '" ++ sensor ++ "' cannot use 'I2C' as pin (only I2C sensors)"
  | .pinClassMismatch input sensor pin required actual =>
    "Input " ++ decimalText input ++ ": Sensor '" ++ sensor ++ "' requires " ++ required.withArticle ++ " pin, but "
      ++ pin ++ " is " ++ actual.withArticle ++ " pin"

inductive Warning where
  | unimplementedDefaultSensor (application sensor : String)
  | unimplementedSelection (input : Nat) (entry : String)
deriving DecidableEq

def Warning.message : Warning → String
  | .unimplementedDefaultSensor application sensor => application ++ " references unimplemented " ++ sensor
  | .unimplementedSelection input entry => "INPUT_" ++ decimalText input ++ " selects unimplemented " ++ entry

end FirmwareCatalog
