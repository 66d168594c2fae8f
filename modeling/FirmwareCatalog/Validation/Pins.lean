import FirmwareCatalog.Document
import FirmwareCatalog.Registry.Basic
import FirmwareCatalog.Validation.Report

/-!
# Pins

A pin is the I2C bus, an analog pin `A2` or a digital pin `6`. An input has to
use a pin of the class that its sensor declares. A pin that means nothing is
left to the compiler of the firmware, unless it stands in the place of the bus.
-/

namespace FirmwareCatalog

open Numeral

inductive Pin where
  | i2c
  | analog (number : Nat)
  | digital (number : Nat)
deriving DecidableEq

namespace Pin

def pinClass : Pin → PinClass
  | .i2c => .i2c
  | .analog _ => .analog
  | .digital _ => .digital

def render : Pin → String
  | .i2c => "I2C"
  | .analog n => "A" ++ decimalText n
  | .digital n => decimalText n

/-- The name of a pin without blanks around it and in capitals; only ASCII letters have capitals here. -/
def canonical (text : String) : List Char := (Text.trim text.toList).map Char.toUpper

/-- Numbers have 32 bits. -/
def parse? (text : String) : Option Pin :=
  if canonical text = "I2C".toList then some .i2c
  else match canonical text with
    | 'A' :: number => (unsigned? 32 10 number).map .analog
    | number => (unsigned? 32 10 number).map .digital

end Pin

namespace Validation

/-- Equal but for the case of ASCII letters. -/
def equalButCase : List Char → List Char → Bool
  | [], [] => true
  | c :: cs, d :: ds => c.toLower = d.toLower && equalButCase cs ds
  | _, _ => false

/-- A text that the check takes for the bus, without reading a pin from it. -/
def isBusName (text : String) : Bool := equalButCase (Text.trim text.toList) "I2C".toList

/-- What is wrong with a pin for a sensor that needs a class of pins. -/
def pinFault? (input : Nat) (sensor pin : String) : (required : PinClass) → Option Fault
  | .i2c => if isBusName pin then none else some (.i2cPinRequired input sensor pin)
  | required =>
    if isBusName pin then some (.i2cPinReserved input sensor)
    else ((Pin.parse? pin).map Pin.pinClass).bind fun actual =>
      if actual = required then none else some (.pinClassMismatch input sensor pin required actual)

/-- A sensor without a name is called as the input calls it. -/
def inputPinFault? (sensors : Registry Sensor) (input : InputAssignment) : Option Fault := do
  let sensor ← sensors.get? input.sensorIndex.toNat
  let required ← sensor.pinRequirement
  pinFault? input.idx.toNat (sensor.name.getD input.sensor) input.pin required

def checkPins (sensors : Registry Sensor) (inputs : List InputAssignment) : Pass where
  title := "Checking pin compatibility"
  success := "All pins match their sensor requirements"
  findings := .ofFaults (inputs.filterMap (inputPinFault? sensors))

end Validation

end FirmwareCatalog
