import FirmwareCatalog.Generation
import FirmwareCatalog.Text.Trim

/-!
# Calibration tables

The header with the calibrations of inputs that do not use the one of their
sensor. Each type of calibration fills the fields of a firmware struct from its
parameters, of which some have two names.
-/

namespace FirmwareCatalog

open Numeral

structure CalibrationLayout where
  structName : String
  /-- The fields of the struct, each with the parameters that may fill it. -/
  fields : List (String × List String)

namespace CalibrationLayout

def steinhart : CalibrationLayout where
  structName := "ThermistorSteinhartCalibration"
  fields := [("bias_resistor", ["biasResistor"]), ("steinhart_a", ["steinhartA"]), ("steinhart_b", ["steinhartB"]),
    ("steinhart_c", ["steinhartC"])]

def beta : CalibrationLayout where
  structName := "BetaCalibration"
  fields := [("bias_resistor", ["biasResistor"]), ("beta", ["beta"]), ("r0", ["r0"]), ("t0", ["t0"])]

def linear : CalibrationLayout where
  structName := "LinearCalibration"
  fields := [("voltage_min", ["voltageMin"]), ("voltage_max", ["voltageMax"]),
    ("output_min", ["pressureMin", "outputMin"]), ("output_max", ["pressureMax", "outputMax"])]

def polynomial : CalibrationLayout where
  structName := "PressurePolynomialCalibration"
  fields := [("bias_resistor", ["biasResistor"]), ("poly_a", ["polyA"]), ("poly_b", ["polyB"]), ("poly_c", ["polyC"])]

def voltageDivider : CalibrationLayout where
  structName := "VoltageDividerCalibration"
  fields := [("r1", ["r1"]), ("r2", ["r2"]), ("correction", ["correction"]), ("offset", ["offset"])]

def rpm : CalibrationLayout where
  structName := "RPMCalibration"
  fields := [("poles", ["poles"]), ("pulley_ratio", ["pulleyRatio"]), ("calibration_mult", ["calibrationMult"]),
    ("timeout_ms", ["timeoutMs"]), ("min_rpm", ["minRpm"]), ("max_rpm", ["maxRpm"])]

/-- The layouts by the names of their types, in upper case. -/
def byType : List (String × CalibrationLayout) :=
  [("THERMISTOR_STEINHART", steinhart), ("THERMISTOR_BETA", beta), ("PRESSURE_LINEAR", linear), ("LINEAR", linear),
    ("PRESSURE_POLYNOMIAL", polynomial), ("VOLTAGE_DIVIDER", voltageDivider), ("RPM", rpm)]

/-- The layout of a type, with or without `CAL_`, in any case of ASCII letters. -/
def ofType? (type : String) : Option CalibrationLayout :=
  let name := Text.dropLeading "CAL_" (Text.trimmed type)
  byType.lookup (String.ofList (name.toList.map Char.toUpper))

end CalibrationLayout

namespace CalibrationTable

/-- The lines of the fields; the error is the first name of a parameter that is missing. -/
def fieldLines (c : Calibration) : List (String × List String) → Except String String
  | [] => .ok ""
  | (field, names) :: fields =>
    match names.findSome? c.params.find? with
    | none => .error (names.head?.getD "")
    | some value => do
      return "    ." ++ field ++ " = " ++ value.render ++ ",\n" ++ (← fieldLines c fields)

/-- The constant of the input at a position. -/
def sectionOf (position : Nat) (input : InputAssignment) (c : Calibration) : Except GenerateError String :=
  match CalibrationLayout.ofType? c.type with
  | none => .error (.unknownCalibrationType input.idx.toNat c.type)
  | some layout =>
    let n := decimalText position
    match fieldLines c layout.fields with
    | .error param => .error (.missingCalibrationParam input.idx.toNat c.type param)
    | .ok lines => .ok <|
      "// Input " ++ n ++ ": " ++ input.application ++ " (" ++ input.sensor ++ ") - " ++ c.type ++ "\n"
        ++ "#define INPUT_" ++ n ++ "_CUSTOM_CALIBRATION\n"
        ++ "static const PROGMEM " ++ layout.structName ++ " input_" ++ n ++ "_custom_cal = \x7b\n"
        ++ lines ++ "\x7d;\n"

/-- The constants of the inputs from a position on. -/
def sectionsFrom (position : Nat) : List InputAssignment → Except GenerateError (List String)
  | [] => .ok []
  | input :: inputs =>
    match input.customCalibration? with
    | none => sectionsFrom (position + 1) inputs
    | some c => do
      let first ← sectionOf position input c
      return first :: (← sectionsFrom (position + 1) inputs)

def guardName : String := headerGuard "static_calibrations.h"

def page (ctx : GenerationContext) (sections : List String) : String :=
  "// Custom input calibrations for USE_STATIC_CONFIG builds\n"
    ++ ctx.banner ++ " at " ++ ctx.timestamp.render ++ "\n"
    ++ "// Do not edit by hand.\n\n"
    ++ "#ifndef " ++ guardName ++ "\n#define " ++ guardName ++ "\n\n"
    ++ "#include \"../sensor_types.h\"\n"
    ++ String.join (sections.map ("\n" ++ ·))
    ++ "\n#endif // " ++ guardName ++ "\n"

/-- The header, or nothing when every input uses the calibration of its sensor. -/
def render? (inputs : List InputAssignment) (ctx : GenerationContext) : Except GenerateError (Option String) := do
  let sections ← sectionsFrom 0 inputs
  return if sections.isEmpty then none else some (page ctx sections)

end CalibrationTable

end FirmwareCatalog
