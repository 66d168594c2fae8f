import FirmwareCatalog.Generation
import FirmwareCatalog.MarkedBlock
import FirmwareCatalog.Text.Trim

/-!
# The static config block

The block of `config.h` that defines the configured inputs, between its markers.
-/

namespace FirmwareCatalog.ConfigBlock

open Numeral

/-- The lines of the input at a position. -/
def inputLines (position : Nat) (input : InputAssignment) : String :=
  let n := decimalText position
  "\n// Input " ++ n ++ ": " ++ input.application ++ " (" ++ input.sensor ++ ")\n"
    ++ "#define INPUT_" ++ n ++ "_PIN " ++ Text.trimmed input.pin ++ "\n"
    ++ "#define INPUT_" ++ n ++ "_APPLICATION " ++ decimalText input.applicationIndex.toNat ++ "\n"
    ++ "#define INPUT_" ++ n ++ "_SENSOR " ++ decimalText input.sensorIndex.toNat ++ "\n"

def inputsFrom (position : Nat) : List InputAssignment → String
  | [] => ""
  | input :: inputs => inputLines position input ++ inputsFrom (position + 1) inputs

/-- What stands between the markers. -/
def body (inputs : List InputAssignment) (ctx : GenerationContext) : String :=
  "\n// ============================================================\n"
    ++ "// Static input configuration\n"
    ++ ctx.banner ++ "\n"
    ++ "// Generated at " ++ ctx.timestamp.render ++ "\n"
    ++ "// Do not edit by hand; re-run \x60regc generate\x60 instead.\n"
    ++ "// ============================================================\n\n"
    ++ "#define NUM_CONFIGURED_INPUTS " ++ decimalText inputs.length ++ "\n"
    ++ inputsFrom 0 inputs ++ "\n"

def render (inputs : List InputAssignment) (ctx : GenerationContext) (markers : BlockMarkers) : String :=
  markers.start ++ body inputs ctx ++ markers.stop ++ "\n"

end FirmwareCatalog.ConfigBlock
