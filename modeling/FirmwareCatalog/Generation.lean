import FirmwareCatalog.Document

/-!
# Generated files

What the generated files have in common: the context their banners cite, and
the names of include guards.
-/

namespace FirmwareCatalog

structure GenerationContext where
  toolVersion : String
  platform : String
  timestamp : Timestamp

/-- The line that says what made a file. -/
def GenerationContext.banner (ctx : GenerationContext) : String :=
  "// Generated by regc v" ++ ctx.toolVersion ++ " for " ++ ctx.platform

def isAsciiAlphanumeric (c : Char) : Bool := c.isAlpha || c.isDigit

/-- A file name in upper case, with `_` for all but ASCII letters and digits. -/
def headerGuard (fileName : String) : String :=
  String.ofList (fileName.toList.map fun c => if isAsciiAlphanumeric c then c.toUpper else '_')

inductive GenerateError where
  | io (path : Path) (error : FileError)
  | targetMissing (path : Path)
  | unterminatedBlock (path : Path) (start stop : String) (line : Nat)
  | unknownCalibrationType (input : Nat) (type : String)
  | missingCalibrationParam (input : Nat) (type param : String)
  /-- The new content could not take the place of the file. -/
  | persist (path : Path) (error : FileError)

open Numeral in
def GenerateError.message : GenerateError → String
  | .io path error => "Failed to write " ++ path.text ++ ": " ++ error.message
  | .targetMissing path => "Config header " ++ path.text ++ " does not exist"
  | .unterminatedBlock path start stop line =>
    path.text ++ ":" ++ decimalText line ++ ": '" ++ start ++ "' has no matching '" ++ stop
      ++ "'; close or remove the block by hand"
  | .unknownCalibrationType input type =>
    "Input " ++ decimalText input ++ ": unknown calibration type '" ++ type ++ "'"
  | .missingCalibrationParam input type param =>
    "Input " ++ decimalText input ++ ": " ++ type ++ " calibration is missing parameter '" ++ param ++ "'"
  | .persist path error => "Failed to replace " ++ path.text ++ ": " ++ error.message

end FirmwareCatalog
