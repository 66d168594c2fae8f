import FirmwareCatalog.CommandLine.Session
import Std.Time.DateTime.Timestamp

/-!
# The program

Runs the command line over the files of the machine.
-/

namespace FirmwareCatalog

def fileErrorOf : IO.Error → FileError
  | .noFileOrDirectory .. => .notFound
  | .alreadyExists .. => .alreadyExists
  | .inappropriateType _ 20 _ => .notADirectory
  | .inappropriateType _ 21 _ => .isADirectory
  | e => .other (toString e)

/-- The result of an action, or the kind of its error. -/
def attempt {α : Type} (action : IO α) : BaseIO (Except FileError α) := do
  match ← action.toBaseIO with
  | .ok a => return .ok a
  | .error e => return .error (fileErrorOf e)

def holds (test : IO Bool) : BaseIO Bool := do
  match ← test.toBaseIO with
  | .ok answer => return answer
  | .error _ => return false

def isDirectoryOnDisk (path : Path) : IO Bool := do (← IO.FS.realPath path.text).isDir

instance : Files IO where
  isPresent path := holds do
    let _ ← IO.FS.realPath path.text
    return true
  isFile path := holds do
    let isDirectory ← isDirectoryOnDisk path
    return !isDirectory
  isDirectory path := holds (isDirectoryOnDisk path)
  read path := attempt do
    let content ← IO.FS.readBinFile path.text
    return content.toList
  write path content := attempt (IO.FS.writeBinFile path.text ⟨content.toArray⟩)
  replace path content := attempt do
    let fresh := path.text ++ ".new"
    IO.FS.writeBinFile fresh ⟨content.toArray⟩
    IO.FS.rename fresh path.text
  createDirectory path := attempt (IO.FS.createDir path.text)
  removeFile path := attempt (IO.FS.removeFile path.text)

/-- A failure with its causes, as it is reported to the user. -/
def CommandLine.Failure.report (failure : CommandLine.Failure) : String :=
  let causes := failure.causes.map ("    " ++ · ++ "\n")
  "Error: " ++ failure.message ++ "\n"
    ++ (if causes.isEmpty then "" else "\nCaused by:\n" ++ String.join causes)

end FirmwareCatalog

open FirmwareCatalog in
def main (args : List String) : IO UInt32 := do
  let now ← Std.Time.Timestamp.now
  let outcome : CommandLine.Outcome ← CommandLine.run args ⟨now.toSecondsSinceUnixEpoch.val⟩
  IO.print outcome.output
  match outcome.failure with
  | some failure => IO.eprint failure.report
  | none => if outcome.exitCode = 2 then IO.eprint CommandLine.helpText
  return UInt32.ofNat outcome.exitCode
