import FirmwareCatalog.Path
import FirmwareCatalog.Text.Utf8

/-!
# File operations

What the catalog asks of a file system, as a class of monads: the operations
either answer or say why not.
-/

namespace FirmwareCatalog

inductive FileError where
  | notFound
  | isADirectory
  | notADirectory
  | alreadyExists
  /-- A text file that is no UTF-8. -/
  | invalidData
  | other (description : String)
deriving DecidableEq

def FileError.message : FileError → String
  | .notFound => "No such file or directory (os error 2)"
  | .isADirectory => "Is a directory (os error 21)"
  | .notADirectory => "Not a directory (os error 20)"
  | .alreadyExists => "File exists (os error 17)"
  | .invalidData => "stream did not contain valid UTF-8"
  | .other description => description

class Files (m : Type → Type) where
  /-- Whether a file or a directory is there. -/
  isPresent : Path → m Bool
  isFile : Path → m Bool
  isDirectory : Path → m Bool
  read : Path → m (Except FileError Bytes)
  /-- Creates the file or overwrites it; its directory has to exist. -/
  write : Path → Bytes → m (Except FileError Unit)
  /-- Puts new content in the place of a file in one step. -/
  replace : Path → Bytes → m (Except FileError Unit)
  createDirectory : Path → m (Except FileError Unit)
  removeFile : Path → m (Except FileError Unit)

namespace Files

variable {m : Type → Type} [Monad m] [Files m]

def readText (path : Path) : m (Except FileError String) := do
  match ← read path with
  | .error e => return .error e
  | .ok bytes =>
    match Utf8.decode? bytes with
    | none => return .error .invalidData
    | some cs => return .ok (String.ofList cs)

/-- Creates the first of a path and its ancestors, and before it, if it has no place yet, the next. -/
def createFirst : List Path → m (Except FileError Unit)
  | [] => return .error (.other "failed to create whole tree")
  | path :: ancestors => do
    if path.text.isEmpty then return .ok ()
    let settle : Except FileError Unit → m (Except FileError Unit)
      | .ok () => return .ok ()
      | .error e => return if ← isDirectory path then .ok () else .error e
    match ← createDirectory path with
    | .error .notFound =>
      match ← createFirst ancestors with
      | .error e => return .error e
      | .ok () => settle (← createDirectory path)
    | result => settle result

/-- Creates a directory and the directories above it that are missing. -/
def createDirectories (path : Path) : m (Except FileError Unit) := createFirst path.ancestors

end Files

end FirmwareCatalog
