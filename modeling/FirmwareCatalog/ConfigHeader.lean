import FirmwareCatalog.Generation
import FirmwareCatalog.MarkedBlock

/-!
# Patching the config header

Puts a block into the config header in one step, after a copy of the header as
it was has been written beside it.
-/

namespace FirmwareCatalog.ConfigHeader

/-- What a patch did. -/
structure Patch where
  backup : Path
  /-- Whether a block stood there before. -/
  replaced : Bool

def backupPath (target : Path) (suffix : String) : Path := ⟨target.text ++ suffix⟩

variable {m : Type → Type} [Monad m] [Files m]

/-- Writes the copy, then the new content. -/
def store (target backup : Path) (content : Bytes) (spliced : MarkedBlock.Spliced) :
    m (Except GenerateError Patch) := do
  match ← Files.write backup content with
  | .error e => return .error (.io backup e)
  | .ok () =>
    match ← Files.replace target spliced.text with
    | .error e => return .error (.persist target e)
    | .ok () => return .ok { backup, replaced := spliced.replaced }

def patch (target : Path) (block : String) (markers : BlockMarkers) (backupSuffix : String) :
    m (Except GenerateError Patch) := do
  if !(← Files.isFile target) then return .error (.targetMissing target)
  match ← Files.read target with
  | .error e => return .error (.io target e)
  | .ok content =>
    match MarkedBlock.splice markers (textBytes block) content with
    | .error line => return .error (.unterminatedBlock target markers.start markers.stop line)
    | .ok spliced => store target (backupPath target backupSuffix) content spliced

end FirmwareCatalog.ConfigHeader
