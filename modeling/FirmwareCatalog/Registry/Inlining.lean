import FirmwareCatalog.Files
import FirmwareCatalog.Header.Include
import FirmwareCatalog.Text.Trim

/-!
# Inlining includes

The sensor header may spread its entries over the files of a sub-directory. The
content of each file that it includes from there is put behind its own text,
once, in the order of the directives. Directives in those files count for
nothing, and files that cannot be read are left out.
-/

namespace FirmwareCatalog

def headerDirectory (header : Path) : Path := header.parent?.getD ⟨""⟩

/-- The location below which includes are inlined. -/
def includeRoot (header : Path) (subdir : String) : List Path.Part :=
  let subdir := String.ofList (Text.dropEndWhile (· = '/') subdir.toList)
  Path.normalize ((headerDirectory header).join ⟨subdir⟩).parts

def includeLocation (header : Path) (target : List Char) : List Path.Part :=
  Path.normalize ((headerDirectory header).join ⟨String.ofList target⟩).parts

/-- The members that are not among those of `seen` or before them. -/
def distinctFrom (seen : List (List Path.Part)) : List (List Path.Part) → List (List Path.Part)
  | [] => []
  | l :: ls => if seen.contains l then distinctFrom seen ls else l :: distinctFrom (l :: seen) ls

/-- The locations to inline. -/
def includeLocations (header : Path) (subdir : String) (text : List Char) : List (List Path.Part) :=
  let root := includeRoot header subdir
  let locations := (Header.includeTargets text).map (includeLocation header)
  distinctFrom [Path.normalize header.parts] (locations.filter root.isPrefixOf)

section

variable {m : Type → Type} [Monad m] [Files m]

/-- The contents of files, each behind a line feed. -/
def inlinedContents : List (List Path.Part) → m String
  | [] => return ""
  | location :: locations => do
    match ← Files.readText (Path.ofParts location) with
    | .error _ => inlinedContents locations
    | .ok content => return "\n" ++ content ++ (← inlinedContents locations)

def inlineIncludes (header : Path) (subdir text : String) : m String := do
  return text ++ (← inlinedContents (includeLocations header subdir text.toList))

end

end FirmwareCatalog
