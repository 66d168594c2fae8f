import FirmwareCatalog.Files
import FirmwareCatalog.Table

/-!
# File trees

A project directory in memory: the files and directories by their location,
`a/b/c`, below the current directory. Paths are walked name by name: each name
but the last has to lead to a directory, `..` leads to the directory above, and
above the current directory nothing is known.
-/

namespace FirmwareCatalog

inductive FileNode where
  | directory
  | file (content : Bytes)
deriving DecidableEq

abbrev FileTree := Table FileNode

namespace FileTree

/-- The location of a name in a directory. -/
def child (location : String) (name : List Char) : String :=
  if location.isEmpty then String.ofList name else location ++ "/" ++ String.ofList name

/-- The end of a walk. -/
inductive Target where
  | directory
  /-- A file; `slash` says that a slash follows its name. -/
  | file (location : String) (content : Bytes) (slash : Bool)
  /-- A name that is free in a directory. -/
  | vacant (location : String) (slash : Bool)

/-- Walks from a directory, given by its location below the locations of the directories around it;
`none` is a place outside the tree. -/
def walk (tree : FileTree) : Option (String × List String) → List (List Char) → Except FileError Target
  | _, [] => .ok .directory
  | here, segment :: rest =>
    if Path.isIdle segment then walk tree here rest
    else if segment = ['.', '.'] then
      match here with
      | some (_, outer :: outers) => walk tree (some (outer, outers)) rest
      | _ => walk tree none rest
    else
      match here with
      | none => .error .notFound
      | some (location, outers) =>
        let place := child location segment
        match tree.find? place with
        | some .directory => walk tree (some (place, location :: outers)) rest
        | some (.file content) =>
          if rest.all (· = []) then .ok (.file place content (!rest.isEmpty)) else .error .notADirectory
        | none => if rest.all (· = []) then .ok (.vacant place (!rest.isEmpty)) else .error .notFound

def resolve (tree : FileTree) (path : Path) : Except FileError Target :=
  if path.text.isEmpty then .error .notFound
  else if path.isAbsolute then walk tree none (Path.segments path.text.toList)
  else walk tree (some ("", [])) (Path.segments path.text.toList)

/-! ## Operations -/

def isPresent (tree : FileTree) (path : Path) : Bool :=
  match resolve tree path with
  | .ok .directory => true
  | .ok (.file _ _ slash) => !slash
  | _ => false

def isFile (tree : FileTree) (path : Path) : Bool :=
  match resolve tree path with
  | .ok (.file _ _ slash) => !slash
  | _ => false

def isDirectory (tree : FileTree) (path : Path) : Bool :=
  match resolve tree path with
  | .ok .directory => true
  | _ => false

def read (tree : FileTree) (path : Path) : Except FileError Bytes :=
  match resolve tree path with
  | .error e => .error e
  | .ok .directory => .error .isADirectory
  | .ok (.vacant ..) => .error .notFound
  | .ok (.file _ content slash) => if slash then .error .notADirectory else .ok content

def write (tree : FileTree) (path : Path) (content : Bytes) : Except FileError FileTree :=
  match resolve tree path with
  | .error e => .error e
  | .ok .directory => .error .isADirectory
  | .ok (.vacant location slash) | .ok (.file location _ slash) =>
    if slash then .error .isADirectory else .ok (tree.insert location (.file content))

def createDirectory (tree : FileTree) (path : Path) : Except FileError FileTree :=
  match resolve tree path with
  | .error e => .error e
  | .ok (.vacant location _) => .ok (tree.insert location .directory)
  | .ok _ => .error .alreadyExists

def removeFile (tree : FileTree) (path : Path) : Except FileError FileTree :=
  match resolve tree path with
  | .error e => .error e
  | .ok .directory => .error .isADirectory
  | .ok (.vacant ..) => .error .notFound
  | .ok (.file location _ slash) => if slash then .error .notADirectory else .ok (tree.erase location)

end FileTree

/-- Programs over a tree in memory. -/
abbrev TreeM := StateM FileTree

namespace TreeM

/-- Takes over the changed tree, or keeps the tree that was. -/
def change (f : FileTree → Except FileError FileTree) : TreeM (Except FileError Unit) := fun tree =>
  match f tree with
  | .ok tree => (.ok (), tree)
  | .error e => (.error e, tree)

instance : Files TreeM where
  isPresent path := fun tree => (tree.isPresent path, tree)
  isFile path := fun tree => (tree.isFile path, tree)
  isDirectory path := fun tree => (tree.isDirectory path, tree)
  read path := fun tree => (tree.read path, tree)
  write path content := change (·.write path content)
  replace path content := change (·.write path content)
  createDirectory path := change (·.createDirectory path)
  removeFile path := change (·.removeFile path)

end TreeM

end FirmwareCatalog
