/-!
# Paths

A path keeps the text it was written with. Joining, taking the parent and
comparing follow its parts: doubled and trailing separators and `.` behind the
start say nothing.
-/

namespace FirmwareCatalog

structure Path where
  text : String
deriving DecidableEq, Inhabited

namespace Path

inductive Part where
  | root
  /-- A `.` that starts a relative path. -/
  | current
  | up
  | name (text : List Char)
deriving DecidableEq

def isAbsolute (p : Path) : Bool := p.text.toList.head? = some '/'

/-- What stands between the slashes. -/
def segments : List Char → List (List Char)
  | [] => [[]]
  | c :: cs =>
    if c = '/' then [] :: segments cs
    else match segments cs with
      | [] => [[c]]
      | s :: rest => (c :: s) :: rest

def joinSegments : List (List Char) → List Char
  | [] => []
  | [s] => s
  | s :: rest => s ++ '/' :: joinSegments rest

/-- The slash of an absolute path or the dot that starts a relative one, and the rest. -/
def splitHead : List Char → List Char × List Char
  | '/' :: cs => (['/'], cs)
  | ['.'] => (['.'], [])
  | '.' :: '/' :: cs => (['.'], '/' :: cs)
  | cs => ([], cs)

def isIdle (segment : List Char) : Bool := segment = [] || segment = ['.']

def partOfSegment? (segment : List Char) : Option Part :=
  if isIdle segment then none else if segment = ['.', '.'] then some .up else some (.name segment)

def parts (p : Path) : List Part :=
  let (head, body) := splitHead p.text.toList
  let start := match head with
    | ['/'] => [.root]
    | ['.'] => [.current]
    | _ => []
  start ++ (segments body).filterMap partOfSegment?

/-- Puts a path behind another; an absolute one replaces it. -/
def join (base right : Path) : Path :=
  if right.isAbsolute then right
  else
    let slash := if base.text.isEmpty || base.text.toList.getLast? = some '/' then "" else "/"
    ⟨base.text ++ slash ++ right.text⟩

def dropIdleEnd (segments : List (List Char)) : List (List Char) := (segments.reverse.dropWhile isIdle).reverse

/-- The path without its last part; the root and the empty path have no parent. -/
def parent? (p : Path) : Option Path :=
  let (head, body) := splitHead p.text.toList
  match dropIdleEnd (segments body) with
  | [] => if head = ['.'] then some ⟨""⟩ else none
  | ss => some ⟨String.ofList (head ++ joinSegments (dropIdleEnd ss.dropLast))⟩

/-- At most `count` ancestors, the path itself first. -/
def ancestorsUpTo : (count : Nat) → Path → List Path
  | 0, p => [p]
  | count + 1, p =>
    match p.parent? with
    | none => [p]
    | some q => p :: ancestorsUpTo count q

/-- The path, its parent, and so on: each is shorter than the one before. -/
def ancestors (p : Path) : List Path := ancestorsUpTo p.text.length p

/-! ## Normal form -/

/-- The parts so far, last first, with one more. `..` takes back the part before it, unless that is the root
or there is none. -/
def pushPart : List Part → Part → List Part
  | done, .current => done
  | [], .up => [.up]
  | [.root], .up => [.up, .root]
  | _ :: done, .up => done
  | done, part => part :: done

/-- The parts with `.` and `..` worked off. -/
def normalize (parts : List Part) : List Part := (parts.foldl pushPart []).reverse

def Part.text : Part → List Char
  | .root => []
  | .current => ['.']
  | .up => ['.', '.']
  | .name text => text

def ofParts : List Part → Path
  | [.root] => ⟨"/"⟩
  | parts => ⟨String.ofList (joinSegments (parts.map Part.text))⟩

end Path

end FirmwareCatalog
