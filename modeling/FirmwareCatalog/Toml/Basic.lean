/-!
# TOML documents

A document is a table. How a table came about decides who may still add to it:
the table of a header is complete after its section, one that a longer header
implies may get a header of its own, one that dotted keys make may get more
dotted keys, and an inline table is closed.
-/

namespace FirmwareCatalog

inductive TableKind where
  /-- The root, or a table with a header of its own. -/
  | header
  /-- Named on the way to a table with a header. -/
  | implied
  /-- Named on the way to a dotted key. -/
  | dotted
  | closed
deriving DecidableEq

inductive Toml where
  | string (text : String)
  | integer (value : Int)
  | float (value : Float)
  | bool (value : Bool)
  /-- A date, a time of day or both, as written. -/
  | moment (text : String)
  | array (items : List Toml)
  | table (kind : TableKind) (members : List (String × Toml))
  /-- The tables of repeated headers; the last one is still open. -/
  | tables (earlier : List Toml) (last : List (String × Toml))

namespace Toml

abbrev Members := List (String × Toml)

/-- Puts a value under a key, in the place of the value that stood there. -/
def setMember (key : String) (value : Toml) : Members → Members
  | [] => [(key, value)]
  | (k, v) :: rest => if k = key then (key, value) :: rest else (k, v) :: setMember key value rest

/-- Whether a path may go through a table. Dotted keys do not enter a table that has a header. -/
def isOpenTo (via : TableKind) : TableKind → Bool
  | .closed => false
  | .header => via ≠ .dotted
  | _ => true

/-- Edits the table at the end of a path. Tables that are missing on the way are made, of the kind `via`. -/
def editAt (via : TableKind) (edit : TableKind → Members → Option Members) :
    (path : List String) → TableKind → Members → Option Members
  | [], kind, members => edit kind members
  | key :: path, _, members =>
    let child? : Option Toml := match members.lookup key with
      | none => (editAt via edit path via []).map (.table via)
      | some (.table kind inner) =>
        if isOpenTo via kind then (editAt via edit path kind inner).map (.table kind) else none
      | some (.tables earlier last) => (editAt via edit path .header last).map (.tables earlier)
      | some _ => none
    child?.map fun child => setMember key child members

/-- Adds a value under a new key. A dotted key has to end in a table that dotted keys have made. -/
def addPair (kind : TableKind) (members : Members) (path : List String) (key : String) (value : Toml) :
    Option Members :=
  let edit (kind : TableKind) (members : Members) : Option Members :=
    if !path.isEmpty && kind ≠ .dotted then none
    else if (members.lookup key).isSome then none
    else some (members ++ [(key, value)])
  editAt .dotted edit path kind members

end Toml

end FirmwareCatalog
