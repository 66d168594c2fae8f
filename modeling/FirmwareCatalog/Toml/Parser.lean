import FirmwareCatalog.Toml.Scalar
import FirmwareCatalog.Toml.Text

/-!
# Reading TOML

A document is a list of statements, one a line: pairs, and headers that begin
the section of a table or of one more table in a list. Each section is read into
its table as a whole, and the table is put into the document then.
-/

namespace FirmwareCatalog.Toml

open Text TomlText

/-! ## Lines -/

/-- What follows a comment. -/
def skipComment (cs : List Char) : List Char := cs.dropWhile isPrintable

/-- The lines behind the rest of a line, which holds nothing but blanks and a comment. -/
def nextLine? (cs : List Char) : Option (List Char) :=
  let cs := skipSpaces cs
  let cs := if cs.head? = some '#' then skipComment cs else cs
  match cs with
  | [] => some []
  | '\n' :: cs => some cs
  | _ => none

/-- Skips blanks, line ends and comments. -/
def skipLinesFrom (inComment : Bool) : List Char → List Char
  | [] => []
  | c :: cs =>
    if inComment then
      if isPrintable c then skipLinesFrom true cs
      else if c = '\n' then skipLinesFrom false cs
      else c :: cs
    else if isSpace c || c = '\n' then skipLinesFrom false cs
    else if c = '#' then skipLinesFrom true cs
    else c :: cs

def skipLines (cs : List Char) : List Char := skipLinesFrom false cs

/-! ## Values -/

/-- The pairs of an inline table. -/
def closedTable? (pairs : List ((List String × String) × Toml)) : Option Toml :=
  (pairs.foldlM (fun members p => addPair .closed members p.1.1 p.1.2 p.2) []).map (.table .closed)

mutual

/-- A value at the front of a text. `depth` more levels may be opened; `fuel` bounds the steps. -/
def valueFrom : (fuel depth : Nat) → List Char → Option (Toml × List Char)
  | 0, _, _ => none
  | fuel + 1, depth, cs =>
    match cs with
    | '"' :: _ | '\'' :: _ => (string? cs).map fun p => (.string p.1, p.2)
    | '[' :: cs =>
      match depth with
      | 0 => none
      | depth + 1 => (itemsFrom fuel depth cs).map fun p => (.array p.1, p.2)
    | '\x7b' :: cs =>
      match depth, skipSpaces cs with
      | 0, _ => none
      | _ + 1, '\x7d' :: cs => some (.table .closed [], cs)
      | depth + 1, cs => do
        let (pairs, cs) ← pairsFrom fuel depth cs
        return (← closedTable? pairs, cs)
    | 't' :: cs => (after? "rue".toList cs).map fun cs => (.bool true, cs)
    | 'f' :: cs => (after? "alse".toList cs).map fun cs => (.bool false, cs)
    | _ => scalar? cs

/-- Items up to the bracket that closes them. A comma may stand behind the last. -/
def itemsFrom : (fuel depth : Nat) → List Char → Option (List Toml × List Char)
  | 0, _, _ => none
  | fuel + 1, depth, cs =>
    match skipLines cs with
    | ']' :: cs => some ([], cs)
    | cs => do
      let (item, cs) ← valueFrom fuel depth cs
      match skipLines cs with
      | ',' :: cs => (itemsFrom fuel depth cs).map fun p => (item :: p.1, p.2)
      | ']' :: cs => some ([item], cs)
      | _ => none

/-- Pairs on one line, up to the brace that closes them. -/
def pairsFrom : (fuel depth : Nat) → List Char → Option (List ((List String × String) × Toml) × List Char)
  | 0, _, _ => none
  | fuel + 1, depth, cs => do
    let (key, cs) ← keys? cs
    let cs ← after? ['='] cs
    let (value, cs) ← valueFrom fuel depth (skipSpaces cs)
    match skipSpaces cs with
    | ',' :: cs => (pairsFrom fuel depth cs).map fun p => ((key, value) :: p.1, p.2)
    | '\x7d' :: cs => some ([(key, value)], cs)
    | _ => none

end

/-- Every two steps take a character, so the fuel suffices. -/
def value? (cs : List Char) : Option (Toml × List Char) := valueFrom (2 * cs.length + 2) maxDepth cs

/-! ## Statements -/

inductive Statement where
  | pair (path : List String) (key : String) (value : Toml)
  /-- `repeated` for a header in two brackets, which adds a table to a list. -/
  | header (repeated : Bool) (path : List String) (key : String)

def statement? : List Char → Option (Statement × List Char)
  | '[' :: '[' :: cs => do
    let ((path, key), cs) ← keys? cs
    return (.header true path key, ← nextLine? (← after? [']', ']'] cs))
  | '[' :: cs => do
    let ((path, key), cs) ← keys? cs
    return (.header false path key, ← nextLine? (← after? [']'] cs))
  | cs => do
    let ((path, key), cs) ← keys? cs
    let (value, cs) ← value? (skipSpaces (← after? ['='] cs))
    return (.pair path key value, ← nextLine? cs)

/-- Every statement and every empty line takes a character. -/
def statementsFrom : (fuel : Nat) → List Char → Option (List Statement)
  | 0, cs => if cs.isEmpty then some [] else none
  | fuel + 1, cs =>
    match skipSpaces cs with
    | [] => some []
    | '\n' :: cs => statementsFrom fuel cs
    | '#' :: cs => (nextLine? ('#' :: cs)).bind (statementsFrom fuel)
    | cs => do
      let (s, cs) ← statement? cs
      return s :: (← statementsFrom fuel cs)

/-! ## Documents -/

/-- A document under construction: the root without the section that is being read. -/
structure Draft where
  root : Members
  /-- The table of the section. -/
  current : Members
  /-- Where the section belongs; nothing for the pairs in front of the first header. -/
  place : Option (Bool × List String × String)

/-- Puts the table of a section into its parent. -/
def closeSection (repeated : Bool) (key : String) (table : Members) (parent : Members) : Option Members :=
  match parent.lookup key, repeated with
  | none, false => some (parent ++ [(key, .table .header table)])
  | none, true => some (parent ++ [(key, .tables [] table)])
  | some (.tables earlier last), true =>
    some (setMember key (.tables (earlier ++ [.table .header last]) table) parent)
  | some (.table .implied _), false => some (setMember key (.table .header table) parent)
  | some _, _ => none

def Draft.finish (draft : Draft) : Option Members :=
  match draft.place with
  | none => some draft.current
  | some (repeated, path, key) =>
    editAt .implied (fun _ parent => closeSection repeated key draft.current parent) path .header draft.root

/-- The table at the end of a path, as far as there is one. -/
def tableAt (path : List String) (members : Members) : Members :=
  match path with
  | [] => members
  | key :: path =>
    match members.lookup key with
    | some (.table _ inner) | some (.tables _ inner) => tableAt path inner
    | _ => []

/-- A section starts with what longer headers have put into its table. -/
def sectionStart (repeated : Bool) (path : List String) (key : String) (root : Members) : Members :=
  if repeated then []
  else match (tableAt path root).lookup key with
    | some (.table .implied inner) => inner
    | _ => []

/-- A header finishes the section before it. -/
def Draft.step (draft : Draft) : Statement → Option Draft
  | .pair path key value =>
    (addPair .header draft.current path key value).map fun current => { draft with current }
  | .header repeated path key => do
    let root ← draft.finish
    return { root, current := sectionStart repeated path key root, place := some (repeated, path, key) }

def ofStatements? (statements : List Statement) : Option Members := do
  (← statements.foldlM Draft.step ⟨[], [], none⟩).finish

/-- Line ends as line feeds. -/
def unifyLineEnds : List Char → List Char
  | '\r' :: '\n' :: cs => '\n' :: unifyLineEnds cs
  | c :: cs => c :: unifyLineEnds cs
  | [] => []

/-- The members of the table that a whole text denotes. -/
def parse? (text : String) : Option Members := do
  let cs := match text.toList with
    | '\uFEFF' :: cs => cs
    | cs => cs
  let lines := unifyLineEnds cs
  ofStatements? (← statementsFrom lines.length lines)

end FirmwareCatalog.Toml
