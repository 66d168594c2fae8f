import FirmwareCatalog.Json.Number
import FirmwareCatalog.Json.Text
import FirmwareCatalog.Table
import FirmwareCatalog.Text.Trim

/-!
# Reading JSON

Arrays and objects nest at most 127 deep. The members of an object come out in
ascending order of their names, and of several with one name the last stays.
-/

namespace FirmwareCatalog.Json

open Text

def isSpace (c : Char) : Bool := c = ' ' || c = '\t' || c = '\n' || c = '\r'

def skipSpaces (cs : List Char) : List Char := cs.dropWhile isSpace

def maxDepth : Nat := 127

mutual

/-- A value at the front of a text. `depth` more levels may be opened; `fuel` bounds the steps. -/
def valueFrom : (fuel depth : Nat) → List Char → Option (Json × List Char)
  | 0, _, _ => none
  | fuel + 1, depth, cs =>
    match skipSpaces cs with
    | [] => none
    | c :: cs =>
      if c = '"' then (JsonText.read? cs).map fun p => (.string (String.ofList p.1), p.2)
      else if c = '[' then
        match depth, skipSpaces cs with
        | 0, _ => none
        | _ + 1, ']' :: cs => some (.array [], cs)
        | depth + 1, cs => (itemsFrom fuel depth cs).map fun p => (.array p.1, p.2)
      else if c = '\x7b' then
        match depth, skipSpaces cs with
        | 0, _ => none
        | _ + 1, '\x7d' :: cs => some (.object [], cs)
        | depth + 1, cs => (membersFrom fuel depth cs).map fun p => (.object (Table.ofList p.1).entries, p.2)
      else if c = 'n' then (after? "ull".toList cs).map fun cs => (.null, cs)
      else if c = 't' then (after? "rue".toList cs).map fun cs => (.bool true, cs)
      else if c = 'f' then (after? "alse".toList cs).map fun cs => (.bool false, cs)
      else (JsonNumber.read? (c :: cs)).map fun p => (.number p.1, p.2)

/-- Items up to the bracket that closes them. -/
def itemsFrom : (fuel depth : Nat) → List Char → Option (List Json × List Char)
  | 0, _, _ => none
  | fuel + 1, depth, cs => do
    let (item, cs) ← valueFrom fuel depth cs
    match skipSpaces cs with
    | ',' :: cs => (itemsFrom fuel depth cs).map fun p => (item :: p.1, p.2)
    | ']' :: cs => some ([item], cs)
    | _ => none

/-- Members up to the brace that closes them. -/
def membersFrom : (fuel depth : Nat) → List Char → Option (List (String × Json) × List Char)
  | 0, _, _ => none
  | fuel + 1, depth, cs => do
    let cs ← after? ['"'] (skipSpaces cs)
    let (name, cs) ← JsonText.read? cs
    let cs ← after? [':'] (skipSpaces cs)
    let (value, cs) ← valueFrom fuel depth cs
    match skipSpaces cs with
    | ',' :: cs => (membersFrom fuel depth cs).map fun p => ((String.ofList name, value) :: p.1, p.2)
    | '\x7d' :: cs => some ([(String.ofList name, value)], cs)
    | _ => none

end

/-- The value that a whole text denotes. Every two steps take a character, so the fuel suffices. -/
def parse? (text : String) : Option Json :=
  let cs := text.toList
  match valueFrom (2 * cs.length + 2) maxDepth cs with
  | some (json, rest) => if (skipSpaces rest).isEmpty then some json else none
  | none => none

end FirmwareCatalog.Json
