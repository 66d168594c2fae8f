import FirmwareCatalog.Header.Bracket
import FirmwareCatalog.Header.RawBlock
import FirmwareCatalog.Header.Scan
import FirmwareCatalog.Text.Numeral

/-!
# Struct arrays

`static const PROGMEM Type NAME[] = { {…}, {…} };` declares the entries of a
registry. Each pair of braces at the top of the body is an element; a comment
that starts with `Index N:` names the index of the element behind it.
-/

namespace FirmwareCatalog.Header

open Text

/-! ## The declaration -/

structure StructArray where
  elementType : List Char
  /-- What stands between the outer braces. -/
  body : List Char

/-- What follows the name of an array up to its opening brace. -/
def arrayTail? (cs : List Char) : Option (List Char) := do
  let cs ← text? "[" (skipBlanks cs)
  let cs ← text? "]" (skipBlanks cs)
  let cs := skipBlanks cs
  let cs := ((text? "PROGMEM" cs).map skipBlanks).getD cs
  let cs ← text? "=" cs
  text? "\x7b" (skipBlanks cs)

/-- The name behind one or more blanks, of which the name may begin with some: the longest run of blanks
that leaves the name is taken. -/
def nameAndTail? (name : List Char) : List Char → Option (List Char)
  | [] => none
  | c :: cs =>
    if Character.isBlank c then
      match nameAndTail? name cs with
      | some rest => some rest
      | none => (after? name cs).bind arrayTail?
    else none

/-- An element type, the name and the opening brace. -/
def typeAndTail? (name cs : List Char) : Option (List Char × List Char) := do
  let (elementType, cs) ← word? cs
  let cs ← nameAndTail? name cs
  return (elementType, cs)

/-- `PROGMEM` before the element type is no part of it, unless there is no other type. -/
def arrayHead? (name : List Char) : Reader (List Char) := fun _ cs => do
  let cs ← text? "static" cs
  let cs ← someBlanks? cs
  let cs ← text? "const" cs
  let cs ← someBlanks? cs
  let qualified := do
    let cs ← text? "PROGMEM" cs
    let cs ← someBlanks? cs
    typeAndTail? name cs
  qualified <|> typeAndTail? name cs

/-- The first declaration of an array in code whose brace is closed. -/
def structArray? (name text : List Char) : Option StructArray :=
  let marked := mark text
  (scan (arrayHead? name) text).findSome? fun m =>
    if zoneAt? marked m.start = some .code then
      (bracketed? '{' '}' marked (m.stop - 1)).map fun (body, _) => ⟨m.value, plain body⟩
    else none

/-! ## The elements -/

/-- A piece of an array body. -/
inductive Piece where
  /-- A run of comment characters. -/
  | comment (text : List Char)
  /-- An element, without its braces. -/
  | element (inner : List Char)
  /-- Any other character. -/
  | other (c : Char)

/-- The pieces of a body, up to an element that is not closed. -/
def pieces : List Marked → List Piece
  | [] => []
  | (c, zone) :: rest =>
    if zone.isComment then
      .comment (c :: plain (rest.takeWhile (·.2.isComment))) :: pieces (rest.dropWhile (·.2.isComment))
    else if zone = .code ∧ c = '{' then
      match _h : splitClosing '{' '}' 1 rest with
      | none => []
      | some (inner, rest) => .element (plain inner) :: pieces rest
    else .other c :: pieces rest
termination_by marked => marked.length
decreasing_by
  · have := (List.dropWhile_suffix (l := rest) (·.2.isComment)).length_le
    simp only [List.length_cons]; omega
  · have := splitClosing_length _h
    simp only [List.length_cons]; omega
  · simp

/-- The index that a comment announces: `Index`, digits and a colon at its start. -/
def announcedIndex? (comment : List Char) : Option Nat := do
  let cs ← text? "//" comment <|> text? "/*" comment
  let cs ← text? "Index" (skipBlanks cs)
  let cs ← someBlanks? cs
  let (digits, cs) ← digits? cs
  let _ ← text? ":" (skipBlanks cs)
  Numeral.unsigned? 32 10 digits

/-- `.name = value`. -/
def designatedField? (segment : List Char) : Option (String × String) := do
  let cs ← text? "." (trim segment)
  let (name, cs) ← word? cs
  let cs ← text? "=" (skipBlanks cs)
  return (String.ofList name, String.ofList (trim cs))

/-- The designated fields between the braces of an element; comments do not count. -/
def designatedFields (inner : List Char) : List (String × String) :=
  (splitTopLevel (stripComments inner)).filterMap designatedField?

def elementBlock (announced : Option Nat) (lead inner : List Char) : RawBlock :=
  ⟨announced, String.ofList (lead ++ '{' :: inner ++ ['}']), designatedFields inner, .structLiteral⟩

/-- The blocks of the pieces behind an announced index and the text since its announcement. -/
def blocksFrom : Option (Nat × List Char) → List Piece → List RawBlock
  | _, [] => []
  | pending, .comment text :: rest =>
    match announcedIndex? text with
    | some index => blocksFrom (some (index, text)) rest
    | none => blocksFrom (pending.map fun (index, lead) => (index, lead ++ text)) rest
  | pending, .other c :: rest => blocksFrom (pending.map fun (index, lead) => (index, lead ++ [c])) rest
  | some (index, lead), .element inner :: rest => elementBlock (some index) lead inner :: blocksFrom none rest
  | none, .element inner :: rest => elementBlock none [] inner :: blocksFrom none rest

def arrayElements (body : List Char) : List RawBlock := blocksFrom none (pieces (mark body))

/-- The entries of an array, if it is declared. -/
def structBlocks? (name text : List Char) : Option (List RawBlock) :=
  (structArray? name text).map fun array => arrayElements array.body

end FirmwareCatalog.Header
