import FirmwareCatalog.Header.Bracket
import FirmwareCatalog.Header.RawBlock
import FirmwareCatalog.Header.Scan

/-!
# Macro invocations

Entries may be listed as invocations of a macro with a fixed list of arguments,
the first of which names a string macro. Examples in documentation have other
first arguments, or another number of them, and are passed over.
-/

namespace FirmwareCatalog

/-- A macro and the fields that its arguments fill, in order. -/
structure InvocationForm where
  macroName : String
  params : List String
deriving DecidableEq

/-- The form of the sensor library. -/
def InvocationForm.sensor : InvocationForm where
  macroName := "X_SENSOR"
  params := ["name", "label", "description", "readFunction", "initFunction", "measurementType", "calibrationType",
    "defaultCalibration", "minReadInterval", "minValue", "maxValue", "nameHash", "pinTypeRequirement"]

namespace Header

open Text

/-- The macro name at the edge of a word, up to the opening parenthesis. -/
def invocationHead? (name : List Char) : Reader Unit := fun before cs => do
  if !Character.isWordEdge before cs.head? then none
  let cs ← after? name cs
  let cs ← text? "(" (skipBlanks cs)
  return ((), cs)

/-- What a backslash at the end of a line leaves: what follows the line end. -/
def lineEnd? : List Char → Option (List Char)
  | '\n' :: cs => some cs
  | '\r' :: '\n' :: cs => some cs
  | _ => none

/-- A continued line goes on behind one space: the backslash, the line end and the blanks behind it are
dropped. -/
def joinLinesFrom : (joining : Bool) → (skip : Nat) → List Char → List Char
  | _, _, [] => []
  | joining, skip + 1, _ :: cs => joinLinesFrom joining skip cs
  | joining, 0, c :: cs =>
    match if c = '\\' then lineEnd? cs else none with
    | some rest => ' ' :: joinLinesFrom true (cs.length - rest.length) cs
    | none => if joining && Character.isBlank c then joinLinesFrom true 0 cs else c :: joinLinesFrom false 0 cs

def joinLines (cs : List Char) : List Char := joinLinesFrom false 0 cs

/-- `PSTR_` and word characters, and nothing else. -/
def isMacroReference (cs : List Char) : Bool :=
  match text? "PSTR_" cs with
  | some word => !word.isEmpty && word.all Character.isWord
  | none => false

/-- The block of an invocation with its head and what stands between its parentheses. -/
def invocationBlock? (form : InvocationForm) (head inner : List Char) : Option RawBlock :=
  let arguments := (splitTopLevel (joinLines inner)).map trim
  if arguments.length = form.params.length ∧ arguments.head?.any isMacroReference then
    some ⟨none, String.ofList (head ++ inner ++ [')']), form.params.zip (arguments.map String.ofList), .invocation⟩
  else none

/-- The entries that a text lists as invocations, if there is one. -/
def invocationBlocks? (form : InvocationForm) (text : List Char) : Option (List RawBlock) :=
  let marked := mark text
  let blocks := (scan (invocationHead? form.macroName.toList) text).filterMap fun m =>
    if zoneAt? marked m.start = some .code then
      (bracketed? '(' ')' marked (m.stop - 1)).bind fun (inner, _) => invocationBlock? form m.text (plain inner)
    else none
  if blocks.isEmpty then none else some blocks

end Header

end FirmwareCatalog
