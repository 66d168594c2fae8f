import FirmwareCatalog.Header.Scan
import FirmwareCatalog.MarkedBlock
import FirmwareCatalog.Registry.Basic
import FirmwareCatalog.Text.Numeral
import FirmwareCatalog.Validation.Report

/-!
# Static configuration

Reads the defines of the marked block of a configuration header and checks them
against the catalog. Every finding about an input is made whatever else is wrong
with it.
-/

namespace FirmwareCatalog

open Character Header

/-! ## Reading defines -/

/-- A directive that defines a name with the given start. -/
def defineStart? (start : String) (before : Option Char) (cs : List Char) : Option (List Char) := do
  if !startsLine before then none
  let cs ← text? "#define" (skipBlanks cs)
  let cs ← someBlanks? cs
  text? start cs

def inputCount? : Reader (List Char) := fun before cs => do
  let cs ← defineStart? "NUM_CONFIGURED_INPUTS" before cs
  let cs ← someBlanks? cs
  let (digits, cs) ← digits? cs
  if cs.head?.any isWord then none
  return (digits, cs)

def inputField? (cs : List Char) : Option (InputField × List Char) :=
  match text? "PIN" cs, text? "APPLICATION" cs, text? "SENSOR" cs with
  | some rest, _, _ => some (.pin, rest)
  | _, some rest, _ => some (.application, rest)
  | _, _, some rest => some (.sensor, rest)
  | none, none, none => none

/-- A define of an input as it stands in the text. -/
structure WrittenDefine where
  input : List Char
  field : InputField
  value : List Char

/-- The value of a define goes up to the next blank. -/
def inputDefine? : Reader WrittenDefine := fun before cs => do
  let cs ← defineStart? "INPUT_" before cs
  let (input, cs) ← digits? cs
  let cs ← text? "_" cs
  let (field, cs) ← inputField? cs
  let cs ← someBlanks? cs
  let (value, cs) ← someOf? (fun c => !isBlank c) cs
  return (⟨input, field, value⟩, cs)

/-- What a static configuration says about its inputs. -/
structure DefineTable where
  count : Nat
  /-- In the order of the text. -/
  defines : List ((Nat × InputField) × String)

/-- The count is that of the first define for it; there is no table when it does not fit 32 bits. -/
def DefineTable.read? (block : List Char) : Option DefineTable := do
  let first ← (scan inputCount? block).head?
  let count ← Numeral.unsigned? 32 10 first.value
  let defines := (scan inputDefine? block).filterMap fun m =>
    (Numeral.unsigned? 32 10 m.value.input).map fun input => ((input, m.value.field), String.ofList m.value.value)
  return { count, defines }

/-- The last of several defines counts. -/
def DefineTable.value? (table : DefineTable) (input : Nat) (field : InputField) : Option String :=
  table.defines.reverse.lookup (input, field)

/-- The pins of the inputs, in order. -/
def DefineTable.pins (table : DefineTable) : List (String × Nat) :=
  (List.range table.count).filterMap fun input => (table.value? input .pin).map fun pin => (pin, input)

/-! ## Checking -/

namespace Validation

def missingFaults (table : DefineTable) (input : Nat) : List Fault :=
  [InputField.pin, .application, .sensor].filterMap fun field =>
    if (table.value? input field).isSome then none else some (.missingDefine input field)

/-- Of the inputs with a pin, the first is not at fault. -/
def duplicatePinFault? (pins : List (String × Nat)) (input : Nat) (pin : String) : Option Fault :=
  (pins.lookup pin).bind fun first => if first < input then some (.duplicatePin pin first input) else none

def readIndex? (value : String) : Option Nat := Numeral.unsigned? 32 10 value.toList

def malformedFault? (table : DefineTable) (input : Nat) (field : InputField) : Option Fault :=
  (table.value? input field).bind fun value =>
    if (readIndex? value).isSome then none else some (.malformedDefine input field value)

/-- An index that no entry has. -/
def unknownIndex? {E : Type} [CatalogEntry E] (table : DefineTable) (registry : Registry E) (input : Nat)
    (field : InputField) : Option Nat :=
  ((table.value? input field).bind readIndex?).filter fun index => (registry.get? index).isNone

/-- The findings about one input, when the inputs have these pins. -/
def inputFaults (catalog : Catalog) (table : DefineTable) (pins : List (String × Nat)) (input : Nat) : List Fault :=
  missingFaults table input
    ++ ((table.value? input .pin).bind (duplicatePinFault? pins input)).toList
    ++ [InputField.application, .sensor].filterMap (malformedFault? table input)
    ++ ((unknownIndex? table catalog.applications input .application).map (.unknownApplication input)).toList
    ++ ((unknownIndex? table catalog.sensors input .sensor).map (.unknownSensor input)).toList

def blockFaults (catalog : Catalog) (block : List Char) : List Fault :=
  match DefineTable.read? block with
  | none => [.missingInputCount]
  | some table => (List.range table.count).flatMap (inputFaults catalog table table.pins)

def configFaults (catalog : Catalog) (markers : BlockMarkers) (text : String) : List Fault :=
  match MarkedBlock.locate markers (textBytes text) with
  | .found _ block _ => blockFaults catalog (Utf8.decodeLossy block)
  | .unterminated before => [.unterminatedBlock markers.start markers.stop ((MarkedBlock.lines before).length + 1)]
  | .absent => [.missingBlock markers.start]

/-- Checks the text of a configuration header. -/
def checkConfigBlock (catalog : Catalog) (markers : BlockMarkers) (text : String) : Pass where
  title := "Checking config.h"
  success := "config.h is valid"
  findings := .ofFaults (configFaults catalog markers text)

end Validation

end FirmwareCatalog
