import FirmwareCatalog.Header.Literal
import FirmwareCatalog.Header.Zone
import FirmwareCatalog.Table

/-!
# String macros

A string macro is a statement `static const char PSTR_X[] PROGMEM = "…";` in
code, whose value is the text of its adjacent literals.
-/

namespace FirmwareCatalog

/-- A named text of a header, with the statement that defines it unless it is built in. -/
structure StringMacro where
  value : String
  definition : Option String
deriving DecidableEq

namespace Header

/-- Name and literal bodies of a defining statement. -/
def macroDefinition? : Reader (List Char × List (List Char)) := fun _ cs => do
  let cs ← text? "static" cs
  let cs ← someBlanks? cs
  let cs ← text? "const" cs
  let cs ← someBlanks? cs
  let cs ← text? "char" cs
  let cs ← someBlanks? cs
  let cs ← text? "PSTR_" cs
  let (word, cs) ← word? cs
  let cs ← text? "[" (skipBlanks cs)
  let cs ← text? "]" (skipBlanks cs)
  let cs ← text? "PROGMEM" (skipBlanks cs)
  let cs ← text? "=" (skipBlanks cs)
  let (bodies, cs) := literals (skipBlanks cs)
  let cs ← text? ";" cs
  if bodies.isEmpty then none else some (("PSTR_".toList ++ word, bodies), cs)

/-- The string macros of a header; the last definition of a name holds. -/
def stringMacros (text : List Char) : Table StringMacro :=
  let marked := mark text
  let found := (scan macroDefinition? text).filter fun m => zoneAt? marked m.start = some .code
  Table.ofList (found.map fun m =>
    (String.ofList m.value.1, ⟨String.ofList (joinLiterals m.value.2), some (String.ofList m.text)⟩))

end Header

end FirmwareCatalog
