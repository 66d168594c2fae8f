import FirmwareCatalog.Header.Scan
import FirmwareCatalog.Header.Zone
import FirmwareCatalog.Table
import FirmwareCatalog.Text.Numeral

/-!
# Enum constants

`NAME = 5` anywhere in code gives a name a number. Numbers beyond 64 bits and
numbers in other digits than the ASCII ones are passed over.
-/

namespace FirmwareCatalog.Header

open Character

def startsIdentifier (c : Char) : Bool := c.isAlpha || c = '_'

def enumConstant? : Reader (List Char × List Char) := fun before cs => do
  let first ← cs.head?
  if !startsIdentifier first || before.any isWord then none
  let (name, cs) ← word? cs
  let cs ← text? "=" (skipBlanks cs)
  let (digits, cs) ← digits? (skipBlanks cs)
  if cs.head?.any isWord then none
  return ((name, digits), cs)

def enumConstants (text : List Char) : Table Int :=
  Table.ofList ((scan enumConstant? (stripComments text)).filterMap fun m =>
    (Numeral.signed? 10 m.value.2).map fun value => (String.ofList m.value.1, value))

end FirmwareCatalog.Header
