import FirmwareCatalog.Header.Scan
import FirmwareCatalog.Header.Zone

/-!
# Include directives

`#include "target"` at the start of a line, with only blanks before it. The
closing quote has to end a string, so a directive in a comment counts for
nothing.
-/

namespace FirmwareCatalog.Header

def includeDirective? : Reader (List Char) := fun before cs => do
  if !startsLine before then none
  let cs ← text? "#" (skipBlanks cs)
  let cs ← text? "include" (skipBlanks cs)
  let cs ← someBlanks? cs
  let cs ← text? "\"" cs
  let (target, cs) ← someOf? (· ≠ '"') cs
  let cs ← text? "\"" cs
  return (target, cs)

/-- The targets of the directives of a text, in order. -/
def includeTargets (text : List Char) : List (List Char) :=
  let marked := mark text
  ((scan includeDirective? text).filter fun m => zoneAt? marked (m.stop - 1) = some .string).map (·.value)

end FirmwareCatalog.Header
