/-!
# Ranges of code points

A character class is an ascending list of closed ranges; looking a code point
up stops at the first range that lies above it.
-/

namespace FirmwareCatalog.Character

/-- Closed ranges of code points, ascending and apart. -/
abbrev Ranges := List (Nat × Nat)

def Ranges.contains : Ranges → Nat → Bool
  | [], _ => false
  | (low, high) :: ranges, n => if n < low then false else n ≤ high || Ranges.contains ranges n

end FirmwareCatalog.Character
