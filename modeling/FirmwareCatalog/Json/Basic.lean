/-!
# JSON values

Numbers keep whether they were written as integers: an integer within 64 bits
stays one, every other number is a float.
-/

namespace FirmwareCatalog

inductive JsonNumber where
  | integer (value : Int)
  | real (value : Float)
deriving BEq

inductive Json where
  | null
  | bool (value : Bool)
  | number (value : JsonNumber)
  | string (text : String)
  | array (items : List Json)
  /-- Each name stands once. -/
  | object (members : List (String × Json))

namespace Json

def member? (name : String) : Json → Option Json
  | .object members => members.lookup name
  | _ => none

def text? : Json → Option String
  | .string text => some text
  | _ => none

/-- A number that was written as an integer. -/
def int? : Json → Option Int
  | .number (.integer value) => some value
  | _ => none

/-- A natural number of at most `bits` binary digits. -/
def natural? (bits : Nat) (json : Json) : Option Nat :=
  json.int?.bind fun v => if 0 ≤ v ∧ v < Nat.pow 2 bits then some v.toNat else none

def items? : Json → Option (List Json)
  | .array items => some items
  | _ => none

end Json

end FirmwareCatalog
