import FirmwareCatalog.Decimal.Style

/-!
# Field values

What the text of a field means: nothing, a truth value, a number, the text of a
string, or itself when nothing else fits.
-/

namespace FirmwareCatalog

inductive FieldValue where
  | null
  | bool (value : Bool)
  | int (value : Int)
  | float (value : Float)
  | string (text : String)
  /-- Text that was not resolved, without blanks around it. -/
  | raw (text : String)
deriving BEq

/-- Floats are shown with the fewest digits that read back, the upper of two that are equally near;
from the fifth place behind the point and from 10^16 on with an exponent. -/
def floatStyle : Decimal.Style where
  plainFrom := -4
  plusSign := false
  tie := .up

namespace FieldValue

def isNull : FieldValue → Bool
  | .null => true
  | _ => false

/-- The name of a string macro that is not defined. -/
def isUnresolvedMacro : FieldValue → Bool
  | .raw text => "PSTR_".toList.isPrefixOf text.toList
  | _ => false

def text? : FieldValue → Option String
  | .string text | .raw text => some text
  | _ => none

def int? : FieldValue → Option Int
  | .int value => some value
  | _ => none

/-- The value as the index of an entry, a natural number of 32 bits. -/
def index? (value : FieldValue) : Option Nat :=
  value.int?.bind fun v => if 0 ≤ v ∧ v < 4294967296 then some v.toNat else none

def float? : FieldValue → Option Float
  | .int value => some (Float.ofInt value)
  | .float value => some value
  | _ => none

def render : FieldValue → String
  | .null => "nullptr"
  | .bool value => if value then "true" else "false"
  | .int value => Numeral.integerText value
  | .float value => floatStyle.render value
  | .string text | .raw text => text

end FieldValue

end FirmwareCatalog
