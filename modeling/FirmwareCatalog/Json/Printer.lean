import FirmwareCatalog.Decimal.Style
import FirmwareCatalog.Json.Basic
import FirmwareCatalog.Json.Text

/-!
# Writing JSON

On one line without blanks, or with two spaces for each level. Members keep
their order.
-/

namespace FirmwareCatalog

/-- Floats are written with the fewest digits that read back, the even of two that are equally near; from
the sixth place behind the point and from 10^16 on with a signed exponent. -/
def JsonNumber.style : Decimal.Style where
  plainFrom := -5
  plusSign := true
  tie := .even

def JsonNumber.render : JsonNumber → String
  | .integer value => Numeral.integerText value
  | .real value => JsonNumber.style.render value

namespace Json

def quoted (s : String) : String := String.ofList (JsonText.quote s)

mutual

def compact : Json → String
  | .null => "null"
  | .bool value => if value then "true" else "false"
  | .number value => value.render
  | .string text => quoted text
  | .array items => "[" ++ compactItems items ++ "]"
  | .object members => "\x7b" ++ compactMembers members ++ "\x7d"

def compactItems : List Json → String
  | [] => ""
  | [item] => compact item
  | item :: items => compact item ++ "," ++ compactItems items

def compactMembers : List (String × Json) → String
  | [] => ""
  | [(name, value)] => quoted name ++ ":" ++ compact value
  | (name, value) :: members => quoted name ++ ":" ++ compact value ++ "," ++ compactMembers members

end

/-- The start of a line at a level. -/
def indent (level : Nat) : String := "\n" ++ String.ofList (List.replicate (2 * level) ' ')

mutual

/-- The text of a value whose first line is at a level. -/
def prettyAt (level : Nat) : Json → String
  | .array [] => "[]"
  | .object [] => "\x7b\x7d"
  | .array items => "[" ++ prettyItems (level + 1) items ++ indent level ++ "]"
  | .object members => "\x7b" ++ prettyMembers (level + 1) members ++ indent level ++ "\x7d"
  | .null => "null"
  | .bool value => if value then "true" else "false"
  | .number value => value.render
  | .string text => quoted text

def prettyItems (level : Nat) : List Json → String
  | [] => ""
  | [item] => indent level ++ prettyAt level item
  | item :: items => indent level ++ prettyAt level item ++ "," ++ prettyItems level items

def prettyMembers (level : Nat) : List (String × Json) → String
  | [] => ""
  | [(name, value)] => indent level ++ quoted name ++ ": " ++ prettyAt level value
  | (name, value) :: members =>
    indent level ++ quoted name ++ ": " ++ prettyAt level value ++ "," ++ prettyMembers level members

end

def pretty (json : Json) : String := prettyAt 0 json

end Json

end FirmwareCatalog
