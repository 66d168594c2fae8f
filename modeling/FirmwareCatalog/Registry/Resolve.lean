import FirmwareCatalog.Decimal.Reading
import FirmwareCatalog.Registry.Basic

/-!
# Resolving fields

The text of a field is looked up among the string macros and the enum
constants, then read as a null pointer, a truth value, a number or a string. No
text is refused: what means nothing stays as it is.
-/

namespace FirmwareCatalog

open Numeral Text

/-- What field texts may refer to. -/
structure Symbols where
  macros : Table StringMacro
  enums : Table Int

def isIntegerSuffix (c : Char) : Bool := c = 'u' || c = 'U' || c = 'l' || c = 'L'

def isFloatSuffix (c : Char) : Bool := c = 'f' || c = 'F'

def readFloat? (cs : List Char) : Option FieldValue :=
  (Decimal.read? (dropEndWhile isFloatSuffix cs)).map .float

def startsNumber (c : Char) : Bool := c.isDigit || c = '-' || c = '+' || c = '.'

/-- Numbers with the suffixes of their types: a point makes a float, and so does an exponent in what is no
integer. -/
def readDecimal? (cs : List Char) : Option FieldValue :=
  if !cs.head?.any startsNumber then none
  else if cs.contains '.' then readFloat? cs
  else match signed? 10 (dropEndWhile isIntegerSuffix cs) with
    | some value => some (.int value)
    | none => if cs.contains 'e' || cs.contains 'E' then readFloat? cs else none

def readNumber? (cs : List Char) : Option FieldValue :=
  match cs with
  | '0' :: 'x' :: digits | '0' :: 'X' :: digits =>
    (signed? 16 (dropEndWhile isIntegerSuffix digits)).map .int
  | _ => readDecimal? cs

/-- The meaning of a text that is no name of a macro or constant. -/
def readLiteral (text : String) : FieldValue :=
  if text = "nullptr" || text = "NULL" then .null
  else if text = "true" then .bool true
  else if text = "false" then .bool false
  else match readNumber? text.toList with
    | some value => value
    | none => match Header.stringValue? text.toList with
      | some value => .string (String.ofList value)
      | none => .raw text

namespace Symbols

def resolveTrimmed (symbols : Symbols) (text : String) : FieldValue :=
  match symbols.macros.find? text with
  | some m => .string m.value
  | none => match symbols.enums.find? text with
    | some value => .int value
    | none => readLiteral text

def resolve (symbols : Symbols) (text : String) : FieldValue := symbols.resolveTrimmed (trimmed text)

/-- Adds a name that is not yet in a list. -/
def addName (names : List String) (name : String) : List String :=
  if names.contains name then names else names ++ [name]

/-- The macros that fields name, each once, in field order. -/
def usedMacros (symbols : Symbols) (fields : List (String × String)) : List String :=
  ((fields.map fun f => trimmed f.2).filter symbols.macros.contains).foldl addName []

def resolveFields (symbols : Symbols) (fields : List (String × String)) : Table FieldValue :=
  Table.ofList (fields.map fun f => (f.1, symbols.resolve f.2))

/-- A placeholder has no label; where there is no field for one, no name. A macro that is not defined is none
either. -/
def isImplemented (fields : Table FieldValue) : Bool :=
  ((fields.find? "label").or (fields.find? "name")).any fun v => !v.isNull && !v.isUnresolvedMacro

def resolveBlock (symbols : Symbols) (indexed : IndexedBlock) : EntryRecord :=
  let fields := symbols.resolveFields indexed.block.fields
  { index := indexed.index
    fields
    usedMacros := symbols.usedMacros indexed.block.fields
    raw := indexed.block.raw
    form := indexed.block.form
    implemented := isImplemented fields }

end Symbols

end FirmwareCatalog
