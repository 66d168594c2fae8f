import FirmwareCatalog.Generation
import FirmwareCatalog.Registry.Layout

/-!
# Thin libraries

A header that holds only the entries a configuration uses, in the words of the
catalog, with the string macros they name.
-/

namespace FirmwareCatalog.ThinLibrary

open Numeral CatalogEntry

variable {E : Type} [CatalogEntry E]

/-- The referenced entries, and the placeholder at index 0. -/
def selected (registry : Registry E) (referenced : List Nat) : List E :=
  registry.entries.filter fun e => index e = 0 || referenced.contains (index e)

/-- The macros that entries use, each once. -/
def usedMacros (entries : List E) : List String :=
  (entries.flatMap fun e => (record e).usedMacros).foldl Symbols.addName []

def escapeChar (c : Char) : List Char :=
  if c = '"' then ['\\', '"']
  else if c = '\\' then ['\\', '\\']
  else if c = '\n' then ['\\', 'n']
  else if c = '\t' then ['\\', 't']
  else [c]

/-- A text as the body of a string literal. -/
def escapeLiteral (s : String) : String := String.ofList (s.toList.flatMap escapeChar)

/-- The statement that defines a built-in macro. -/
def definitionOf (name value : String) : String :=
  "static const char " ++ name ++ "[] PROGMEM = \"" ++ escapeLiteral value ++ "\";"

def macroLine (macros : Table StringMacro) (name : String) : String :=
  match macros.find? name with
  | none => ""
  | some m => (m.definition.getD (definitionOf name m.value)) ++ "\n"

/-- The macro that turns an invocation into an element. -/
def invocationDefinition : String :=
  let params := String.intercalate ", " InvocationForm.sensor.params
  "#define X_SENSOR(" ++ params ++ ") \\\n    \x7b " ++ params ++ " \x7d,\n"

/-- An invocation brings its comma with it. -/
def entryLine (e : E) : String :=
  let comma := match (record e).form with
    | .structLiteral => ","
    | .invocation => ""
  "    " ++ Text.trimmed (record e).raw ++ comma ++ "\n"

def kindName : RegistryKind → String
  | .sensor => "sensor"
  | .application => "application"
  | .unit => "unit"

def render (registry : Registry E) (referenced : List Nat) (ctx : GenerationContext) (fileName : String) : String :=
  let entries := selected registry referenced
  let guardName := headerGuard fileName
  let invocations := entries.any fun e => (record e).form = .invocation
  "// Thin " ++ kindName (kind E) ++ " registry for USE_STATIC_CONFIG builds\n"
    ++ ctx.banner ++ " at " ++ ctx.timestamp.render ++ "\n"
    ++ "// " ++ decimalText entries.length ++ " of " ++ decimalText registry.entries.length
    ++ " entries kept; registry indices are unchanged in the config block.\n\n"
    ++ "#ifndef " ++ guardName ++ "\n#define " ++ guardName ++ "\n\n"
    ++ "// ===== STRING LITERALS =====\n"
    ++ String.join ((usedMacros entries).map (macroLine registry.macros))
    ++ "\n" ++ (if invocations then invocationDefinition ++ "\n" else "")
    ++ "static const PROGMEM " ++ registry.elementType ++ " " ++ registry.arrayName ++ "[] = \x7b\n"
    ++ String.join (entries.map entryLine)
    ++ "\x7d;\n"
    ++ (if invocations then "\n#undef X_SENSOR\n" else "")
    ++ "\n#endif // " ++ guardName ++ "\n"

end FirmwareCatalog.ThinLibrary
