import FirmwareCatalog.Header.Invocation
import FirmwareCatalog.Header.StructArray
import FirmwareCatalog.Files
import FirmwareCatalog.Registry.Resolve

/-!
# Layouts

How a registry is declared in its header, and the reading of a registry from the
text of that header.
-/

namespace FirmwareCatalog

structure RegistryLayout where
  arrayName : String
  /-- The element type where the array is not declared. -/
  elementType : String
  /-- String macros that hold where the header does not define them. -/
  defaultMacros : List (String × String)
  /-- The invocations that are looked for before the array. -/
  invocation : Option InvocationForm

def RegistryLayout.sensors : RegistryLayout where
  arrayName := "SENSOR_LIBRARY"
  elementType := "SensorInfo"
  defaultMacros := [("PSTR_NONE", "NONE")]
  invocation := some .sensor

def RegistryLayout.applications : RegistryLayout where
  arrayName := "APPLICATION_PRESETS"
  elementType := "ApplicationPreset"
  defaultMacros := [("PSTR_APP_NONE", "NONE")]
  invocation := none

def RegistryLayout.units : RegistryLayout where
  arrayName := "UNITS_REGISTRY"
  elementType := "UnitsInfo"
  defaultMacros := []
  invocation := none

def RegistryLayout.ofKind : RegistryKind → RegistryLayout
  | .sensor => .sensors
  | .application => .applications
  | .unit => .units

namespace RegistryLayout

/-- The macros of a header, completed by the defaults. -/
def macros (layout : RegistryLayout) (text : List Char) : Table StringMacro :=
  layout.defaultMacros.foldl (fun t d => t.insertNew d.1 ⟨d.2, none⟩) (Header.stringMacros text)

/-- The entries: invocations if there are any, else the elements of the array. -/
def blocks? (layout : RegistryLayout) (text : List Char) : Option (List RawBlock) :=
  (layout.invocation.bind fun form => Header.invocationBlocks? form text).or
    (Header.structBlocks? layout.arrayName.toList text)

/-- The registry of a header; nothing when the header declares no entries. -/
def registry? (E : Type) [CatalogEntry E] (layout : RegistryLayout) (enums : Table Int) (text : String) :
    Option (Registry E) :=
  let cs := text.toList
  let macros := layout.macros cs
  let elementType := match Header.structArray? layout.arrayName.toList cs with
    | some array => String.ofList array.elementType
    | none => layout.elementType
  (layout.blocks? cs).map fun blocks =>
    { entries := (assignIndices blocks).map fun b => CatalogEntry.ofRecord (Symbols.resolveBlock ⟨macros, enums⟩ b)
      macros
      elementType
      arrayName := layout.arrayName }

end RegistryLayout

/-- Why a registry could not be read. -/
inductive CompileError where
  | io (path : Path) (error : FileError)
  | missingBlock (path : Path) (block : String)

def CompileError.message : CompileError → String
  | .io path error => "Failed to read " ++ path.text ++ ": " ++ error.message
  | .missingBlock path block => "Registry block " ++ block ++ " not found in " ++ path.text

/-- Reads a registry from a text; the origin names the text in the error. -/
def compileRegistry (E : Type) [CatalogEntry E] (layout : RegistryLayout) (enums : Table Int) (origin : Path)
    (text : String) : Except CompileError (Registry E) :=
  match layout.registry? E enums text with
  | some registry => .ok registry
  | none => .error (.missingBlock origin layout.arrayName)

end FirmwareCatalog
