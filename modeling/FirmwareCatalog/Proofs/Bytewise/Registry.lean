import FirmwareCatalog.Proofs.Bytewise.Declaration
import FirmwareCatalog.Registry.Layout

/-!
# Headers by byte offsets

Nothing that reads a header by byte offsets faults, whatever the header holds:
each reading answers what the reading by characters answers.
-/

namespace FirmwareCatalog.Bytewise

open Header

/-! ## Fields -/

def readLiteral (text : String) : Checked FieldValue :=
  if text = "nullptr" || text = "NULL" then return .null
  else if text = "true" then return .bool true
  else if text = "false" then return .bool false
  else match readNumber? text.toList with
    | some value => return value
    | none => do
      match ← stringValue? text.toList with
      | some value => return .string (String.ofList value)
      | none => return .raw text

theorem readLiteral_eq (text : String) : readLiteral text = .ok (FirmwareCatalog.readLiteral text) := by
  unfold readLiteral FirmwareCatalog.readLiteral
  rw [stringValue?_eq]
  split
  · rfl
  · split
    · rfl
    · split
      · rfl
      · cases readNumber? text.toList with
        | some value => rfl
        | none => cases Header.stringValue? text.toList <;> rfl

section

variable (symbols : Symbols)

def resolve (text : String) : Checked FieldValue :=
  let text := Text.trimmed text
  match symbols.macros.find? text with
  | some m => return .string m.value
  | none => match symbols.enums.find? text with
    | some value => return .int value
    | none => readLiteral text

theorem resolve_eq (text : String) : resolve symbols text = .ok (symbols.resolve text) := by
  unfold resolve Symbols.resolve Symbols.resolveTrimmed
  simp only
  cases symbols.macros.find? (Text.trimmed text) with
  | some m => rfl
  | none =>
    cases symbols.enums.find? (Text.trimmed text) with
    | some value => rfl
    | none => exact readLiteral_eq _

def resolveBlock (indexed : IndexedBlock) : Checked EntryRecord := do
  let values ← indexed.block.fields.mapM fun f => do
    let value ← resolve symbols f.2
    return (f.1, value)
  let fields := Table.ofList values
  return { index := indexed.index
           fields
           usedMacros := symbols.usedMacros indexed.block.fields
           raw := indexed.block.raw
           form := indexed.block.form
           implemented := Symbols.isImplemented fields }

theorem resolveBlock_eq (indexed : IndexedBlock) :
    resolveBlock symbols indexed = .ok (symbols.resolveBlock indexed) := by
  have hvalues : ∀ f ∈ indexed.block.fields, (do
      let value ← resolve symbols f.2
      return (f.1, value) : Checked (String × FieldValue)) = .ok (f.1, symbols.resolve f.2) := by
    intro f _
    rw [resolve_eq]
    rfl
  rw [resolveBlock, mapM_ok hvalues]
  rfl

end

/-! ## Registries -/

/-- The name of the macro is a word, and there are fields to fill. -/
structure IsNamedForm (form : InvocationForm) : Prop where
  macroName : ∀ c ∈ form.macroName.toList, Character.isWord c = true
  params : form.params ≠ []

structure IsNamed (layout : RegistryLayout) : Prop where
  array : ∀ c ∈ layout.arrayName.toList, Character.isWord c = true
  invocation : ∀ form ∈ layout.invocation, IsNamedForm form

section

variable (layout : RegistryLayout)

def macros (text : List Char) : Checked (Table StringMacro) := do
  let found ← stringMacros text
  return layout.defaultMacros.foldl (fun t d => t.insertNew d.1 ⟨d.2, none⟩) found

def blocks? (text : List Char) : Checked (Option (List RawBlock)) := do
  let invocations ← match layout.invocation with
    | some form => invocationBlocks? form text
    | none => pure none
  match invocations with
  | some blocks => return some blocks
  | none => structBlocks? layout.arrayName.toList text

def compileRegistry (E : Type) [CatalogEntry E] (enums : Table Int) (origin : Path) (text : String) :
    Checked (Except CompileError (Registry E)) := do
  let macros ← macros layout text.toList
  let array ← structArray? layout.arrayName.toList text.toList
  match ← blocks? layout text.toList with
  | none => return .error (.missingBlock origin layout.arrayName)
  | some blocks =>
    let records ← (assignIndices blocks).mapM (resolveBlock ⟨macros, enums⟩)
    return .ok
      { entries := records.map CatalogEntry.ofRecord
        macros
        elementType := match array with
          | some array => String.ofList array.elementType
          | none => layout.elementType
        arrayName := layout.arrayName }

variable {layout} (h : IsNamed layout)
include h

theorem blocks?_eq (text : List Char) : blocks? layout text = .ok (layout.blocks? text) := by
  rw [blocks?, RegistryLayout.blocks?, structBlocks?_eq h.array]
  cases hform : layout.invocation with
  | none => rfl
  | some form =>
    have hblocks := invocationBlocks?_eq (h.invocation form hform).macroName (h.invocation form hform).params text
    simp only [hblocks, ok_bind, Option.bind_some]
    cases Header.invocationBlocks? form text <;> rfl

theorem compileRegistry_eq (E : Type) [CatalogEntry E] (enums : Table Int) (origin : Path) (text : String) :
    compileRegistry layout E enums origin text = .ok (FirmwareCatalog.compileRegistry E layout enums origin text) := by
  have hmacros : macros layout text.toList = .ok (layout.macros text.toList) := by
    rw [macros, stringMacros_eq]
    rfl
  rw [compileRegistry, hmacros, ok_bind, structArray?_eq h.array, ok_bind, blocks?_eq h, ok_bind,
    FirmwareCatalog.compileRegistry, RegistryLayout.registry?]
  cases layout.blocks? text.toList with
  | none => rfl
  | some blocks =>
    simp only
    rw [mapM_ok fun b _ => resolveBlock_eq _ b, ok_bind, List.map_map]
    rfl

end

/-! ## No fault -/

theorem isNamedForm_sensor : IsNamedForm .sensor where
  macroName := List.all_eq_true.mp (by decide : InvocationForm.sensor.macroName.toList.all Character.isWord = true)
  params := by decide

theorem isNamed_sensors : IsNamed .sensors where
  array := List.all_eq_true.mp (by decide : RegistryLayout.sensors.arrayName.toList.all Character.isWord = true)
  invocation := fun _ h => Option.mem_some_iff.mp h ▸ isNamedForm_sensor

/-- No header stops what reads it: there is one class for each byte of a text, and whatever the text and the
names are, each reading by byte offsets answers what the reading by characters does. -/
theorem readings_never_fault (text : List Char) {arrayName : List Char}
    (harray : ∀ c ∈ arrayName, Character.isWord c = true) {form : InvocationForm} (hform : IsNamedForm form)
    {layout : RegistryLayout} (hlayout : IsNamed layout) (E : Type) [CatalogEntry E] (enums : Table Int)
    (origin : Path) : (classes text).length = width text ∧
      stringMacros text = .ok (Header.stringMacros text) ∧
      structArray? arrayName text = .ok (Header.structArray? arrayName text) ∧
      structBlocks? arrayName text = .ok (Header.structBlocks? arrayName text) ∧
      invocationBlocks? form text = .ok (Header.invocationBlocks? form text) ∧
      decodeLiteral text = .ok (Header.decodeLiteral text) ∧
      stringValue? text = .ok (Header.stringValue? text) ∧
      enumConstants text = .ok (Header.enumConstants text) ∧
      compileRegistry layout E enums origin (String.ofList text) =
        .ok (FirmwareCatalog.compileRegistry E layout enums origin (String.ofList text)) :=
  ⟨length_classes text, stringMacros_eq text, structArray?_eq harray text, structBlocks?_eq harray text,
    invocationBlocks?_eq hform.macroName hform.params text, decodeLiteral_eq text, stringValue?_eq text,
    enumConstants_eq text, compileRegistry_eq hlayout E enums origin _⟩

/-- A body with a character of two bytes, and behind it a string that is not closed. -/
theorem readings_never_fault_umlaut :
    (∀ c ∈ ['A'], Character.isWord c = true) ∧ IsNamedForm .sensor ∧ IsNamed .sensors ∧
      structArray? ['A'] "static const T A[] = \x7b/* ä */\x7d \"ä".toList =
        .ok (some ⟨['T'], "/* ä */".toList⟩) := by
  have harray : ∀ c ∈ ['A'], Character.isWord c = true := by decide
  have h := readings_never_fault "static const T A[] = \x7b/* ä */\x7d \"ä".toList harray isNamedForm_sensor
    isNamed_sensors Sensor .empty ⟨""⟩
  refine ⟨harray, isNamedForm_sensor, isNamed_sensors, ?_⟩
  rw [h.2.2.1]
  rfl

end FirmwareCatalog.Bytewise
