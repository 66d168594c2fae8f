import FirmwareCatalog.Proofs.Removal.Definition
import FirmwareCatalog.Proofs.Removal.Element
import FirmwareCatalog.Proofs.Removal.Listing
import FirmwareCatalog.Proofs.ThinLibrary.Entry

/-!
# Registries around a comment

A registry is read alike with a comment and with a space in its place, but for the
sources of its entries, where the comment is idle: it stands in no definition, no
declaration and no invocation, and it is not one of several in the middle of a value
or before the announcement of an index.
-/

namespace FirmwareCatalog

open Header

/-! ## Readings but for the sources -/

section
variable {E : Type} [CatalogEntry E]

def SameEntry (e e' : E) : Prop :=
  ∃ (record : EntryRecord) (raw : String),
    e = CatalogEntry.ofRecord record ∧ e' = CatalogEntry.ofRecord { record with raw := raw }

structure SameRegistry (registry registry' : Registry E) : Prop where
  entries : List.Forall₂ SameEntry registry.entries registry'.entries
  macros : registry'.macros = registry.macros

/-- Both readings miss the same block, or both succeed. -/
inductive SameReading : Except CompileError (Registry E) → Except CompileError (Registry E) → Prop where
  | missing (path : Path) (block : String) :
      SameReading (.error (.missingBlock path block)) (.error (.missingBlock path block))
  | read {registry registry' : Registry E} (h : SameRegistry registry registry') :
      SameReading (.ok registry) (.ok registry')

theorem SameReading.map_entries {β : Type} {f : E → β}
    (hf : ∀ (record : EntryRecord) (raw : String),
      f (CatalogEntry.ofRecord { record with raw := raw }) = f (CatalogEntry.ofRecord record))
    {reading reading' : Except CompileError (Registry E)} (h : SameReading reading reading') :
    reading'.toOption.map (fun registry => registry.entries.map f) =
      reading.toOption.map fun registry => registry.entries.map f := by
  have hentries {entries entries' : List E} (h : List.Forall₂ SameEntry entries entries') :
      entries'.map f = entries.map f := by
    induction h with
    | nil => rfl
    | cons hentry _ ih =>
      obtain ⟨record, raw, rfl, rfl⟩ := hentry
      rw [List.map_cons, List.map_cons, hf, ih]
  cases h with
  | missing path block => rfl
  | read h => exact congrArg some (hentries h.entries)

theorem SameReading.map_macros {reading reading' : Except CompileError (Registry E)}
    (h : SameReading reading reading') :
    reading'.toOption.map (·.macros) = reading.toOption.map (·.macros) := by
  cases h with
  | missing path block => rfl
  | read h => exact congrArg some h.macros

theorem sameEntry_resolveBlock (symbols : Symbols) (index : Nat) {block block' : RawBlock}
    (h : SameBlock block block') :
    SameEntry (CatalogEntry.ofRecord (symbols.resolveBlock ⟨index, block⟩) : E)
      (CatalogEntry.ofRecord (symbols.resolveBlock ⟨index, block'⟩)) := by
  rw [SameBlock] at h
  rw [h]
  exact ⟨symbols.resolveBlock ⟨index, block⟩, block'.raw, rfl, rfl⟩

/-- An index is announced, or it is the place in the list; the source of a block has no part in it. -/
theorem sameEntries_of_blocks (symbols : Symbols) {blocks blocks' : List RawBlock}
    (h : List.Forall₂ SameBlock blocks blocks') :
    List.Forall₂ SameEntry
      ((assignIndices blocks).map fun b => (CatalogEntry.ofRecord (symbols.resolveBlock b) : E))
      ((assignIndices blocks').map fun b => CatalogEntry.ofRecord (symbols.resolveBlock b)) := by
  rw [assignIndices, assignIndices]
  generalize 0 = n
  induction h generalizing n with
  | nil => exact .nil
  | @cons block block' blocks blocks' hblock _ ih =>
    have hhead : SameEntry
        (CatalogEntry.ofRecord (symbols.resolveBlock ⟨block.announced.getD n, block⟩) : E)
        (CatalogEntry.ofRecord (symbols.resolveBlock ⟨block'.announced.getD n, block'⟩)) := by
      have hannounced : block'.announced = block.announced := by rw [hblock]
      rw [hannounced]
      exact sameEntry_resolveBlock symbols _ hblock
    exact .cons hhead (ih (n + 1))

end

/-! ## Idle comments -/

namespace Header.CommentPlace

variable (place : CommentPlace) (layout : RegistryLayout)

def ReadsArray : Prop := (layout.invocation.bind fun form => invocationBlocks? form place.written) = none

/-- The comment stands in nothing that is read by what it takes and, where the array counts, apart from its
elements. -/
structure Idle : Prop where
  definitions : place.Apart macroDefinition?
  invocations : ∀ form ∈ layout.invocation, place.ApartFromInvocations form
  declaration : place.ReadsArray layout → place.Apart (arrayHead? layout.arrayName.toList)
  elements : place.ReadsArray layout → place.ApartInArray layout.arrayName.toList

variable {place} {kind : RegistryKind} (h : place.Idle (.ofKind kind))
include h

theorem Idle.macros_spaced :
    (RegistryLayout.ofKind kind).macros place.spaced = (RegistryLayout.ofKind kind).macros place.written := by
  rw [RegistryLayout.macros, RegistryLayout.macros, stringMacros_spaced h.definitions]

theorem Idle.blocks?_spaced :
    Option.Rel (List.Forall₂ SameBlock) ((RegistryLayout.ofKind kind).blocks? place.written)
      ((RegistryLayout.ofKind kind).blocks? place.spaced) := by
  obtain ⟨hne, hname⟩ := ThinLibrary.isWord_arrayName kind
  have hlisted : ((RegistryLayout.ofKind kind).invocation.bind fun form => invocationBlocks? form place.spaced) =
      (RegistryLayout.ofKind kind).invocation.bind fun form => invocationBlocks? form place.written := by
    refine Option.bind_congr fun form hform => ?_
    have hname : IsMacroName 'X' form.macroName.toList := by
      rw [ThinLibrary.invocation_eq_sensor hform]
      exact isMacroName_sensor
    exact place.invocationBlocks?_spaced hname (h.invocations form hform)
  rw [RegistryLayout.blocks?, RegistryLayout.blocks?, hlisted]
  cases hblocks : (RegistryLayout.ofKind kind).invocation.bind fun form =>
      invocationBlocks? form place.written with
  | some blocks => exact .some (List.forall₂_refl blocks)
  | none => exact structBlocks?_spaced hne hname (h.declaration hblocks) (h.elements hblocks)

end Header.CommentPlace

/-- One space in place of an idle comment changes no reading. -/
theorem compileRegistry_spaced (E : Type) [CatalogEntry E] (enums : Table Int) (origin : Path)
    {place : CommentPlace} (h : place.Idle (.ofKind (CatalogEntry.kind E))) :
    SameReading
      (compileRegistry E (.ofKind (CatalogEntry.kind E)) enums origin (String.ofList place.written))
      (compileRegistry E (.ofKind (CatalogEntry.kind E)) enums origin (String.ofList place.spaced)) := by
  have hblocks := h.blocks?_spaced
  have hmacros := h.macros_spaced
  generalize RegistryLayout.ofKind (CatalogEntry.kind E) = layout at hblocks hmacros ⊢
  rw [compileRegistry, compileRegistry, RegistryLayout.registry?, RegistryLayout.registry?,
    String.toList_ofList, String.toList_ofList, hmacros]
  cases hwritten : layout.blocks? place.written <;> cases hspaced : layout.blocks? place.spaced <;>
    rw [hwritten, hspaced] at hblocks
  · exact .missing origin layout.arrayName
  · cases hblocks
  · cases hblocks
  · cases hblocks with
    | some hblocks => exact .read ⟨sameEntries_of_blocks _ hblocks, rfl⟩

def besideFields : CommentPlace where
  before := "static const char PSTR_A[] PROGMEM = \"a\";\n".toList ++
    "static const PROGMEM SensorInfo SENSOR_LIBRARY[] = \x7b \x7b .name = PSTR_A,".toList
  comment := ⟨.block, " shown ".toList, by decide⟩
  after := " .label = \"A\" \x7d \x7d;\n".toList
  inCode := by decide +kernel
  ends := fun h => nomatch h
  unannounced := by decide

def readSensors (text : List Char) : Except CompileError (Registry Sensor) :=
  compileRegistry Sensor (.ofKind .sensor) .empty ⟨"sensor_library.h"⟩ (String.ofList text)

theorem compileRegistry_spaced_fields :
    besideFields.Idle (.ofKind .sensor) ∧
      SameReading (readSensors besideFields.written) (readSensors besideFields.spaced) := by
  have hidle : besideFields.Idle (.ofKind .sensor) :=
    { definitions := by decide +kernel
      invocations := fun form hform => by
        rw [ThinLibrary.invocation_eq_sensor hform]
        decide +kernel
      declaration := fun _ => by decide +kernel
      elements := fun _ => CommentPlace.apartInArray_of_untouched (by
        unfold Touches
        decide +kernel) }
  exact ⟨hidle, compileRegistry_spaced Sensor .empty ⟨"sensor_library.h"⟩ hidle⟩

/-! ## Comments that count -/

theorem entries_readSensors {β : Type} (f : Sensor → β) (text : List Char) :
    (readSensors text).toOption.map (fun registry => registry.entries.map f) =
      ((RegistryLayout.ofKind .sensor).blocks? text).map fun blocks => (assignIndices blocks).map fun b =>
        f (Sensor.ofRecord (Symbols.resolveBlock ⟨(RegistryLayout.ofKind .sensor).macros text, .empty⟩ b)) := by
  rw [readSensors, compileRegistry, RegistryLayout.registry?, String.toList_ofList]
  cases (RegistryLayout.ofKind .sensor).blocks? text with
  | none => rfl
  | some blocks => exact congrArg some (List.map_map ..)

theorem macros_readSensors (text : List Char) :
    (readSensors text).toOption.map (·.macros) =
      ((RegistryLayout.ofKind .sensor).blocks? text).map fun _ => (RegistryLayout.ofKind .sensor).macros text := by
  rw [readSensors, compileRegistry, RegistryLayout.registry?, String.toList_ofList]
  cases (RegistryLayout.ofKind .sensor).blocks? text with
  | none => rfl
  | some blocks => rfl

def betweenLiterals : CommentPlace where
  before := "static const char PSTR_A[] PROGMEM = \"a\" ".toList
  comment := ⟨.block, " and ".toList, by decide⟩
  after := " \"b\";\nstatic const PROGMEM SensorInfo SENSOR_LIBRARY[] = \x7b \x7b .name = PSTR_A \x7d \x7d;\n".toList
  inCode := by decide
  ends := fun h => nomatch h
  unannounced := by decide

def beforeArrayName : CommentPlace where
  before := "static const PROGMEM SensorInfo ".toList
  comment := ⟨.block, " all ".toList, by decide⟩
  after := " SENSOR_LIBRARY[] = \x7b \x7b .label = \"A\" \x7d \x7d;\n".toList
  inCode := by decide
  ends := fun h => nomatch h
  unannounced := by decide

def betweenArguments : CommentPlace where
  before := "X_SENSOR(PSTR_A ".toList
  comment := ⟨.block, " name ".toList, by decide⟩
  after := ", 1, 2, 3, 4, 5, 6, 7, 8, 9, 10, 11, 12)\n".toList
  inCode := by decide
  ends := fun h => nomatch h
  unannounced := by decide

def beforeAnnouncement : CommentPlace where
  before := "static const PROGMEM SensorInfo SENSOR_LIBRARY[] = \x7b ".toList
  comment := ⟨.block, " next ".toList, by decide⟩
  after := "/* Index 3: a */ \x7b .label = \"A\" \x7d \x7d;\n".toList
  inCode := by decide
  ends := fun h => nomatch h
  unannounced := by decide

def amidValue : CommentPlace where
  before := "static const PROGMEM SensorInfo SENSOR_LIBRARY[] = \x7b \x7b .label = A".toList
  comment := ⟨.block, [' ', 'a', ' '], by decide⟩
  after := "/* b */B \x7d \x7d;\n".toList
  inCode := by decide
  ends := fun h => nomatch h
  unannounced := by decide

/-- None of these comments can be replaced by a space: each changes what is read. -/
theorem comment_may_count :
    ¬ SameReading (readSensors betweenLiterals.written) (readSensors betweenLiterals.spaced) ∧
    ¬ SameReading (readSensors beforeArrayName.written) (readSensors beforeArrayName.spaced) ∧
    ¬ SameReading (readSensors betweenArguments.written) (readSensors betweenArguments.spaced) ∧
    ¬ SameReading (readSensors beforeAnnouncement.written) (readSensors beforeAnnouncement.spaced) ∧
    ¬ SameReading (readSensors amidValue.written) (readSensors amidValue.spaced) := by
  refine ⟨fun h => ?_, fun h => ?_, fun h => ?_, fun h => ?_, fun h => ?_⟩
  · have hmacros := congrArg (Option.map fun macros => macros.contains "PSTR_A") h.map_macros
    rw [macros_readSensors, macros_readSensors, Option.map_map, Option.map_map] at hmacros
    revert hmacros
    decide +kernel
  · have hcount := h.map_entries (f := fun _ => ()) fun _ _ => rfl
    rw [entries_readSensors, entries_readSensors] at hcount
    revert hcount
    decide +kernel
  · have hcount := h.map_entries (f := fun _ => ()) fun _ _ => rfl
    rw [entries_readSensors, entries_readSensors] at hcount
    revert hcount
    decide +kernel
  · have hindices := h.map_entries (f := CatalogEntry.index) fun _ _ => rfl
    rw [entries_readSensors, entries_readSensors] at hindices
    revert hindices
    decide +kernel
  · have hlabels := h.map_entries (f := Sensor.label) fun _ _ => rfl
    rw [entries_readSensors, entries_readSensors] at hlabels
    revert hlabels
    decide +kernel

end FirmwareCatalog
