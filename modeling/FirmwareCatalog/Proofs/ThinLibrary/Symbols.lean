import FirmwareCatalog.Proofs.Elementwise
import FirmwareCatalog.Proofs.Registry.Resolve
import FirmwareCatalog.Proofs.ThinLibrary.Reading

/-!
# The macros of a thin library

Every macro that an entry uses is defined in the thin library with the value it
had, and no name gets a value that had none.
-/

namespace FirmwareCatalog

open Header ThinLibrary

namespace RegistryLayout

def defaultEntry (d : String × String) : String × StringMacro := (d.1, ⟨d.2, none⟩)

theorem find?_macros (layout : RegistryLayout) (text : List Char) (name : String) :
    (layout.macros text).find? name =
      ((stringMacros text).find? name).or ((layout.defaultMacros.map defaultEntry).lookup name) :=
  Table.find?_foldl_insertNew defaultEntry _ _ _

end RegistryLayout

namespace ThinLibrary

/-! ## Definitions -/

/-- The piece that defines a macro in a thin library, as it is read there. -/
structure IsDefinitionOf (name : String) (m : StringMacro) (piece : List Marked)
    (definition : (List Char × List (List Char)) × List Char) : Prop where
  defines : Defines piece definition.1.1 definition.1.2
  source : plain piece = definition.2
  text : plain piece = (m.definition.getD (definitionOf name m.value)).toList
  key : (macroEntry definition).1 = name
  value : (macroEntry definition).2.value = m.value

theorem exists_isDefinitionOf_builtIn {name value : String} (word : List Char)
    (bodies : List (List Char))
    (hread : macroDefinition? none (definitionOf name value).toList = some ((word, bodies), []))
    (hlines : StringsOnLines (mark (definitionOf name value).toList))
    (hkey : String.ofList word = name)
    (hvalue : String.ofList (joinLiterals bodies) = value) :
    ∃ piece definition, IsDefinitionOf name ⟨value, none⟩ piece definition := by
  have hmark : mark (definitionOf name value).toList = mark (definitionOf name value).toList ++
      [] := (List.append_nil _).symm
  obtain ⟨piece, piece', -, hplain, hdefines⟩ := exists_defines_of_mark (e := '\x7d')
    (by decide) (by decide)
    hread hmark hlines (.inl rfl)
  rw [List.append_nil] at hplain
  exact ⟨piece, ((word, bodies), plain piece), hdefines, rfl, hplain.symm, hkey, hvalue⟩

theorem exists_isDefinitionOf_default {kind : RegistryKind} {name : String} {m : StringMacro}
    (h : (name, m) ∈ (RegistryLayout.ofKind kind).defaultMacros.map RegistryLayout.defaultEntry) :
    ∃ piece definition, IsDefinitionOf name m piece definition := by
  cases kind with
  | sensor =>
    cases List.mem_singleton.mp h
    exact exists_isDefinitionOf_builtIn "PSTR_NONE".toList ["NONE".toList] (by decide +kernel)
      (by decide) rfl rfl
  | application =>
    cases List.mem_singleton.mp h
    exact exists_isDefinitionOf_builtIn "PSTR_APP_NONE".toList ["NONE".toList] (by decide +kernel)
      (by decide) rfl rfl
  | unit => cases h

theorem exists_isDefinitionOf {text : List Char} (hlines : StringsOnLines (mark text))
    {name : String} {m : StringMacro}
    (h : ((RegistryLayout.ofKind kind).macros text).find? name = some m) :
    ∃ piece definition, IsDefinitionOf name m piece definition := by
  rw [RegistryLayout.find?_macros, Option.or_eq_some_iff] at h
  rcases h with h | ⟨-, h⟩
  · rw [stringMacros_eq] at h
    obtain ⟨definition, hdefinition, hentry⟩ := List.mem_map.mp (Table.mem_of_find?_ofList h)
    obtain ⟨piece, hdefines, hplain⟩ := exists_defines_of_mem hlines hdefinition
    refine ⟨piece, definition, hdefines, hplain, ?_, congrArg Prod.fst hentry,
      congrArg (·.2.value) hentry⟩
    obtain rfl : (macroEntry definition).2 = m := congrArg Prod.snd hentry
    rw [hplain]
    exact String.toList_ofList.symm
  · exact exists_isDefinitionOf_default (mem_of_lookup_eq_some h)

/-! ## Values -/

def symbolsOf (kind : RegistryKind) (enums : Table Int) (text : List Char) : Symbols :=
  ⟨(RegistryLayout.ofKind kind).macros text, enums⟩

section
variable {kind : RegistryKind} {enums : Table Int} {text : List Char}

theorem value?_symbolsOf (name : String) : (symbolsOf kind enums text).value? name =
    (((stringMacros text).find? name).map (·.value)).or
      ((((RegistryLayout.ofKind kind).defaultMacros.map RegistryLayout.defaultEntry).lookup
        name).map (·.value)) := by
  rw [Symbols.value?, symbolsOf, RegistryLayout.find?_macros, Option.map_or]

structure Define (symbols : Symbols) (names : List String) (pieces : List (List Marked))
    (definitions : List ((List Char × List (List Char)) × List Char)) : Prop where
  defines : List.Forall₂ (fun piece d => Defines piece d.1.1 d.1.2 ∧ plain piece =
    d.2) pieces definitions
  lines : List.Forall₂ (fun piece name => plain (piece ++ [('\n', .code)]) =
    (macroLine symbols.macros name).toList) pieces names
  keys : definitions.map (fun d => (macroEntry d).1) = names
  values : ∀ d ∈ definitions, some (macroEntry d).2.value = symbols.value? (macroEntry d).1

theorem exists_define (hlines : StringsOnLines (mark text)) {names : List String}
    (hnames : ∀ name ∈ names, ((symbolsOf kind enums text).value? name).isSome = true) :
    ∃ pieces definitions, Define (symbolsOf kind enums text) names pieces definitions := by
  induction names with
  | nil => exact ⟨[], [], .nil, .nil, rfl, fun d hd => nomatch hd⟩
  | cons name names ih =>
    obtain ⟨hname, hnames⟩ := List.forall_mem_cons.mp hnames
    obtain ⟨pieces, definitions, hdefine⟩ := ih hnames
    rw [Symbols.value?, Option.isSome_map] at hname
    obtain ⟨m, hm⟩ := Option.isSome_iff_exists.mp hname
    obtain ⟨piece, definition, h⟩ := exists_isDefinitionOf hlines hm
    refine ⟨piece :: pieces, definition :: definitions, .cons ⟨h.defines, h.source⟩ hdefine.defines,
      .cons ?_ hdefine.lines,
      by rw [List.map_cons, h.key, hdefine.keys], List.forall_mem_cons.mpr ⟨?_, hdefine.values⟩⟩
    · rw [macroLine, hm, plain_append, h.text, String.toList_append]
      rfl
    · rw [h.key, h.value, Symbols.value?, hm]
      rfl

theorem Define.exists_defines {symbols : Symbols} {names : List String} {pieces : List (List Marked)}
    {definitions : List ((List Char × List (List Char)) × List Char)}
    (hdefine : Define symbols names pieces definitions) :
    ∀ piece ∈ pieces, ∃ name bodies, Defines piece name bodies := by
  intro piece hpiece
  obtain ⟨d, -, hd, -⟩ := exists_mem_of_forall₂ hdefine.defines piece hpiece
  exact ⟨_, _, hd⟩

theorem Define.value?_stringMacros {names : List String} {pieces : List (List Marked)}
    {definitions : List ((List Char × List (List Char)) × List Char)}
    (hdefine : Define (symbolsOf kind enums text) names pieces definitions)
    {thin : List Char} (hthin : definitionsAlong none (mark thin) = definitions) (name : String) :
    ((stringMacros thin).find? name).map (·.value) =
      if name ∈ names then (symbolsOf kind enums text).value? name else none := by
  have hvalues : ∀ e ∈ definitions.map macroEntry, some e.2.value =
      (symbolsOf kind enums text).value? e.1 := by
    intro e he
    obtain ⟨d, hd, rfl⟩ := List.mem_map.mp he
    exact hdefine.values d hd
  have hkeys : (definitions.map macroEntry).map (·.1) = names := by
    rw [List.map_map]
    exact hdefine.keys
  rw [stringMacros_eq, hthin, Table.map_find?_ofList hvalues, hkeys]

/-- A thin library gives a name the value it had, if it defines the name or the name had none. -/
theorem value?_thin {names : List String} {pieces : List (List Marked)}
    {definitions : List ((List Char × List (List Char)) × List Char)}
    (hdefine : Define (symbolsOf kind enums text) names pieces definitions)
    {thin : List Char} (hthin : definitionsAlong none (mark thin) = definitions) {name : String}
    (hname : name ∈ names ∨ (symbolsOf kind enums text).value? name = none) :
    (symbolsOf kind enums thin).value? name = (symbolsOf kind enums text).value? name := by
  rw [@value?_symbolsOf kind enums thin, hdefine.value?_stringMacros hthin]
  by_cases hmem : name ∈ names
  · obtain ⟨d, hd, rfl⟩ := List.mem_map.mp (hdefine.keys ▸ hmem)
    rw [if_pos hmem, ← hdefine.values d hd]
    rfl
  · have hnone := hname.resolve_left hmem
    rw [if_neg hmem, hnone]
    rw [value?_symbolsOf, Option.or_eq_none_iff] at hnone
    rw [hnone.2]
    rfl

end

end ThinLibrary

end FirmwareCatalog
