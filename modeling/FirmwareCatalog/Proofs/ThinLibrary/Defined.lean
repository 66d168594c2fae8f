import FirmwareCatalog.Proofs.ThinLibrary.Recompile

/-!
# What a thin library defines

Ahead of its array a thin library defines the macros that are the whole text of
a field of a selected entry, and no others. The source of an entry goes in as it
stands, so a name inside a longer text is named there without a definition.
-/

namespace FirmwareCatalog

open Character Header CatalogEntry

/-! ## One form -/

namespace Header

theorem form_of_mem_invocationBlocks? {form : InvocationForm} {text : List Char}
    {blocks : List RawBlock} (h : invocationBlocks? form text = some blocks) :
    ∀ block ∈ blocks, block.form = .invocation := by
  intro block hblock
  unfold invocationBlocks? at h
  simp only at h
  split at h
  · cases h
  · cases h
    obtain ⟨m, -, hm⟩ := List.mem_filterMap.mp hblock
    split at hm
    · obtain ⟨⟨inner, rest⟩, -, hinner⟩ := Option.bind_eq_some_iff.mp hm
      exact (invocationBlock?_eq_some hinner).2.2
    · cases hm

end Header

namespace ThinLibrary

theorem exists_form {kind : RegistryKind} {text : List Char} {blocks : List RawBlock}
    (h : (RegistryLayout.ofKind kind).blocks? text = some blocks) :
    ∃ form, ∀ block ∈ blocks, block.form = form := by
  rw [RegistryLayout.blocks?, Option.or_eq_some_iff] at h
  rcases h with h | ⟨-, h⟩
  · obtain ⟨form, -, h⟩ := Option.bind_eq_some_iff.mp h
    exact ⟨.invocation, form_of_mem_invocationBlocks? h⟩
  · obtain ⟨array, -, rfl⟩ := Option.map_eq_some_iff.mp h
    exact ⟨.structLiteral, fun block => form_of_mem_blocksFrom _ _⟩

theorem form_eq_ite_any {E : Type} [CatalogEntry E] {entries : List E} {form : EntryForm}
    (h : ∀ e ∈ entries, (record e).form = form) :
    ∀ e ∈ entries, (record e).form =
      if (entries.any fun e => (record e).form = .invocation) then .invocation else .structLiteral := by
  intro e he
  cases form with
  | invocation =>
    have hany : (entries.any fun e => (record e).form = .invocation) = true :=
      List.any_eq_true.mpr ⟨e, he, decide_eq_true (h e he)⟩
    rw [hany]
    exact h e he
  | structLiteral =>
    have hnone : (entries.any fun e => (record e).form = .invocation) = false := by
      refine List.any_eq_false.mpr fun e he => ?_
      rw [decide_eq_true_eq, h e he]
      exact EntryForm.noConfusion
    rw [hnone]
    exact h e he

/-! ## Ahead of the array -/

section
variable {E : Type} [CatalogEntry E] [LawfulCatalogEntry E] {enums : Table Int} {text : String}
  {registry : Registry E} {blocks : List RawBlock} {referenced : List Nat}

omit [LawfulCatalogEntry E] in
theorem exists_ending (ctx : GenerationContext) (fileName : String) {macros : List (List Marked)}
    {form : EntryForm} (hform : ∀ e ∈ selected registry referenced, (record e).form = form)
    (hmacros : List.Forall₂ (fun piece name => plain (piece ++ [('\n', .code)]) =
      (macroLine registry.macros name).toList) macros (usedMacros (selected registry referenced))) :
    ∃ ending, (render registry referenced ctx fileName).toList =
      plain (sheetOf registry referenced ctx fileName macros []).front ++
        (declaration registry.elementType.toList registry.arrayName.toList ++
          ('\n' :: (String.join ((selected registry referenced).map entryLine)).toList ++ ending)) := by
  let sources := (selected registry referenced).map fun e =>
    inZone .code (Text.trim (record e).raw.toList)
  let sheet := sheetOf registry referenced ctx fileName macros sources
  have hentries : List.Forall₂ (fun piece e => plain (sheet.entryLine piece) = (entryLine e).toList)
      sources (selected registry referenced) :=
    List.forall₂_map_left_iff.mpr (List.forall₂_same.mpr fun e he =>
      plain_entryLine (plain_inZone _ _) (form_eq_ite_any hform e he))
  have hbody : plain sheet.body =
      '\n' :: (String.join ((selected registry referenced).map entryLine)).toList := by
    rw [String.toList_join, flatMap_toList_map hentries, Sheet.body, plain_append, plain_inZone]
    rfl
  refine ⟨'\x7d' :: plain sheet.ending, ?_⟩
  rw [toList_render registry referenced ctx fileName hmacros hentries, ← hbody]
  show plain sheet.marked = _
  rw [Sheet.marked, plain_append, plain_append, plain_append, plain_inZone, plain_cons]
  rfl

/-- Ahead of its array, a thin library gives values to the fields of kept entries and to nothing else. -/
theorem macros_ahead_of_array
    (hregistry : RegistryLayout.registry? E (RegistryLayout.ofKind (kind E)) enums text =
      some registry)
    (hlines : StringsOnLines (mark text.toList)) {ctx : GenerationContext}
    (hversion : '\n' ∉ ctx.toolVersion.toList ∧ '"' ∉ ctx.toolVersion.toList)
    (hplatform : '\n' ∉ ctx.platform.toList ∧ '"' ∉ ctx.platform.toList) (referenced : List Nat)
    (fileName : String) :
    ∃ blocks front ending, (RegistryLayout.ofKind (kind E)).blocks? text.toList = some blocks ∧
      (render registry referenced ctx fileName).toList =
        front ++ (declaration registry.elementType.toList registry.arrayName.toList ++
          ('\n' :: (String.join ((selected registry referenced).map entryLine)).toList ++ ending)) ∧
      ∀ name value, ((stringMacros front).find? name).map (·.value) = some value ↔
        (registry.macros.find? name).map (·.value) = some value ∧
          ∃ b ∈ keptBlocks blocks referenced, ∃ f ∈ b.block.fields, Text.trimmed f.2 = name := by
  obtain ⟨blocks, hblocks, -⟩ := Option.map_eq_some_iff.mp hregistry
  obtain ⟨hmacros, -, hentries⟩ := registry?_parts hregistry hblocks
  have hselected := selected_eq hentries referenced
  obtain ⟨macros, definitions, hdefine⟩ :=
    exists_define hlines (isSome_value?_of_mem_usedMacros hselected)
  obtain ⟨form, hform⟩ := exists_form hblocks
  have hforms : ∀ e ∈ selected registry referenced, (record e).form = form := by
    rw [hselected]
    intro e he
    obtain ⟨b, hb, rfl⟩ := List.mem_map.mp he
    rw [LawfulCatalogEntry.record_ofRecord]
    exact hform b.block (mem_of_mem_keptBlocks hb)
  obtain ⟨ending, htext⟩ := exists_ending ctx fileName hforms
    (by rw [hmacros]; exact hdefine.lines)
  -- What stands ahead of the array does not hang on the entries: the sheet without any is read.
  have hfits : (sheetOf registry referenced ctx fileName macros []).Fits :=
    fits_sheetOf hregistry hversion hplatform referenced fileName hdefine.exists_defines
      fun _ hpiece => nomatch hpiece
  have hfront : definitionsAlong none
      (mark (plain (sheetOf registry referenced ctx fileName macros []).front)) = definitions := by
    rw [hfits.closed_front.mark_plain]
    exact hfits.definitionsAlong_front hdefine.defines
  refine ⟨blocks, _, ending, hblocks, htext, fun name value => ?_⟩
  have hvalue : (registry.macros.find? name).map (·.value) =
      (symbolsOf (kind E) enums text.toList).value? name := by
    rw [hmacros]
    rfl
  rw [hdefine.value?_stringMacros hfront, hvalue]
  have hused := @mem_usedMacros_selected _ _ _ _ _ _ _ hselected name
  constructor
  · intro hsome
    split at hsome
    · rename_i hmem
      exact ⟨hsome, (hused.mp hmem).1⟩
    · cases hsome
  · rintro ⟨hsome, hfield⟩
    rw [if_pos (hused.mpr ⟨hfield, Option.isSome_of_eq_some hsome⟩)]
    exact hsome

end

def commentedHeader : String :=
  "static const char PSTR_A[] PROGMEM=\"a\";\nstatic const char PSTR_B[] PROGMEM=\"b\";\n" ++
    "X_SENSOR(PSTR_A,PSTR_B/* label */,2,3,4,5,6,7,8,9,10,11,12)"

def commentedBlock : RawBlock where
  announced := none
  raw := "X_SENSOR(PSTR_A,PSTR_B/* label */,2,3,4,5,6,7,8,9,10,11,12)"
  fields := InvocationForm.sensor.params.zip
    ["PSTR_A", "PSTR_B/* label */", "2", "3", "4", "5", "6", "7", "8", "9", "10", "11", "12"]
  form := .invocation

theorem readsAs_commentedHeader : StringsOnLines (mark commentedHeader.toList) ∧
    (RegistryLayout.ofKind .sensor).blocks? commentedHeader.toList = some [commentedBlock] ∧
    (((RegistryLayout.ofKind .sensor).macros commentedHeader.toList).find? "PSTR_A").map (·.value) =
      some "a" ∧
    (((RegistryLayout.ofKind .sensor).macros commentedHeader.toList).find? "PSTR_B").isSome = true := by
  unfold commentedHeader
  rw [String.toList_append, String.toList_ofList, String.toList_ofList]
  decide +kernel

theorem isPlain_plainContext :
    ('\n' ∉ plainContext.toolVersion.toList ∧ '"' ∉ plainContext.toolVersion.toList) ∧
      '\n' ∉ plainContext.platform.toList ∧ '"' ∉ plainContext.platform.toList := by
  decide +kernel

theorem macros_ahead_of_array_name :
    ∃ registry : Registry Sensor,
      RegistryLayout.registry? Sensor (RegistryLayout.ofKind .sensor) .empty commentedHeader =
        some registry ∧
      ∃ front behind, (render registry [0] plainContext "s.h").toList = front ++ behind ∧
        ((stringMacros front).find? "PSTR_A").map (·.value) = some "a" := by
  obtain ⟨hlines, hread, hvalue, -⟩ := readsAs_commentedHeader
  obtain ⟨registry, hregistry, hmacros, -⟩ := exists_registry? Sensor .empty hread
  have hplain := isPlain_plainContext
  obtain ⟨blocks, front, ending, hblocks, htext, hfront⟩ :=
    macros_ahead_of_array hregistry hlines hplain.1 hplain.2 [0] "s.h"
  obtain rfl : [commentedBlock] = blocks := Option.some.inj (hread.symm.trans hblocks)
  refine ⟨registry, hregistry, front, _, htext, (hfront "PSTR_A" "a").mpr ⟨?_, ?_⟩⟩
  · rw [hmacros]
    exact hvalue
  · have hkept : keptBlocks [commentedBlock] [0] = [⟨0, commentedBlock⟩] := rfl
    rw [hkept]
    exact ⟨_, List.mem_singleton_self _, ("name", "PSTR_A"), by decide +kernel, by decide +kernel⟩

/-! ## Names without a definition -/

/-- A name that stands in code as a word of its own. -/
def NamedInCode (name text : List Char) : Prop :=
  ∃ before behind, text = before ++ (name ++ behind) ∧
    zoneAt? (mark text) before.length = some .code ∧
    before.getLast?.any isWord = false ∧ behind.head?.any isWord = false

section
variable {E : Type} [CatalogEntry E] [LawfulCatalogEntry E] {enums : Table Int} {text : String}
  {registry : Registry E} {blocks : List RawBlock} {referenced : List Nat}

theorem find?_stringMacros_eq_none
    (hregistry : RegistryLayout.registry? E (RegistryLayout.ofKind (kind E)) enums text =
      some registry)
    (hblocks : (RegistryLayout.ofKind (kind E)).blocks? text.toList = some blocks)
    (hlines : StringsOnLines (mark text.toList)) {ctx : GenerationContext}
    (hversion : '\n' ∉ ctx.toolVersion.toList ∧ '"' ∉ ctx.toolVersion.toList)
    (hplatform : '\n' ∉ ctx.platform.toList ∧ '"' ∉ ctx.platform.toList) (fileName : String)
    (hself : ∀ e ∈ selected registry referenced,
      SelfContained (RegistryLayout.ofKind (kind E)) (record e).form (record e).raw.toList)
    {name : String}
    (hname : ∀ b ∈ keptBlocks blocks referenced, ∀ f ∈ b.block.fields, Text.trimmed f.2 ≠ name) :
    (stringMacros (render registry referenced ctx fileName).toList).find? name = none := by
  obtain ⟨-, -, hentries⟩ := registry?_parts hregistry hblocks
  obtain ⟨s, definitions, hfits, htext, -, hdefine, hpieces, -⟩ :=
    exists_sheet hregistry hblocks hlines hversion hplatform fileName hself
  have hdefinitions := definitionsAlong_of_entries hfits hdefine hpieces
  have hunused : name ∉ usedMacros (selected registry referenced) := by
    intro hmem
    obtain ⟨⟨b, hb, f, hf, heq⟩, -⟩ := (mem_usedMacros_selected (selected_eq hentries referenced)).mp hmem
    exact hname b hb f hf heq
  have hnone := hdefine.value?_stringMacros hdefinitions name
  rw [if_neg hunused, Option.map_eq_none_iff] at hnone
  rw [htext]
  exact hnone

end

/-- A registry whose thin library names a macro of the registry and does not define it. -/
structure LeavesUndefined {E : Type} [CatalogEntry E] (text name : String) (registry : Registry E) : Prop where
  read : RegistryLayout.registry? E (RegistryLayout.ofKind (kind E)) .empty text = some registry
  known : (registry.macros.find? name).isSome = true
  named : ∃ e ∈ selected registry [0], NamedInCode name.toList (record e).raw.toList
  undefined : (stringMacros (render registry [0] plainContext "thin.h").toList).find? name = none

theorem exists_leavesUndefined {E : Type} [CatalogEntry E] [LawfulCatalogEntry E] {text name : String}
    {block : RawBlock} (hlines : StringsOnLines (mark text.toList))
    (hblocks : (RegistryLayout.ofKind (kind E)).blocks? text.toList = some [block])
    (hkept : keptBlocks [block] [0] = [⟨0, block⟩])
    (hself : SelfContained (RegistryLayout.ofKind (kind E)) block.form block.raw.toList)
    (hknown : (((RegistryLayout.ofKind (kind E)).macros text.toList).find? name).isSome = true)
    (hnamed : NamedInCode name.toList block.raw.toList)
    (hname : ∀ f ∈ block.fields, Text.trimmed f.2 ≠ name) :
    ∃ registry : Registry E, LeavesUndefined text name registry := by
  obtain ⟨registry, hregistry, hmacros, -, hentries⟩ := exists_registry? E .empty hblocks
  have hselected := selected_eq hentries [0]
  rw [hkept, List.map_singleton] at hselected
  have hplain := isPlain_plainContext
  refine ⟨registry, hregistry, ?_, ?_, ?_⟩
  · rw [hmacros]
    exact hknown
  · refine ⟨_, by rw [hselected]; exact List.mem_singleton_self _, ?_⟩
    rw [LawfulCatalogEntry.record_ofRecord]
    exact hnamed
  · refine find?_stringMacros_eq_none hregistry hblocks hlines hplain.1 hplain.2 "thin.h" ?_ ?_
    · intro e he
      rw [hselected, List.mem_singleton] at he
      rw [he, LawfulCatalogEntry.record_ofRecord]
      exact hself
    · rw [hkept]
      intro b hb
      rw [List.mem_singleton.mp hb]
      exact hname

def parenthesizedHeader : String :=
  "static const char PSTR_B[] PROGMEM=\"b\";\n" ++
    "static const T APPLICATION_PRESETS[] = \x7b\x7b.name=\"A\",.label=(PSTR_B)\x7d\x7d;"

def parenthesizedBlock : RawBlock where
  announced := none
  raw := "\x7b.name=\"A\",.label=(PSTR_B)\x7d"
  fields := [("name", "\"A\""), ("label", "(PSTR_B)")]
  form := .structLiteral

/-- A comment behind an argument and parentheses around a field each leave a macro undefined. -/
theorem named_macro_may_be_undefined :
    (∃ registry : Registry Sensor, LeavesUndefined commentedHeader "PSTR_B" registry) ∧
    ∃ registry : Registry Application, LeavesUndefined parenthesizedHeader "PSTR_B" registry := by
  constructor
  · obtain ⟨hlines, hread, -, hknown⟩ := readsAs_commentedHeader
    refine exists_leavesUndefined hlines hread rfl ?_ hknown ?_ (by decide +kernel)
    · refine ⟨definesNoMacro_of_first (by decide +kernel), (fun _ _ hform => nomatch hform),
        fun form hform _ => ?_⟩
      obtain rfl := invocation_eq_sensor hform
      decide +kernel
    · refine ⟨"X_SENSOR(PSTR_A,".toList, "/* label */,2,3,4,5,6,7,8,9,10,11,12)".toList, ?_⟩
      unfold commentedBlock
      repeat rw [String.toList_ofList]
      decide +kernel
  · have hheader : StringsOnLines (mark parenthesizedHeader.toList) ∧
        (RegistryLayout.ofKind .application).blocks? parenthesizedHeader.toList =
          some [parenthesizedBlock] ∧
        (((RegistryLayout.ofKind .application).macros parenthesizedHeader.toList).find?
          "PSTR_B").isSome = true := by
      unfold parenthesizedHeader
      rw [String.toList_append, String.toList_ofList, String.toList_ofList]
      decide +kernel
    refine exists_leavesUndefined hheader.1 hheader.2.1 rfl ?_ hheader.2.2 ?_
      (by decide +kernel)
    · exact ⟨definesNoMacro_of_first (by decide +kernel), (fun _ hform => nomatch hform),
        fun _ hform => nomatch hform⟩
    · refine ⟨"\x7b.name=\"A\",.label=(".toList, ")\x7d".toList, ?_⟩
      unfold parenthesizedBlock
      repeat rw [String.toList_ofList]
      decide +kernel

end ThinLibrary

end FirmwareCatalog
