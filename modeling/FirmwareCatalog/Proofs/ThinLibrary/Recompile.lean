import FirmwareCatalog.Proofs.ThinLibrary.Entry
import FirmwareCatalog.Proofs.ThinLibrary.Render

/-!
# Thin libraries read back

A thin library lists the selected entries and nothing else. Their records are
those of the catalog but for the index, which counts anew where no comment
announces it.
-/

namespace FirmwareCatalog

open Character Header CatalogEntry

/-- Entries that keep their record. -/
class LawfulCatalogEntry (E : Type) [CatalogEntry E] : Prop where
  record_ofRecord : ∀ r : EntryRecord, record (ofRecord r : E) = r

instance : LawfulCatalogEntry Sensor := ⟨fun _ => rfl⟩

instance : LawfulCatalogEntry Application := ⟨fun _ => rfl⟩

instance : LawfulCatalogEntry DisplayUnit := ⟨fun _ => rfl⟩

namespace ThinLibrary

/-- The blocks of the referenced entries, and that of the placeholder at index 0. -/
def keptBlocks (blocks : List RawBlock) (referenced : List Nat) : List IndexedBlock :=
  (assignIndices blocks).filter fun b => b.index = 0 || referenced.contains b.index

variable {E : Type} [CatalogEntry E] [LawfulCatalogEntry E]

/-! ## The selection -/

theorem selected_eq {blocks : List RawBlock} {symbols : Symbols} {registry : Registry E}
    (hentries : registry.entries =
      (assignIndices blocks).map fun b => ofRecord (symbols.resolveBlock b)) (referenced : List Nat) :
    selected registry referenced =
      (keptBlocks blocks referenced).map fun b => ofRecord (symbols.resolveBlock b) := by
  rw [selected, hentries, List.filter_map, keptBlocks]
  refine congrArg _ (List.filter_congr fun b _ => ?_)
  simp only [Function.comp_apply, index, LawfulCatalogEntry.record_ofRecord]
  rfl

omit [LawfulCatalogEntry E] in
theorem mem_usedMacros {entries : List E} {name : String} :
    name ∈ usedMacros entries ↔ ∃ e ∈ entries, name ∈ (record e).usedMacros := by
  rw [usedMacros, Symbols.mem_foldl_addName, List.mem_flatMap]
  simp

theorem mem_of_mem_keptBlocks {blocks : List RawBlock} {referenced : List Nat} {b : IndexedBlock}
    (h : b ∈ keptBlocks blocks referenced) : b.block ∈ blocks := by
  obtain ⟨⟨block, position⟩, hmem, rfl⟩ := List.mem_map.mp (List.mem_filter.mp h).1
  exact List.fst_mem_of_mem_zipIdx hmem

theorem assignIndices_map (kept : List IndexedBlock) :
    assignIndices (kept.map (·.block)) =
      kept.zipIdx.map fun (b, position) => ⟨b.block.announced.getD position, b.block⟩ := by
  rw [assignIndices, List.zipIdx_map, List.map_map]
  rfl

/-! ## The sheet of a selection -/

variable (E) in
omit [LawfulCatalogEntry E] in
theorem exists_registry? (enums : Table Int) {text : String} {blocks : List RawBlock}
    (hblocks : (RegistryLayout.ofKind (kind E)).blocks? text.toList = some blocks) :
    ∃ registry,
      RegistryLayout.registry? E (RegistryLayout.ofKind (kind E)) enums text = some registry ∧
      registry.macros = (RegistryLayout.ofKind (kind E)).macros text.toList ∧
        registry.arrayName = (RegistryLayout.ofKind (kind E)).arrayName ∧
          registry.entries = (assignIndices blocks).map fun b =>
            ofRecord ((symbolsOf (kind E) enums text.toList).resolveBlock b) := by
  unfold RegistryLayout.registry?
  simp only [hblocks, Option.map_some]
  exact ⟨_, rfl, rfl, rfl, rfl⟩

section
variable {enums : Table Int} {text : String} {registry : Registry E}
  (hregistry : RegistryLayout.registry? E (RegistryLayout.ofKind (kind E)) enums text = some registry)
include hregistry

omit [LawfulCatalogEntry E] in
theorem registry?_parts {blocks : List RawBlock}
    (hblocks : (RegistryLayout.ofKind (kind E)).blocks? text.toList = some blocks) :
    registry.macros = (RegistryLayout.ofKind (kind E)).macros text.toList ∧
      registry.arrayName = (RegistryLayout.ofKind (kind E)).arrayName ∧
        registry.entries = (assignIndices blocks).map fun b =>
          ofRecord ((symbolsOf (kind E) enums text.toList).resolveBlock b) := by
  obtain ⟨registry', hregistry', hparts⟩ := exists_registry? E enums hblocks
  obtain rfl : registry = registry' := Option.some.inj (hregistry.symm.trans hregistry')
  exact hparts

omit [LawfulCatalogEntry E] in
theorem elementType_of_registry? :
    registry.elementType.toList ≠ [] ∧ ∀ c ∈ registry.elementType.toList, isWord c = true := by
  obtain ⟨blocks, -, rfl⟩ := Option.map_eq_some_iff.mp hregistry
  simp only
  split
  · rename_i array harray
    rw [String.toList_ofList]
    exact (structArray?_eq_some (isWord_arrayName _).2 harray).2
  · cases kind E <;> decide +kernel

omit [LawfulCatalogEntry E] in
theorem toList_elementType {elementType : List Char}
    (h : (structArray? (RegistryLayout.ofKind (kind E)).arrayName.toList text.toList).map
      (·.elementType) = some elementType) : registry.elementType.toList = elementType := by
  obtain ⟨array, harray, rfl⟩ := Option.map_eq_some_iff.mp h
  obtain ⟨blocks, -, rfl⟩ := Option.map_eq_some_iff.mp hregistry
  simp only [harray, String.toList_ofList]

omit [LawfulCatalogEntry E] in
theorem fits_sheetOf {ctx : GenerationContext}
    (hversion : '\n' ∉ ctx.toolVersion.toList ∧ '"' ∉ ctx.toolVersion.toList)
    (hplatform : '\n' ∉ ctx.platform.toList ∧ '"' ∉ ctx.platform.toList) (referenced : List Nat)
    (fileName : String) {macros entries : List (List Marked)}
    (hmacros : ∀ piece ∈ macros, ∃ name bodies, Defines piece name bodies)
    (hentries : ∀ piece ∈ entries, Closed piece) :
    (sheetOf registry referenced ctx fileName macros entries).Fits where
  version := hversion
  platform := hplatform
  guardName := isWord_headerGuard fileName
  elementType := elementType_of_registry? hregistry
  arrayName := by
    obtain ⟨blocks, -, rfl⟩ := Option.map_eq_some_iff.mp hregistry
    exact isWord_arrayName (kind E)
  macros := hmacros
  entries := hentries

end

omit [LawfulCatalogEntry E] in
theorem plain_entryLine {s : Sheet} {piece : List Marked} {e : E}
    (hsource : plain piece = Text.trim (record e).raw.toList)
    (hform : (record e).form = if s.invocations then .invocation else .structLiteral) :
    plain (s.entryLine piece) = (entryLine e).toList := by
  have hcomma : ",".toList = [','] := rfl
  rw [Sheet.entryLine, plain_append, plain_append, plain_inZone, plain_inZone, hsource, Sheet.entryEnd]
  unfold entryLine Text.trimmed
  cases hs : s.invocations <;> simp only [hform, hs] <;> simp [hcomma]

section
variable {enums : Table Int} {text : String} {registry : Registry E} {blocks : List RawBlock}
  {referenced : List Nat}

theorem exists_entries (hblocks : (RegistryLayout.ofKind (kind E)).blocks? text.toList = some blocks)
    (hlines : StringsOnLines (mark text.toList)) {symbols : Symbols}
    (hselected : selected registry referenced =
      (keptBlocks blocks referenced).map fun b => ofRecord (symbols.resolveBlock b))
    (hself : ∀ e ∈ selected registry referenced,
      SelfContained (RegistryLayout.ofKind (kind E)) (record e).form (record e).raw.toList) :
    ∃ entries,
      List.Forall₂
        (IsEntry (kind E) ((selected registry referenced).any fun e => (record e).form = .invocation))
        entries ((keptBlocks blocks referenced).map (·.block)) ∧
      (((selected registry referenced).any fun e => (record e).form = .invocation) = true →
        (keptBlocks blocks referenced).map (·.block) ≠ [] ∧
          (RegistryLayout.ofKind (kind E)).invocation = some .sensor) := by
  obtain ⟨invocations, hinvocation, hentry⟩ := exists_isEntry hlines hblocks
  have hpiece : ∀ b ∈ keptBlocks blocks referenced,
      ∃ piece, IsEntry (kind E) invocations piece b.block := by
    intro b hb
    have hb' :=
      hself (ofRecord (symbols.resolveBlock b)) (by rw [hselected]; exact List.mem_map_of_mem hb)
    rw [LawfulCatalogEntry.record_ofRecord] at hb'
    exact hentry b.block (mem_of_mem_keptBlocks hb) hb'
  have hform : ∀ e ∈ selected registry referenced,
      (record e).form = .invocation ↔ invocations = true := by
    rw [hselected]
    intro e he
    obtain ⟨b, hb, rfl⟩ := List.mem_map.mp he
    obtain ⟨piece, hb⟩ := hpiece b hb
    rw [LawfulCatalogEntry.record_ofRecord]
    show b.block.form = .invocation ↔ _
    rw [hb.form]
    cases invocations <;> simp
  -- without entries there is no form to ask for, and the declaration of an empty array is left
  cases hkept : keptBlocks blocks referenced with
  | nil =>
    rw [hkept, List.map_nil] at hselected
    rw [hselected]
    exact ⟨[], .nil, fun hfalse => nomatch hfalse⟩
  | cons b kept =>
    have hany : ((selected registry referenced).any fun e => (record e).form = .invocation) =
        invocations := by
      have hmem : ofRecord (symbols.resolveBlock b) ∈ selected registry referenced := by
        rw [hselected, hkept]
        exact List.mem_cons_self
      cases hinv : invocations with
      | true => exact List.any_eq_true.mpr ⟨_, hmem, by simpa using (hform _ hmem).mpr hinv⟩
      | false =>
        refine List.any_eq_false.mpr fun e he => ?_
        rw [decide_eq_true_eq, hform e he, hinv]
        exact Bool.false_ne_true
    rw [hany, ← hkept]
    have hpieces : ∀ block ∈ (keptBlocks blocks referenced).map (·.block),
        ∃ piece, IsEntry (kind E) invocations piece block := by
      intro block hblock
      obtain ⟨b, hb, rfl⟩ := List.mem_map.mp hblock
      exact hpiece b hb
    obtain ⟨entries, hentries⟩ := exists_forall₂ hpieces
    exact ⟨entries, hentries, fun hinv => ⟨by simp [hkept], hinvocation hinv⟩⟩

theorem mem_usedMacros_selected {symbols : Symbols}
    (hselected : selected registry referenced =
      (keptBlocks blocks referenced).map fun b => ofRecord (symbols.resolveBlock b)) {name : String} :
    name ∈ usedMacros (selected registry referenced) ↔
      (∃ b ∈ keptBlocks blocks referenced, ∃ f ∈ b.block.fields, Text.trimmed f.2 = name) ∧
        (symbols.value? name).isSome = true := by
  rw [mem_usedMacros, hselected]
  constructor
  · rintro ⟨e, he, hname⟩
    obtain ⟨b, hb, rfl⟩ := List.mem_map.mp he
    rw [LawfulCatalogEntry.record_ofRecord] at hname
    obtain ⟨hfield, hsome⟩ := Symbols.mem_usedMacros.mp hname
    exact ⟨⟨b, hb, hfield⟩, hsome⟩
  · rintro ⟨⟨b, hb, hfield⟩, hsome⟩
    refine ⟨_, List.mem_map_of_mem hb, ?_⟩
    rw [LawfulCatalogEntry.record_ofRecord]
    exact Symbols.mem_usedMacros.mpr ⟨hfield, hsome⟩

theorem isSome_value?_of_mem_usedMacros {symbols : Symbols}
    (hselected : selected registry referenced =
      (keptBlocks blocks referenced).map fun b => ofRecord (symbols.resolveBlock b)) :
    ∀ name ∈ usedMacros (selected registry referenced), (symbols.value? name).isSome = true :=
  fun _ hname => ((mem_usedMacros_selected hselected).mp hname).2

/-- A kept block resolves alike where the used names, and those without a value, keep their values. -/
theorem resolveBlock_eq_of_values {symbols symbols' : Symbols}
    (hselected : selected registry referenced =
      (keptBlocks blocks referenced).map fun b => ofRecord (symbols.resolveBlock b))
    (hvalue : ∀ name, name ∈ usedMacros (selected registry referenced) ∨ symbols.value? name = none →
      symbols'.value? name = symbols.value? name)
    (henums : symbols'.enums = symbols.enums) {b : IndexedBlock}
    (hb : b ∈ keptBlocks blocks referenced) :
    symbols'.resolveBlock b = symbols.resolveBlock b := by
  refine Symbols.resolveBlock_congr henums fun f hf => hvalue _ ?_
  cases hsome : symbols.value? (Text.trimmed f.2) with
  | none => exact .inr rfl
  | some value =>
    have hnamed := (mem_usedMacros_selected hselected).mpr
      ⟨⟨b, hb, f, hf, rfl⟩, Option.isSome_of_eq_some hsome⟩
    exact .inl hnamed

theorem definitionsAlong_of_entries {s : Sheet} {symbols : Symbols} {names : List String}
    {definitions : List ((List Char × List (List Char)) × List Char)} {kind : RegistryKind}
    {entries : List RawBlock} (hfits : s.Fits) (hdefine : Define symbols names s.macros definitions)
    (hpieces : List.Forall₂ (IsEntry kind s.invocations) s.entries entries) :
    definitionsAlong none (mark (plain s.marked)) = definitions := by
  rw [hfits.mark_plain]
  refine hfits.definitionsAlong_marked hdefine.defines fun entry hentry => ?_
  obtain ⟨block, -, hblock⟩ := exists_mem_of_forall₂ hpieces entry hentry
  exact hblock.unread

/-- A thin library is the text of a sheet with the selected entries and the macros that they use. -/
theorem exists_sheet
    (hregistry : RegistryLayout.registry? E (RegistryLayout.ofKind (kind E)) enums text =
      some registry)
    (hblocks : (RegistryLayout.ofKind (kind E)).blocks? text.toList = some blocks)
    (hlines : StringsOnLines (mark text.toList)) {ctx : GenerationContext}
    (hversion : '\n' ∉ ctx.toolVersion.toList ∧ '"' ∉ ctx.toolVersion.toList)
    (hplatform : '\n' ∉ ctx.platform.toList ∧ '"' ∉ ctx.platform.toList) (fileName : String)
    (hself : ∀ e ∈ selected registry referenced,
      SelfContained (RegistryLayout.ofKind (kind E)) (record e).form (record e).raw.toList) :
    ∃ (s : Sheet) (definitions : List ((List Char × List (List Char)) × List Char)), s.Fits ∧
      (render registry referenced ctx fileName).toList = plain s.marked ∧
        s.arrayName = (RegistryLayout.ofKind (kind E)).arrayName.toList ∧
          Define (symbolsOf (kind E) enums text.toList)
            (usedMacros (selected registry referenced)) s.macros definitions ∧
            List.Forall₂ (IsEntry (kind E) s.invocations) s.entries
              ((keptBlocks blocks referenced).map (·.block)) ∧
              (s.invocations = true →
                (keptBlocks blocks referenced).map (·.block) ≠ [] ∧
                  (RegistryLayout.ofKind (kind E)).invocation = some .sensor) := by
  obtain ⟨hmacros, harray, hentries⟩ := registry?_parts hregistry hblocks
  have hselected := selected_eq hentries referenced
  obtain ⟨entries, hpieces, hinvocations⟩ := exists_entries hblocks hlines hselected hself
  obtain ⟨macros, definitions, hdefine⟩ :=
    exists_define hlines (isSome_value?_of_mem_usedMacros hselected)
  have hclosed : ∀ piece ∈ entries, Closed piece := by
    intro piece hpiece
    obtain ⟨block, -, hblock⟩ := exists_mem_of_forall₂ hpieces piece hpiece
    exact hblock.closed
  refine ⟨sheetOf registry referenced ctx fileName macros entries, definitions,
    fits_sheetOf hregistry hversion hplatform referenced fileName hdefine.exists_defines hclosed,
    toList_render _ _ _ _ ?_ ?_, congrArg String.toList harray, hdefine, hpieces, hinvocations⟩
  · rw [hmacros]
    exact hdefine.lines
  · rw [hselected, List.forall₂_map_right_iff]
    refine (List.forall₂_map_right_iff.mp hpieces).imp fun piece b hb => ?_
    refine plain_entryLine ?_ ?_ <;> rw [LawfulCatalogEntry.record_ofRecord]
    · exact hb.raw.trans hb.trimmed.symm
    · exact hb.form

end

/-! ## Recompiling -/

/-- A thin library gives back the selected entries. -/
theorem registry?_render {enums : Table Int} {text : String} {registry : Registry E}
    (hregistry : RegistryLayout.registry? E (RegistryLayout.ofKind (kind E)) enums text =
      some registry)
    (hlines : StringsOnLines (mark text.toList)) {ctx : GenerationContext}
    (hversion : '\n' ∉ ctx.toolVersion.toList ∧ '"' ∉ ctx.toolVersion.toList)
    (hplatform : '\n' ∉ ctx.platform.toList ∧ '"' ∉ ctx.platform.toList) (referenced : List Nat)
    (fileName : String)
    (hself : ∀ e ∈ selected registry referenced,
      SelfContained (RegistryLayout.ofKind (kind E)) (record e).form (record e).raw.toList) :
    ∃ blocks thin, (RegistryLayout.ofKind (kind E)).blocks? text.toList = some blocks ∧
      RegistryLayout.registry? E (RegistryLayout.ofKind (kind E)) enums
        (render registry referenced ctx fileName) = some thin ∧
      selected registry referenced = (keptBlocks blocks referenced).map (fun b =>
        ofRecord (Symbols.resolveBlock ⟨registry.macros, enums⟩ b)) ∧
      thin.entries = (keptBlocks blocks referenced).zipIdx.map (fun (b, position) =>
        ofRecord { Symbols.resolveBlock ⟨registry.macros, enums⟩ b with
          index := b.block.announced.getD position }) ∧
      ∀ e ∈ selected registry referenced, ∀ name ∈ (record e).usedMacros, ∃ value,
        (registry.macros.find? name).map (·.value) = some value ∧
          (thin.macros.find? name).map (·.value) = some value := by
  obtain ⟨blocks, hblocks, -⟩ := Option.map_eq_some_iff.mp hregistry
  obtain ⟨hmacros, -, hentries⟩ := registry?_parts hregistry hblocks
  have hselected := selected_eq hentries referenced
  obtain ⟨s, definitions, hfits, htext, harray, hdefine, hpieces, hinvocations⟩ :=
    exists_sheet hregistry hblocks hlines hversion hplatform fileName hself
  have hthinBlocks := blocks?_marked hfits hpieces harray hinvocations
  have hdefinitions := definitionsAlong_of_entries hfits hdefine hpieces
  -- kept blocks refer to these names only, so they resolve as before
  have hvalue : ∀ name, name ∈ usedMacros (selected registry referenced) ∨
      (symbolsOf (kind E) enums text.toList).value? name = none →
        (symbolsOf (kind E) enums (plain s.marked)).value? name =
          (symbolsOf (kind E) enums text.toList).value? name :=
    fun _ => value?_thin hdefine hdefinitions
  have hresolve : ∀ b ∈ keptBlocks blocks referenced,
      (symbolsOf (kind E) enums (plain s.marked)).resolveBlock b =
        (symbolsOf (kind E) enums text.toList).resolveBlock b :=
    fun _ => resolveBlock_eq_of_values hselected hvalue rfl
  rw [← htext] at hthinBlocks hvalue hresolve
  obtain ⟨thin, hthin, hthinMacros, -, hthinEntries⟩ := exists_registry? E enums hthinBlocks
  refine ⟨blocks, thin, hblocks, hthin, ?_, ?_, ?_⟩
  · rw [hselected, hmacros]
    rfl
  · rw [hthinEntries, assignIndices_map, List.map_map, hmacros]
    refine List.map_congr_left fun p hp => ?_
    have hb := hresolve p.1 (List.fst_mem_of_mem_zipIdx hp)
    simp only [Function.comp_apply]
    rw [Symbols.resolveBlock_index, hb]
    rfl
  · intro e he name hname
    have hused : name ∈ usedMacros (selected registry referenced) := mem_usedMacros.mpr ⟨e, he, hname⟩
    obtain ⟨value, hsome⟩ :=
      Option.isSome_iff_exists.mp (isSome_value?_of_mem_usedMacros hselected name hused)
    refine ⟨value, ?_, ?_⟩
    · rw [hmacros]
      exact hsome
    · rw [hthinMacros]
      exact (hvalue name (.inl hused)).trans hsome

def plainContext : GenerationContext := ⟨"1", "p", ⟨0⟩⟩

def annotatedHeader : String :=
  "static const char PSTR_A[] PROGMEM=\"a\";\nstatic const char PSTR_B[] PROGMEM=\"b\";\n" ++
    "static const char PSTR_C[] PROGMEM=\"c\";\nstatic const T SENSOR_LIBRARY[] = \x7b\x7b.name=PSTR_A\x7d," ++
    "\x7b.name=PSTR_B\x7d,/* Index 7: */\x7b.name=PSTR_C\x7d,\x7b.label=1\x7d\x7d;"

def annotatedBlocks : List RawBlock :=
  [⟨none, "\x7b.name=PSTR_A\x7d", [("name", "PSTR_A")], .structLiteral⟩,
    ⟨none, "\x7b.name=PSTR_B\x7d", [("name", "PSTR_B")], .structLiteral⟩,
    ⟨some 7, "/* Index 7: */\x7b.name=PSTR_C\x7d", [("name", "PSTR_C")], .structLiteral⟩,
    ⟨none, "\x7b.label=1\x7d", [("label", "1")], .structLiteral⟩]

theorem blocks?_annotatedHeader : StringsOnLines (mark annotatedHeader.toList) ∧
    (RegistryLayout.ofKind .sensor).blocks? annotatedHeader.toList = some annotatedBlocks ∧
    (symbolsOf (kind Sensor) .empty annotatedHeader.toList).value? "PSTR_C" = some "c" := by
  unfold annotatedHeader
  simp only [String.toList_append]
  repeat rw [String.toList_ofList]
  decide +kernel

theorem selfContained_of_mem_annotatedBlocks {block : RawBlock} (h : block ∈ annotatedBlocks) :
    SelfContained (RegistryLayout.ofKind .sensor) block.form block.raw.toList := by
  have hplain : ∀ block ∈ annotatedBlocks, 's' ∉ block.raw.toList ∧ 'X' ∉ block.raw.toList ∧
      block.form = .structLiteral := by decide +kernel
  obtain ⟨hstatic, hinvocation, hform⟩ := hplain block h
  refine ⟨definesNoMacro_of_first hstatic, fun form hsensor _ => ?_, fun _ _ hinvocation => ?_⟩
  · obtain rfl := invocation_eq_sensor hsensor
    exact closesInvocations_of_notMem hinvocation
  · rw [hform] at hinvocation
    cases hinvocation

/-- Of four entries the second is dropped, the third keeps its index, and the last moves up. -/
theorem registry?_render_annotated :
    ∃ registry thin : Registry Sensor,
      RegistryLayout.registry? Sensor (RegistryLayout.ofKind .sensor) .empty annotatedHeader =
        some registry ∧
      RegistryLayout.registry? Sensor (RegistryLayout.ofKind .sensor) .empty
        (render registry [7, 3] plainContext "s.h") = some thin ∧
      (selected registry [7, 3]).map CatalogEntry.index = [0, 7, 3] ∧
      thin.entries.map CatalogEntry.index = [0, 7, 2] ∧
      (thin.macros.find? "PSTR_C").map (·.value) = some "c" := by
  obtain ⟨hlines, hblocks, hvalue⟩ := blocks?_annotatedHeader
  obtain ⟨registry, hregistry, hmacros, -, hentries⟩ := exists_registry? Sensor .empty hblocks
  have hselected := selected_eq hentries [7, 3]
  have hself : ∀ e ∈ selected registry [7, 3],
      SelfContained (RegistryLayout.ofKind .sensor) (record e).form (record e).raw.toList := by
    rw [hselected]
    intro e he
    obtain ⟨b, hb, rfl⟩ := List.mem_map.mp he
    exact selfContained_of_mem_annotatedBlocks (mem_of_mem_keptBlocks hb)
  have hversion : '\n' ∉ plainContext.toolVersion.toList ∧ '"' ∉ plainContext.toolVersion.toList := by
    decide +kernel
  have hplatform : '\n' ∉ plainContext.platform.toList ∧ '"' ∉ plainContext.platform.toList := by
    decide +kernel
  obtain ⟨blocks, thin, hblocks', hthin, -, hthinEntries, hvalues⟩ :=
    registry?_render hregistry hlines hversion hplatform [7, 3] "s.h" hself
  obtain rfl : annotatedBlocks = blocks := Option.some.inj (hblocks.symm.trans hblocks')
  refine ⟨registry, thin, hregistry, hthin, ?_, ?_, ?_⟩
  · rw [hselected]
    rfl
  · rw [hthinEntries]
    rfl
  · have hused : "PSTR_C" ∈ usedMacros (selected registry [7, 3]) :=
      (mem_usedMacros_selected hselected).mpr ⟨⟨_, List.mem_cons_of_mem _ List.mem_cons_self, _,
        List.mem_cons_self, by decide +kernel⟩, Option.isSome_of_eq_some hvalue⟩
    obtain ⟨e, he, hname⟩ := mem_usedMacros.mp hused
    obtain ⟨value, hfull, hvalue'⟩ := hvalues e he "PSTR_C" hname
    rw [Symbols.value?, symbolsOf, ← hmacros, hfull] at hvalue
    rw [hvalue', hvalue]

/-! ## Sources that do not keep to themselves -/

def keptNames (kind : RegistryKind) (enums : Table Int) (text : List Char)
    (kept : List IndexedBlock) : List String :=
  (kept.flatMap fun b => (symbolsOf kind enums text).usedMacros b.block.fields).foldl
    Symbols.addName []

def literalSheet (kind : RegistryKind) (text : List Char) (blocks : List RawBlock)
    (elementType : List Char) (referenced : List Nat) (ctx : GenerationContext) (fileName : String) : Sheet where
  kind := kind
  ctx := ctx
  kept := (keptBlocks blocks referenced).length
  total := blocks.length
  guardName := (headerGuard fileName).toList
  invocations := false
  elementType := elementType
  arrayName := (RegistryLayout.ofKind kind).arrayName.toList
  macros := (keptNames kind .empty text (keptBlocks blocks referenced)).map fun name =>
    inZone .code ((((RegistryLayout.ofKind kind).macros text).find? name).elim [] fun m =>
      (m.definition.getD (definitionOf name m.value)).toList)
  entries := (keptBlocks blocks referenced).map fun b => inZone .code (Text.trim b.block.raw.toList)

section
variable {text : String} {registry : Registry E} {blocks : List RawBlock} {referenced : List Nat}
  (hregistry : RegistryLayout.registry? E (RegistryLayout.ofKind (kind E)) .empty text = some registry)
  (hblocks : (RegistryLayout.ofKind (kind E)).blocks? text.toList = some blocks)
include hregistry hblocks

theorem usedMacros_selected :
    usedMacros (selected registry referenced) =
      keptNames (kind E) .empty text.toList (keptBlocks blocks referenced) := by
  obtain ⟨-, -, hentries⟩ := registry?_parts hregistry hblocks
  rw [selected_eq hentries, usedMacros, keptNames, List.flatMap_map]
  simp only [LawfulCatalogEntry.record_ofRecord]
  rfl

theorem toList_render_of_literals {elementType : List Char} (ctx : GenerationContext)
    (fileName : String)
    (htype : (structArray? (RegistryLayout.ofKind (kind E)).arrayName.toList text.toList).map
      (·.elementType) = some elementType)
    (hform : ∀ b ∈ keptBlocks blocks referenced, b.block.form = .structLiteral) :
    (render registry referenced ctx fileName).toList =
      plain (literalSheet (kind E) text.toList blocks elementType referenced ctx fileName).marked := by
  have hused : usedMacros (selected registry referenced) = _ := usedMacros_selected hregistry hblocks
  obtain ⟨hmacros, harray, hentries⟩ := registry?_parts hregistry hblocks
  have hselected := selected_eq hentries referenced
  have hnone : ((selected registry referenced).any fun e => (record e).form = .invocation) =
      false := by
    rw [hselected]
    refine List.any_eq_false.mpr fun e he => ?_
    obtain ⟨b, hb, rfl⟩ := List.mem_map.mp he
    rw [LawfulCatalogEntry.record_ofRecord, decide_eq_true_eq]
    show ¬ b.block.form = .invocation
    rw [hform b hb]
    exact EntryForm.noConfusion
  -- the counts and the type of the array do not hang on how the blocks have been resolved
  have hsheet : sheetOf registry referenced ctx fileName
      (literalSheet (kind E) text.toList blocks elementType referenced ctx fileName).macros
      (literalSheet (kind E) text.toList blocks elementType referenced ctx fileName).entries =
        literalSheet (kind E) text.toList blocks elementType referenced ctx fileName := by
    have hkept : (selected registry referenced).length = (keptBlocks blocks referenced).length := by
      rw [hselected, List.length_map]
    have htotal : registry.entries.length = blocks.length := by
      rw [hentries, List.length_map, assignIndices, List.length_map, List.length_zipIdx]
    rw [sheetOf, hkept, htotal, hnone, toList_elementType hregistry htype, harray]
    rfl
  rw [← hsheet]
  refine toList_render registry referenced ctx fileName ?_ ?_
  · rw [hused, hmacros]
    refine List.forall₂_map_left_iff.mpr (List.forall₂_same.mpr fun name hname => ?_)
    rw [← hused] at hname
    have hsome := isSome_value?_of_mem_usedMacros hselected name hname
    rw [Symbols.value?, Option.isSome_map] at hsome
    obtain ⟨m, hm⟩ := Option.isSome_iff_exists.mp hsome
    have hm' : ((RegistryLayout.ofKind (kind E)).macros text.toList).find? name = some m := hm
    rw [macroLine, hm', plain_append, plain_inZone, String.toList_append]
    rfl
  · rw [hsheet, hselected]
    refine List.forall₂_map_left_iff.mpr
      (List.forall₂_map_right_iff.mpr (List.forall₂_same.mpr fun b hb => ?_))
    refine plain_entryLine ?_ ?_ <;> rw [LawfulCatalogEntry.record_ofRecord]
    · exact plain_inZone _ _
    · exact hform b hb

end

/-- A registry and what its thin library reads as, where strings and banner stand on their lines. -/
structure Recompiled (text : String) (referenced : List Nat) (ctx : GenerationContext)
    (fileName : String) (registry thin : Registry E) : Prop where
  lines : StringsOnLines (mark text.toList)
  banner : '\n' ∉ ctx.toolVersion.toList ∧ '\n' ∉ ctx.platform.toList
  read : RegistryLayout.registry? E (RegistryLayout.ofKind (kind E)) .empty text = some registry
  readThin : RegistryLayout.registry? E (RegistryLayout.ofKind (kind E)) .empty
    (render registry referenced ctx fileName) = some thin

theorem exists_recompiled {text thinText : String} {blocks : List RawBlock}
    {elementType : List Char} {referenced : List Nat} {ctx : GenerationContext} {fileName : String}
    {count : Nat} (hlines : StringsOnLines (mark text.toList))
    (hbanner : '\n' ∉ ctx.toolVersion.toList ∧ '\n' ∉ ctx.platform.toList)
    (hblocks : (RegistryLayout.ofKind (kind E)).blocks? text.toList = some blocks)
    (htype : (structArray? (RegistryLayout.ofKind (kind E)).arrayName.toList text.toList).map
      (·.elementType) = some elementType)
    (hform : ∀ b ∈ keptBlocks blocks referenced, b.block.form = .structLiteral)
    (hsheet : thinText.toList =
      plain (literalSheet (kind E) text.toList blocks elementType referenced ctx fileName).marked)
    (hthin : ((RegistryLayout.ofKind (kind E)).blocks? thinText.toList).map (·.length) = some count) :
    ∃ registry thin : Registry E, Recompiled text referenced ctx fileName registry thin ∧
      registry.macros = (RegistryLayout.ofKind (kind E)).macros text.toList ∧
      thin.macros = (RegistryLayout.ofKind (kind E)).macros thinText.toList ∧
      usedMacros (selected registry referenced) =
        keptNames (kind E) .empty text.toList (keptBlocks blocks referenced) ∧
      (selected registry referenced).length = (keptBlocks blocks referenced).length ∧
      thin.entries.length = count := by
  obtain ⟨registry, hregistry, hmacros, -, hentries⟩ := exists_registry? E .empty hblocks
  have htext := (toList_render_of_literals hregistry hblocks ctx fileName htype hform).trans hsheet.symm
  rw [← htext] at hthin ⊢
  obtain ⟨thinBlocks, hthinBlocks, rfl⟩ := Option.map_eq_some_iff.mp hthin
  obtain ⟨thin, hread, hthinMacros, -, hthinEntries⟩ := exists_registry? E .empty hthinBlocks
  refine ⟨registry, thin, ⟨hlines, hbanner, hregistry, hread⟩, hmacros, hthinMacros,
    usedMacros_selected hregistry hblocks, ?_, ?_⟩
  · rw [selected_eq hentries, List.length_map]
  · rw [hthinEntries, List.length_map, assignIndices, List.length_map, List.length_zipIdx]

def overridingHeader : String :=
  "static const T APPLICATION_PRESETS[] = " ++
    "\x7b\x7b.name=PSTR_A,.label=static const char PSTR_A[] PROGMEM=\"1\";\x7d\x7d;\n" ++
    "static const char PSTR_A[] PROGMEM=\"2\";"

def overridingBlock : RawBlock where
  announced := none
  raw := "\x7b.name=PSTR_A,.label=static const char PSTR_A[] PROGMEM=\"1\";\x7d"
  fields := [("name", "PSTR_A"), ("label", "static const char PSTR_A[] PROGMEM=\"1\";")]
  form := .structLiteral

def overridingThin : String :=
  "// Thin application registry for USE_STATIC_CONFIG builds\n" ++
    "// Generated by regc v1 for p at 1970-01-01T00:00:00Z\n" ++
    "// 1 of 1 entries kept; registry indices are unchanged in the config block.\n\n" ++
    "#ifndef A_H\n#define A_H\n\n" ++
    "// ===== STRING LITERALS =====\n" ++
    "static const char PSTR_A[] PROGMEM=\"2\";\n\n" ++
    "static const PROGMEM T APPLICATION_PRESETS[] = \x7b\n    " ++
    "\x7b.name=PSTR_A,.label=static const char PSTR_A[] PROGMEM=\"1\";\x7d,\n" ++
    "\x7d;\n\n#endif // A_H\n"

theorem overriding_entry :
    ∃ registry thin : Registry Application,
      Recompiled overridingHeader [0] plainContext "a.h" registry thin ∧
      "PSTR_A" ∈ usedMacros (selected registry [0]) ∧
      (registry.macros.find? "PSTR_A").map (·.value) = some "2" ∧
      (thin.macros.find? "PSTR_A").map (·.value) = some "1" := by
  have hheader : StringsOnLines (mark overridingHeader.toList) ∧
      (RegistryLayout.ofKind .application).blocks? overridingHeader.toList = some [overridingBlock] ∧
      (structArray? (RegistryLayout.ofKind .application).arrayName.toList overridingHeader.toList).map
        (·.elementType) = some ['T'] ∧
      "PSTR_A" ∈
        keptNames .application .empty overridingHeader.toList (keptBlocks [overridingBlock] [0]) ∧
      (((RegistryLayout.ofKind .application).macros overridingHeader.toList).find? "PSTR_A").map
        (·.value) = some "2" := by
    unfold overridingHeader
    simp only [String.toList_append]
    repeat rw [String.toList_ofList]
    decide +kernel
  have hthin : ((RegistryLayout.ofKind .application).blocks? overridingThin.toList).map (·.length) =
      some 1 ∧
      (((RegistryLayout.ofKind .application).macros overridingThin.toList).find? "PSTR_A").map
        (·.value) = some "1" := by
    unfold overridingThin
    simp only [String.toList_append]
    repeat rw [String.toList_ofList]
    decide +kernel
  have hsheet : overridingThin.toList =
      plain (literalSheet .application overridingHeader.toList [overridingBlock] ['T'] [0] plainContext
        "a.h").marked := by
    unfold literalSheet overridingHeader overridingBlock overridingThin plainContext Sheet.marked
      Sheet.front Sheet.prologue Sheet.titleText Sheet.bannerText Sheet.countText Sheet.sectionText
    simp only [String.toList_append]
    repeat rw [String.toList_ofList]
    decide +kernel
  obtain ⟨registry, thin, hrecompiled, hmacros, hthinMacros, hused, -⟩ :=
    exists_recompiled (E := Application) hheader.1 (by decide +kernel) hheader.2.1 hheader.2.2.1
      (by decide +kernel) hsheet hthin.1
  refine ⟨registry, thin, hrecompiled, ?_, ?_, ?_⟩
  · rw [hused]
    exact hheader.2.2.2.1
  · rw [hmacros]
    exact hheader.2.2.2.2
  · rw [hthinMacros]
    exact hthin.2

def openingHeader : String :=
  "static const char PSTR_A[] PROGMEM=\"a\";\n" ++
    "static const T SENSOR_LIBRARY[] = " ++
    "\x7b\x7b.name=PSTR_A,.label=X_SENSOR(PSTR_A,1,2,3,4,5,6,7,8,9,10,11\x7d," ++
    "\x7b.name=(\x7d,\x7b.name=1,.label=)\x7d\x7d;"

def openingBlocks : List RawBlock :=
  [⟨none, "\x7b.name=PSTR_A,.label=X_SENSOR(PSTR_A,1,2,3,4,5,6,7,8,9,10,11\x7d",
      [("name", "PSTR_A"), ("label", "X_SENSOR(PSTR_A,1,2,3,4,5,6,7,8,9,10,11")], .structLiteral⟩,
    ⟨none, "\x7b.name=(\x7d", [("name", "(")], .structLiteral⟩,
    ⟨none, "\x7b.name=1,.label=)\x7d", [("name", "1"), ("label", ")")], .structLiteral⟩]

def openingThin : String :=
  "// Thin sensor registry for USE_STATIC_CONFIG builds\n" ++
    "// Generated by regc v1 for p at 1970-01-01T00:00:00Z\n" ++
    "// 2 of 3 entries kept; registry indices are unchanged in the config block.\n\n" ++
    "#ifndef S_H\n#define S_H\n\n" ++
    "// ===== STRING LITERALS =====\n" ++
    "static const char PSTR_A[] PROGMEM=\"a\";\n\n" ++
    "static const PROGMEM T SENSOR_LIBRARY[] = \x7b\n    " ++
    "\x7b.name=PSTR_A,.label=X_SENSOR(PSTR_A,1,2,3,4,5,6,7,8,9,10,11\x7d,\n    " ++
    "\x7b.name=1,.label=)\x7d,\n" ++
    "\x7d;\n\n#endif // S_H\n"

theorem opening_entry :
    ∃ registry thin : Registry Sensor,
      Recompiled openingHeader [2] plainContext "s.h" registry thin ∧
      (selected registry [2]).length = 2 ∧ thin.entries.length = 1 := by
  have hheader : StringsOnLines (mark openingHeader.toList) ∧
      (RegistryLayout.ofKind .sensor).blocks? openingHeader.toList = some openingBlocks ∧
      (structArray? (RegistryLayout.ofKind .sensor).arrayName.toList openingHeader.toList).map
        (·.elementType) = some ['T'] := by
    unfold openingHeader
    simp only [String.toList_append]
    repeat rw [String.toList_ofList]
    decide +kernel
  have hthin : ((RegistryLayout.ofKind .sensor).blocks? openingThin.toList).map (·.length) =
      some 1 := by
    unfold openingThin
    simp only [String.toList_append]
    repeat rw [String.toList_ofList]
    decide +kernel
  have hsheet : openingThin.toList =
      plain (literalSheet .sensor openingHeader.toList openingBlocks ['T'] [2] plainContext
        "s.h").marked := by
    unfold literalSheet openingHeader openingBlocks openingThin plainContext Sheet.marked
      Sheet.front Sheet.prologue Sheet.titleText Sheet.bannerText Sheet.countText Sheet.sectionText
    simp only [String.toList_append]
    repeat rw [String.toList_ofList]
    decide +kernel
  obtain ⟨registry, thin, hrecompiled, -, -, -, hselected, hentries⟩ :=
    exists_recompiled (E := Sensor) hheader.1 (by decide +kernel) hheader.2.1 hheader.2.2
      (by decide +kernel) hsheet hthin
  exact ⟨registry, thin, hrecompiled, hselected.trans (by decide +kernel), hentries⟩

def quotingContext : GenerationContext := ⟨"static const char PSTR_Z[] PROGMEM=\"", "p", ⟨0⟩⟩

def quotedHeader : String :=
  "static const char PSTR_A[] PROGMEM=\";\";\n" ++
    "static const T APPLICATION_PRESETS[] = \x7b\x7b.name=PSTR_A\x7d\x7d;"

def quotedBlock : RawBlock where
  announced := none
  raw := "\x7b.name=PSTR_A\x7d"
  fields := [("name", "PSTR_A")]
  form := .structLiteral

def quotedThin : String :=
  "// Thin application registry for USE_STATIC_CONFIG builds\n" ++
    "// Generated by regc vstatic const char PSTR_Z[] PROGMEM=\" for p at 1970-01-01T00:00:00Z\n" ++
    "// 1 of 1 entries kept; registry indices are unchanged in the config block.\n\n" ++
    "#ifndef A_H\n#define A_H\n\n" ++
    "// ===== STRING LITERALS =====\n" ++
    "static const char PSTR_A[] PROGMEM=\";\";\n\n" ++
    "static const PROGMEM T APPLICATION_PRESETS[] = \x7b\n    " ++
    "\x7b.name=PSTR_A\x7d,\n" ++
    "\x7d;\n\n#endif // A_H\n"

theorem quoting_banner :
    ∃ registry thin : Registry Application,
      Recompiled quotedHeader [0] quotingContext "a.h" registry thin ∧
      "PSTR_A" ∈ usedMacros (selected registry [0]) ∧
      (thin.macros.find? "PSTR_A").map (·.value) = none := by
  have hheader : StringsOnLines (mark quotedHeader.toList) ∧
      (RegistryLayout.ofKind .application).blocks? quotedHeader.toList = some [quotedBlock] ∧
      (structArray? (RegistryLayout.ofKind .application).arrayName.toList quotedHeader.toList).map
        (·.elementType) = some ['T'] ∧
      "PSTR_A" ∈ keptNames .application .empty quotedHeader.toList (keptBlocks [quotedBlock] [0]) := by
    unfold quotedHeader
    simp only [String.toList_append]
    repeat rw [String.toList_ofList]
    decide +kernel
  have hthin : ((RegistryLayout.ofKind .application).blocks? quotedThin.toList).map (·.length) =
      some 1 ∧
      (((RegistryLayout.ofKind .application).macros quotedThin.toList).find? "PSTR_A").map
        (·.value) = none := by
    unfold quotedThin
    simp only [String.toList_append]
    repeat rw [String.toList_ofList]
    decide +kernel
  have hsheet : quotedThin.toList =
      plain (literalSheet .application quotedHeader.toList [quotedBlock] ['T'] [0] quotingContext
        "a.h").marked := by
    unfold literalSheet quotedHeader quotedBlock quotedThin quotingContext Sheet.marked
      Sheet.front Sheet.prologue Sheet.titleText Sheet.bannerText Sheet.countText Sheet.sectionText
    simp only [String.toList_append]
    repeat rw [String.toList_ofList]
    decide +kernel
  obtain ⟨registry, thin, hrecompiled, -, hthinMacros, hused, -⟩ :=
    exists_recompiled (E := Application) hheader.1 (by decide +kernel) hheader.2.1 hheader.2.2.1
      (by decide +kernel) hsheet hthin.1
  refine ⟨registry, thin, hrecompiled, ?_, ?_⟩
  · rw [hused]
    exact hheader.2.2.2
  · rw [hthinMacros]
    exact hthin.2

/-- A definition in an entry, an invocation left open and a quote in the banner each change what is read. -/
theorem thin_library_may_differ :
    (∃ registry thin : Registry Application,
      Recompiled overridingHeader [0] plainContext "a.h" registry thin ∧
      "PSTR_A" ∈ usedMacros (selected registry [0]) ∧
      (registry.macros.find? "PSTR_A").map (·.value) = some "2" ∧
      (thin.macros.find? "PSTR_A").map (·.value) = some "1") ∧
    (∃ registry thin : Registry Sensor,
      Recompiled openingHeader [2] plainContext "s.h" registry thin ∧
      (selected registry [2]).length = 2 ∧ thin.entries.length = 1) ∧
    ∃ registry thin : Registry Application,
      Recompiled quotedHeader [0] quotingContext "a.h" registry thin ∧
      "PSTR_A" ∈ usedMacros (selected registry [0]) ∧
      (thin.macros.find? "PSTR_A").map (·.value) = none :=
  ⟨overriding_entry, opening_entry, quoting_banner⟩

end ThinLibrary

end FirmwareCatalog
