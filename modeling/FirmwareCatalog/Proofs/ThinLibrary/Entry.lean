import FirmwareCatalog.Proofs.ThinLibrary.Symbols

/-!
# Entries that can be moved

An entry keeps to its source if nothing in it defines a string macro, if an
invocation that it opens is closed in it, and if it is no invocation with
another one inside. The source of such an entry is a piece that gives the same
block in a thin library.
-/

namespace FirmwareCatalog.ThinLibrary

open Character Header Text

def DefinesNoMacro (source : List Char) : Prop :=
  ∀ x y, source = x ++ y → zoneAt? (mark source) x.length = some .code → macroDefinition? none y = none

theorem definesNoMacro_of_first {source : List Char} (h : 's' ∉ source) : DefinesNoMacro source := by
  intro x y hsource _
  cases y with
  | nil => rfl
  | cons c y =>
    have := quiet_of_first h hsource none []
    rwa [List.append_nil] at this

theorem closesInvocations_of_notMem {source : List Char} (h : 'X' ∉ source) : ClosesInvocations .sensor source := by
  intro x y rest hsource _ hhead
  obtain ⟨-, blanks, rfl, -⟩ := invocationHead?_eq_some hhead
  exact absurd (hsource ▸ List.mem_append_right x List.mem_cons_self) h

/-- An entry whose source gives the same block in another header with the same layout. -/
structure SelfContained (layout : RegistryLayout) (form : EntryForm) (source : List Char) : Prop where
  definesNoMacro : DefinesNoMacro source
  closes : ∀ invocation ∈ layout.invocation, form = .structLiteral →
    ClosesInvocations invocation source
  /-- Behind the first character of an invocation no other one begins. -/
  unnested : ∀ invocation ∈ layout.invocation, form = .invocation →
    invocationBlocks? invocation (source.drop 1) = none

/-- A piece that a thin library may hold as an entry. -/
structure IsEntry (kind : RegistryKind) (invocations : Bool) (piece : List Marked)
    (block : RawBlock) : Prop where
  closed : Closed piece
  raw : plain piece = block.raw.toList
  trimmed : trim block.raw.toList = block.raw.toList
  form : block.form = if invocations then .invocation else .structLiteral
  unread : Unread macroDefinition? piece
  element : invocations = false → IsElement piece block
  lists : (RegistryLayout.ofKind kind).invocation = some .sensor →
    Sheet.Fits.Lists piece (if invocations then [block] else [])

/-! ## Sources -/

theorem unread_of_definesNoMacro {e : Char} (he : isMacroHeadChar e = false) (hsemicolon : e ≠ ';')
    {piece : List Marked}
    (hclosed : Closed piece) (hlast : piece.getLast? = some (e, .code)) (hlines : StringsOnLines piece)
    (h : DefinesNoMacro (plain piece)) : Unread macroDefinition? piece := by
  refine unread_macroDefinition? he hsemicolon hclosed hlast hlines fun x c y hpiece => ?_
  refine h (plain x) (c :: plain y) (by rw [hpiece, plain_append, plain_cons]) ?_
  rw [hclosed.mark_plain, hpiece, zoneAt?_append (length_plain x)]
  rfl

theorem form_of_mem_blocksFrom {block : RawBlock} :
    ∀ (ps : List Piece) (pending : Option (Nat × List Char)),
    block ∈ blocksFrom pending ps → block.form = .structLiteral
  | [], pending, h => by cases pending <;> cases h
  | .comment text :: ps, pending, h => by
    rw [blocksFrom] at h
    split at h
    · exact form_of_mem_blocksFrom ps _ h
    · exact form_of_mem_blocksFrom ps _ h
  | .other c :: ps, pending, h => by
    rw [blocksFrom] at h
    exact form_of_mem_blocksFrom ps _ h
  | .element inner :: ps, pending, h => by
    rw [blocksFrom_element, List.mem_cons] at h
    rcases h with rfl | h
    · rfl
    · exact form_of_mem_blocksFrom ps _ h

theorem isWord_arrayName (kind : RegistryKind) : (RegistryLayout.ofKind kind).arrayName.toList ≠ [] ∧
    ∀ c ∈ (RegistryLayout.ofKind kind).arrayName.toList, isWord c = true := by
  cases kind <;> exact ⟨by decide, by decide⟩

theorem invocation_eq_sensor {kind : RegistryKind} {form : InvocationForm}
    (h : form ∈ (RegistryLayout.ofKind kind).invocation) : form = .sensor := by
  cases kind <;> cases h
  rfl

section
variable {kind : RegistryKind} {text : List Char} (hlines : StringsOnLines (mark text))
include hlines

theorem stringsOnLines_of_isInfix {piece : List Marked} (h : piece <:+: mark text) :
    StringsOnLines piece := by
  obtain ⟨a, b, hmark⟩ := h
  rw [← hmark] at hlines
  exact hlines.left.right

theorem isEntry_of_isElement (hnone : ∀ form ∈ (RegistryLayout.ofKind kind).invocation,
    invocationBlocks? form text = none)
    {piece : List Marked} {block : RawBlock} (hin : piece <:+: mark text)
    (hform : block.form = .structLiteral)
    (h : IsElement piece block)
    (hself : SelfContained (RegistryLayout.ofKind kind) block.form block.raw.toList) :
    IsEntry kind false piece block where
  closed := h.closed
  raw := h.raw
  trimmed := by
    rw [← h.raw]
    refine trim_eq_self (fun c hc => ?_) fun c hc => ?_
    · obtain ⟨d, hd, hcase⟩ := h.head
      obtain rfl : d = c := Option.some.inj (hd.symm.trans hc)
      rcases hcase with rfl | rfl <;> decide
    · rw [plain, List.getLast?_map, h.last] at hc
      cases hc
      decide
  form := hform
  unread := unread_of_definesNoMacro (by decide) (by decide) h.closed h.last
    (stringsOnLines_of_isInfix hlines hin)
    (h.raw ▸ hself.definesNoMacro)
  element := fun _ => h
  lists := fun hinvocation text' => by
    have hhead : ∀ m ∈ piece.head?, m.1 ≠ 'X' := by
      obtain ⟨d, hd, hcase⟩ := h.head
      intro m hm
      rw [plain, List.head?_map, Option.mem_def.mp hm] at hd
      obtain rfl : m.1 = d := Option.some.inj hd
      rcases hcase with hcase | hcase <;> rw [hcase] <;> decide
    refine ⟨some '\x7d', ?_⟩
    exact blocksAlong_of_closes isMacroName_sensor (by decide) (hnone _ hinvocation) hin
      h.closed h.last hhead
      (h.raw ▸ hself.closes _ hinvocation hform) _ text'

theorem isEntry_of_isInvocation {piece : List Marked} {block : RawBlock} (hin : piece <:+: mark text)
    (hform : block.form = .invocation) (h : IsInvocation .sensor piece block)
    (hself : SelfContained (RegistryLayout.ofKind kind) block.form block.raw.toList) :
    IsEntry kind true piece block where
  closed := h.closed
  raw := h.raw
  trimmed := by
    obtain ⟨tail, hpiece, -⟩ := h.exists_tail isMacroName_sensor
    rw [← h.raw]
    refine trim_eq_self (fun c hc => ?_) fun c hc => ?_
    · rw [hpiece] at hc
      cases hc
      decide
    · rw [plain, List.getLast?_map, h.last] at hc
      cases hc
      decide
  form := hform
  unread := unread_of_definesNoMacro (by decide) (by decide) h.closed h.last
    (stringsOnLines_of_isInfix hlines hin)
    (h.raw ▸ hself.definesNoMacro)
  element := fun hfalse => nomatch hfalse
  lists := fun hinvocation text' =>
    ⟨some ')', h.blocksAlong_append isMacroName_sensor (hself.unnested _ hinvocation hform)
      (by decide) text'⟩

theorem exists_isEntry {blocks : List RawBlock}
    (hblocks : (RegistryLayout.ofKind kind).blocks? text = some blocks) :
    ∃ invocations, (invocations = true → (RegistryLayout.ofKind kind).invocation = some .sensor) ∧
      ∀ block ∈ blocks,
      SelfContained (RegistryLayout.ofKind kind) block.form block.raw.toList →
        ∃ piece, IsEntry kind invocations piece block := by
  rw [RegistryLayout.blocks?, Option.or_eq_some_iff] at hblocks
  rcases hblocks with hblocks | ⟨hnone, hblocks⟩
  · obtain ⟨form, hform, hblocks⟩ := Option.bind_eq_some_iff.mp hblocks
    obtain rfl := invocation_eq_sensor hform
    refine ⟨true, fun _ => hform, fun block hblock hself => ?_⟩
    rw [invocationBlocks?_eq isMacroName_sensor] at hblocks
    split at hblocks
    · cases hblocks
    · cases hblocks
      obtain ⟨piece, hin, hpiece⟩ := exists_isInvocation_of_mem isMacroName_sensor hblock
      obtain ⟨blanks, inner, -, -, -, hinner⟩ := hpiece.source
      exact ⟨piece, isEntry_of_isInvocation hlines hin (invocationBlock?_eq_some hinner).2.2
        hpiece hself⟩
  · have hinvocations : ∀ form ∈ (RegistryLayout.ofKind kind).invocation,
        invocationBlocks? form text = none := by
      intro form hform
      rw [Option.mem_def.mp hform] at hnone
      exact hnone
    refine ⟨false, (fun hfalse => nomatch hfalse), fun block hblock hself => ?_⟩
    obtain ⟨array, harray, rfl⟩ := Option.map_eq_some_iff.mp hblocks
    obtain ⟨⟨x, body, rest, hmark, hbody, hplain, hclosing⟩, -⟩ :=
      structArray?_eq_some (isWord_arrayName kind).2 harray
    rw [hbody] at hblock
    -- the body is closed by the same brace in its header and alone
    have hclosing' : splitClosing '\x7b' '\x7d' 1 (mark (plain body) ++ [('\x7d', .code)]) =
        some (mark (plain body), []) := by
      rw [hplain]
      exact splitClosing_replace (by decide) hclosing []
    obtain ⟨piece, hin, hpiece⟩ := exists_isElement_of_mem hclosing' hblock
    rw [hplain] at hin
    have hin' : piece <:+: mark text := by
      rw [hmark]
      exact hin.trans ⟨x, ('\x7d', .code) :: rest, rfl⟩
    exact ⟨piece, isEntry_of_isElement hlines hinvocations hin' (form_of_mem_blocksFrom _ _ hblock)
      hpiece hself⟩

end

/-! ## Reading the entries -/

section
variable {kind : RegistryKind} {s : Sheet} (h : s.Fits) {blocks : List RawBlock}
  (hentries : List.Forall₂ (IsEntry kind s.invocations) s.entries blocks)
include h hentries

theorem blocksAlong_entry (hinvocation : (RegistryLayout.ofKind kind).invocation = some .sensor) :
    blocksAlong .sensor none s.marked = if s.invocations then blocks else [] := by
  have hlists :
      List.Forall₂ Sheet.Fits.Lists s.entries
      (blocks.map fun b => if s.invocations then [b] else []) :=
    List.forall₂_map_right_iff.mpr (hentries.imp fun _ _ hentry => hentry.lists hinvocation)
  rw [h.blocksAlong_marked hlists]
  cases s.invocations with
  | false => simp
  | true =>
    simp only [if_true]
    rw [← List.flatMap_def, List.flatMap_singleton']

theorem blocks?_marked (hname : s.arrayName = (RegistryLayout.ofKind kind).arrayName.toList)
    (hinvocations : s.invocations = true → blocks ≠ [] ∧ (RegistryLayout.ofKind kind).invocation =
      some .sensor) :
    (RegistryLayout.ofKind kind).blocks? (plain s.marked) = some blocks := by
  have hlist := blocksAlong_entry h hentries
  have hread := invocationBlocks?_eq isMacroName_sensor (plain s.marked)
  rw [h.mark_plain] at hread
  cases hs : s.invocations with
  | true =>
    obtain ⟨hne, hinvocation⟩ := hinvocations hs
    rw [hlist hinvocation, hs, if_pos rfl, if_neg (by simpa using hne)] at hread
    rw [RegistryLayout.blocks?, hinvocation, Option.bind_some, hread]
    rfl
  | false =>
    have hnone :
        ((RegistryLayout.ofKind kind).invocation.bind fun form => invocationBlocks? form
        (plain s.marked)) = none := by
      refine Option.bind_eq_none_iff.mpr fun form hform => ?_
      obtain rfl := invocation_eq_sensor hform
      rw [hread, hlist hform, hs]
      rfl
    have helements : List.Forall₂ IsElement s.entries blocks :=
      hentries.imp fun _ _ hentry => hentry.element hs
    have hbalanced : ∀ entry ∈ s.entries, Balanced '\x7b' '\x7d' entry := by
      intro entry hentry
      obtain ⟨block, -, helement⟩ := exists_mem_of_forall₂ helements entry hentry
      exact helement.balanced
    rw [RegistryLayout.blocks?, hnone, Option.none_or, structBlocks?, ← hname,
      h.structArray?_marked hs hbalanced,
      Option.map_some, h.arrayElements_body helements]

end

end FirmwareCatalog.ThinLibrary
