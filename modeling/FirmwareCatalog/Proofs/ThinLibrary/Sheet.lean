import FirmwareCatalog.Proofs.Header.InvocationSource
import FirmwareCatalog.Proofs.Header.StringMacro
import FirmwareCatalog.Proofs.Header.StructArray
import FirmwareCatalog.Proofs.Timestamp
import FirmwareCatalog.ThinLibrary

/-!
# The pieces of a thin library

A thin library is a row of closed pieces: comment lines, the include guard, the
definitions of string macros, the macro for invocations, the declaration of the
array and its entries. Each piece is marked as it would be alone.
-/

namespace FirmwareCatalog.ThinLibrary

open Character Header Numeral

/-! ## The macro for invocations -/

def paramText : List Char :=
  ("name, label, description, readFunction, initFunction, measurementType, calibrationType, defaultCalibration, " ++
    "minReadInterval, minValue, maxValue, nameHash, pinTypeRequirement").toList

def definitionText : List Char :=
  "#define X_SENSOR(".toList ++
    (paramText ++ (") \\\n    \x7b ".toList ++ (paramText ++ " \x7d,\n".toList)))

theorem toList_params : (String.intercalate ", " InvocationForm.sensor.params).toList = paramText := by
  rw [String.toList_intercalate]
  unfold paramText
  conv_rhs => rw [String.toList_append, String.toList_ofList, String.toList_ofList]
  decide +kernel

theorem toList_invocationDefinition : invocationDefinition.toList = definitionText := by
  unfold invocationDefinition definitionText
  simp only [String.toList_append, toList_params, List.append_assoc]

theorem isPlain_paramText : ∀ c ∈ paramText, IsPlain c := by
  unfold paramText
  rw [String.toList_append, String.toList_ofList, String.toList_ofList]
  decide +kernel

theorem isPlain_definitionText : ∀ c ∈ definitionText, IsPlain c := by
  unfold definitionText
  simp only [List.mem_append, or_imp, forall_and]
  exact ⟨by decide, isPlain_paramText, by decide, isPlain_paramText, by decide⟩

structure Sheet where
  kind : RegistryKind
  ctx : GenerationContext
  kept : Nat
  total : Nat
  guardName : List Char
  invocations : Bool
  elementType : List Char
  arrayName : List Char
  macros : List (List Marked)
  entries : List (List Marked)

namespace Sheet

/-! ## Pieces -/

variable (s : Sheet)

def titleText : List Char :=
  " Thin ".toList ++ (kindName s.kind).toList ++ " registry for USE_STATIC_CONFIG builds".toList

def bannerText : List Char :=
  " Generated by regc v".toList ++ s.ctx.toolVersion.toList ++ " for ".toList ++
    s.ctx.platform.toList ++ " at ".toList
    ++ s.ctx.timestamp.render.toList

def countText : List Char :=
  " ".toList ++ decimal s.kept ++ " of ".toList ++ decimal s.total
    ++ " entries kept; registry indices are unchanged in the config block.".toList

def guardText : List Char :=
  "\n#ifndef ".toList ++ s.guardName ++ "\n#define ".toList ++ s.guardName ++ "\n\n".toList

def sectionText : List Char := " ===== STRING LITERALS =====".toList

def prologue : List Marked :=
  commentLine s.titleText ++
    (commentLine s.bannerText ++ (commentLine s.countText ++ (inZone .code s.guardText ++
    commentLine sectionText)))

def macroSection : List Marked := s.macros.flatMap (· ++ [('\n', .code)])

def invocationText : List Char := '\n' :: if s.invocations then definitionText ++ ['\n'] else []

def front : List Marked := s.prologue ++ (s.macroSection ++ inZone .code s.invocationText)

def entryEnd : List Char := if s.invocations then ['\n'] else [',', '\n']

def entryLine (entry : List Marked) : List Marked :=
  inZone .code "    ".toList ++ (entry ++ inZone .code s.entryEnd)

def body : List Marked := inZone .code ['\n'] ++ s.entries.flatMap s.entryLine

def undefText : List Char :=
  ";\n".toList ++ (if s.invocations then "\n#undef X_SENSOR\n".toList else []) ++ "\n#endif ".toList

def ending : List Marked := inZone .code s.undefText ++ commentLine (' ' :: s.guardName)

def marked : List Marked :=
  s.front ++ (inZone .code (declaration s.elementType s.arrayName) ++
    (s.body ++ ('\x7d', .code) :: s.ending))

/-! ## Well-formed pieces -/

structure Fits : Prop where
  version : '\n' ∉ s.ctx.toolVersion.toList ∧ '"' ∉ s.ctx.toolVersion.toList
  platform : '\n' ∉ s.ctx.platform.toList ∧ '"' ∉ s.ctx.platform.toList
  guardName : ∀ c ∈ s.guardName, isWord c = true
  elementType : s.elementType ≠ [] ∧ ∀ c ∈ s.elementType, isWord c = true
  arrayName : s.arrayName ≠ [] ∧ ∀ c ∈ s.arrayName, isWord c = true
  macros : ∀ piece ∈ s.macros, ∃ name bodies, Defines piece name bodies
  entries : ∀ piece ∈ s.entries, Closed piece

end Sheet

theorem notMem_of_isWord {text : List Char} (h : ∀ c ∈ text, isWord c = true) {d : Char}
    (hd : isWord d = false) : d ∉ text :=
  fun hmem => by
    rw [h d hmem] at hd
    cases hd

namespace Sheet.Fits

variable {s : Sheet} (h : s.Fits)

theorem notMem_titleText {c : Char} (hc : c = '\n' ∨ c = '"') : c ∉ s.titleText := by
  unfold titleText
  rcases hc with rfl | rfl <;> cases s.kind <;> simp [kindName]

theorem notMem_countText {c : Char} (hc : c = '\n' ∨ c = '"') : c ∉ s.countText := by
  unfold countText
  rcases hc with rfl | rfl <;> simp [notMem_decimal]

include h

theorem notMem_bannerText {c : Char} (hc : c = '\n' ∨ c = '"') : c ∉ s.bannerText := by
  unfold bannerText
  rcases hc with rfl | rfl
  · simp [h.version.1, h.platform.1, Timestamp.notMem_render]
  · simp [h.version.2, h.platform.2, Timestamp.notMem_render]

theorem isPlain_guardName : ∀ c ∈ s.guardName, IsPlain c :=
  fun c hc => isPlain_of_isWord (h.guardName c hc)

theorem isPlain_guardText : ∀ c ∈ s.guardText, IsPlain c := by
  unfold guardText
  simp only [List.mem_append, or_imp, forall_and]
  exact ⟨⟨⟨⟨by decide, h.isPlain_guardName⟩, by decide⟩,
    h.isPlain_guardName⟩, by decide⟩

theorem closed_prologue : Closed s.prologue := by
  have hnewline : '\n' ∉ sectionText := by unfold sectionText; simp
  exact (closed_commentLine (notMem_titleText (.inl rfl))).append
    ((closed_commentLine (h.notMem_bannerText (.inl rfl))).append
    ((closed_commentLine (notMem_countText (.inl rfl))).append
      ((closed_of_plain h.isPlain_guardText).append
      (closed_commentLine hnewline))))

theorem closed_macroSection : Closed s.macroSection := by
  refine closed_flatMap fun piece hpiece => ?_
  obtain ⟨name, bodies, hdefines⟩ := h.macros piece hpiece
  exact hdefines.closed.append (closed_of_plain (show ∀ c ∈ ['\n'], IsPlain c by decide))

omit h in
theorem isPlain_invocationText : ∀ c ∈ s.invocationText, IsPlain c := by
  unfold invocationText
  cases s.invocations with
  | false => decide
  | true =>
    intro c hc
    simp only [if_true, List.mem_cons, List.mem_append, List.not_mem_nil, or_false] at hc
    rcases hc with rfl | hc | rfl
    · decide
    · exact isPlain_definitionText c hc
    · decide

theorem closed_front : Closed s.front :=
  h.closed_prologue.append (h.closed_macroSection.append (closed_of_plain isPlain_invocationText))

theorem isHead_declaration : IsHead isHeadChar 's' '\x7b' (declaration s.elementType s.arrayName) :=
  Header.isHead_declaration h.arrayName.2 h.elementType.2 h.elementType.1 h.arrayName.1

theorem closed_declaration : Closed (inZone .code (declaration s.elementType s.arrayName)) :=
  closed_of_plain fun c hc => isPlain_of_isHeadChar (h.isHead_declaration.chars c hc)

omit h in
theorem closed_entryLine {entry : List Marked} (hentry : Closed entry) :
    Closed (s.entryLine entry) := by
  refine (closed_of_plain (by decide)).append (hentry.append (closed_of_plain ?_))
  unfold entryEnd
  cases s.invocations <;> decide

theorem closed_body : Closed s.body :=
  (closed_of_plain (by decide)).append (closed_flatMap fun entry hentry => closed_entryLine
    (h.entries entry hentry))

theorem closed_ending : Closed s.ending := by
  have hnewline : '\n' ∉ ' ' :: s.guardName := by
    simpa using notMem_of_isWord h.guardName (d := '\n') (by decide)
  refine (closed_of_plain ?_).append (closed_commentLine hnewline)
  unfold undefText
  cases s.invocations <;> decide

theorem closed_marked : Closed s.marked := by
  have hbrace : Closed [('\x7d', Zone.code)] :=
    closed_of_plain (show ∀ c ∈ ['\x7d'], IsPlain c by decide)
  have hrest := h.closed_body.append (hbrace.append h.closed_ending)
  exact h.closed_front.append (h.closed_declaration.append hrest)

theorem mark_plain : mark (plain s.marked) = s.marked := h.closed_marked.mark_plain

/-! ## Fences -/

omit h in
/-- The comment before the definitions keeps readers from what stands before it. -/
theorem plain_prologue : ∃ a, plain s.prologue = a ++ '/' :: ('/' :: (sectionText ++ ['\n'])) ∧
    a = '/' :: '/' :: s.titleText ++
      ('\n' :: ('/' :: '/' :: s.bannerText ++ ('\n' :: ('/' :: '/' :: s.countText ++
      ('\n' :: s.guardText))))) := by
  refine ⟨_, ?_, rfl⟩
  simp [prologue, plain_commentLine]

omit h in
theorem fenced_prologue {p : Char → Bool} {first : Char} (hp : p '/' = false)
    (hfirst : first ∉ '/' :: (sectionText ++ ['\n'])) :
    Fenced p first (plain s.prologue) := by
  obtain ⟨a, hplain, -⟩ := @plain_prologue s
  exact ⟨a, '/', _, hplain, hp, hfirst⟩

theorem quiet_prologue : Quiet macroDefinition? (plain s.prologue) := by
  obtain ⟨a, hplain, rfl⟩ := @plain_prologue s
  have htitle := @notMem_titleText s '"' (.inr rfl)
  have hbanner := h.notMem_bannerText (c := '"') (.inr rfl)
  have hcount := @notMem_countText s '"' (.inr rfl)
  have hguard : '"' ∉ s.guardText := fun hmem => (h.isPlain_guardText '"' hmem).2.1 rfl
  rw [hplain]
  refine quiet_of_fence ?_ (by decide) (by decide) (by decide)
  simp only [List.cons_append, List.mem_cons, List.mem_append, not_or]
  exact ⟨by decide, by decide, htitle, by decide, by decide, by decide,
    hbanner, by decide, by decide, by decide, hcount,
    by decide, hguard⟩

theorem fenced_macro {piece : List Marked} (hpiece : piece ∈ s.macros) {p : Char → Bool}
    {first : Char} (hp : p ';' = false)
    (hfirst : first ≠ '\n') : Fenced p first (plain (piece ++ [('\n', .code)])) := by
  obtain ⟨name, bodies, hdefines⟩ := h.macros piece hpiece
  obtain ⟨a, ha⟩ := List.getLast?_eq_some_iff.mp hdefines.last
  exact ⟨plain a, ';', ['\n'], by rw [ha]; simp, hp, by simpa using hfirst⟩

theorem fenced_front (hinvocations : s.invocations = false) {p : Char → Bool} {first : Char}
    (hslash : p '/' = false)
    (hsemicolon : p ';' = false) (hnewline : first ≠ '\n')
    (hfirst : first ∉ '/' :: (sectionText ++ ['\n'])) :
    Fenced p first (plain s.front) := by
  have hmacros : ∀ macros : List (List Marked), (∀ piece ∈ macros, piece ∈ s.macros) →
      Fenced p first (plain s.prologue ++ plain (macros.flatMap (· ++ [('\n', .code)]))) := by
    intro macros
    induction macros using List.reverseRecOn with
    | nil =>
      intro _
      simpa using fenced_prologue hslash hfirst
    | append_singleton macros piece _ =>
      intro hall
      rw [List.flatMap_append, List.flatMap_singleton, plain_append, ← List.append_assoc]
      exact (h.fenced_macro (hall piece (by simp)) hsemicolon hnewline).behind _
  have htext : s.invocationText = ['\n'] := by unfold invocationText; rw [hinvocations]; rfl
  rw [front, plain_append, plain_append, plain_inZone, htext, ← List.append_assoc]
  exact (hmacros s.macros fun _ hpiece => hpiece).before (by simpa using hnewline)

/-! ## Pieces without heads -/

omit h in
theorem notMem_commentLine {c : Char} (hc : c ≠ '\n') (text : List Char) :
    (c, Zone.code) ∉ commentLine text := by
  simp [commentLine, inZone, hc]

section
variable {α : Type} {read : Reader α} {p : Char → Bool} {first last : Char}
    (hreads : ReadsHead read p first last)
  (hlast : last = '(' ∨ last = '\x7b')
include hreads hlast

theorem unread_prologue (hp : p '/' = false) (hfirst : first ∉ '/' :: (sectionText ++ ['\n'])) :
    Unread read s.prologue := by
  refine hreads.unread h.closed_prologue (fenced_prologue hp hfirst) ?_
  have hnewline : last ≠ '\n' := by rcases hlast with rfl | rfl <;> decide
  have hguard : last ∉ s.guardText := by
    have hname : last ∉ s.guardName :=
      notMem_of_isWord h.guardName (by rcases hlast with rfl | rfl <;> decide)
    unfold guardText
    simp only [List.mem_append, not_or]
    rcases hlast with rfl | rfl <;> exact ⟨⟨⟨⟨by decide, hname⟩, by decide⟩,
      hname⟩, by decide⟩
  simp only [prologue, List.mem_append, not_or]
  exact ⟨notMem_commentLine hnewline _, notMem_commentLine hnewline _, notMem_commentLine hnewline _,
    notMem_inZone hguard, notMem_commentLine hnewline _⟩

theorem unread_macroSection (hp : p ';' = false) (hfirst : first ≠ '\n') :
    Unread read s.macroSection := by
  refine unread_flatMap fun piece hpiece => ?_
  obtain ⟨name, bodies, hdefines⟩ := h.macros piece hpiece
  have hclosed : Closed (piece ++ [('\n', Zone.code)]) :=
    hdefines.closed.append (closed_of_plain (show ∀ c ∈ ['\n'], IsPlain c by decide))
  refine hreads.unread hclosed (h.fenced_macro hpiece hp hfirst) fun hmem => ?_
  rcases List.mem_append.mp hmem with hmem | hmem
  · rcases hdefines.code _ hmem rfl with hc | hc
    · rcases hlast with rfl | rfl <;> cases hc
    · rcases hlast with rfl | rfl <;> exact absurd hc (by decide)
  · rcases hlast with rfl | rfl <;> simp at hmem

end

end Sheet.Fits

end FirmwareCatalog.ThinLibrary
