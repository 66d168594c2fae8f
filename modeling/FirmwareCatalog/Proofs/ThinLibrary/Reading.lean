import FirmwareCatalog.Proofs.Header.Element
import FirmwareCatalog.Proofs.ThinLibrary.Sheet

/-!
# Reading a thin library

Of the pieces of a thin library only its definitions are read as string macros,
only its entries as invocations, and its array as the declaration of its
entries.
-/

namespace FirmwareCatalog.ThinLibrary.Sheet.Fits

open Character Header

variable {s : Sheet} (h : s.Fits)

/-! ## String macros -/

theorem unread_of_first {text : List Char} (htext : 's' ∉ text) :
    Unread macroDefinition? (inZone .code text) :=
  Quiet.unread (by rw [plain_inZone]; exact quiet_of_first htext)

theorem unread_commentLine {α : Type} {read : Reader α} {text : List Char}
    (hnewline : Quiet read ['\n']) :
    Unread read (commentLine text) := by
  refine Unread.append (unread_of_noCode fun m hm => ?_) (Quiet.unread hnewline)
  obtain ⟨c, -, rfl⟩ := List.mem_map.mp hm
  exact Zone.noConfusion

theorem unread_invocationText : Unread macroDefinition? (inZone .code s.invocationText) := by
  refine Quiet.unread ?_
  rw [plain_inZone]
  have hplain := @isPlain_invocationText s
  unfold invocationText at hplain ⊢
  cases hinvocations : s.invocations with
  | false => exact quiet_of_first (by decide)
  | true =>
    rw [hinvocations] at hplain
    have htext : '\n' :: (definitionText ++ ['\n']) =
        ('\n' :: ("#define X_SENSOR(".toList ++ (paramText ++
        (") \\\n    \x7b ".toList ++ (paramText ++ " \x7d".toList))))) ++ ',' :: ['\n', '\n'] := by
      unfold definitionText
      simp
    simp only [if_true] at hplain ⊢
    rw [htext] at hplain ⊢
    refine quiet_of_fence (fun hmem => ?_) (by decide) (by decide) (by decide)
    exact (hplain '"' (List.mem_append_left _ hmem)).2.1 rfl

include h

theorem unread_declaration :
    Unread macroDefinition? (inZone .code (declaration s.elementType s.arrayName)) := by
  refine Quiet.unread ?_
  rw [plain_inZone]
  have hchars := h.isHead_declaration.chars
  have htext : declaration s.elementType s.arrayName =
      ("static const PROGMEM ".toList ++ (s.elementType ++ (" ".toList ++
      (s.arrayName ++ "[] = ".toList)))) ++ '\x7b' :: [] := by
    unfold declaration
    simp
  rw [htext] at hchars ⊢
  refine quiet_of_fence (fun hmem => ?_) (by decide) (by decide) (by decide)
  exact absurd (hchars '"' (List.mem_append_left _ hmem)) (by decide)

omit h in
theorem unread_body (hentries : ∀ entry ∈ s.entries, Unread macroDefinition? entry) :
    Unread macroDefinition? s.body := by
  refine (unread_of_first (by decide)).append (unread_flatMap fun entry hentry => ?_)
  refine (unread_of_first (by decide)).append
    ((hentries entry hentry).append (unread_of_first ?_))
  unfold entryEnd
  cases s.invocations <;> decide

omit h in
theorem unread_ending : Unread macroDefinition? s.ending := by
  refine (unread_of_first ?_).append (unread_commentLine (quiet_of_first (by decide)))
  unfold undefText
  cases s.invocations <;> decide

omit h in
theorem definitionsAlong_macroSection (rest : List Marked) {macros : List (List Marked)}
    {definitions : List ((List Char × List (List Char)) × List Char)}
    (hmacros : List.Forall₂ (fun piece d => Defines piece d.1.1 d.1.2 ∧ plain piece =
      d.2) macros definitions) :
    ∀ before, ∃ after, definitionsAlong before (macros.flatMap (· ++ [('\n', .code)]) ++ rest) =
      definitions ++ definitionsAlong after rest := by
  induction hmacros with
  | nil => exact fun before => ⟨before, rfl⟩
  | @cons piece d macros definitions hpiece _ ih =>
    intro before
    obtain ⟨⟨name, bodies⟩, text⟩ := d
    obtain ⟨hdefines, rfl⟩ := hpiece
    obtain ⟨after, hafter⟩ := ih (behind (behind before (plain piece)) (plain [('\n', .code)]))
    refine ⟨after, ?_⟩
    rw [List.flatMap_cons, List.append_assoc, List.append_assoc, hdefines.definitionsAlong,
      definitionsAlong_of_quiet (quiet_of_first (by decide)), hafter]
    rfl

section
variable {definitions : List ((List Char × List (List Char)) × List Char)}
  (hmacros : List.Forall₂ (fun piece d => Defines piece d.1.1 d.1.2 ∧ plain piece = d.2) s.macros
    definitions)
include hmacros

theorem definitionsAlong_of_unread_rest {rest : List Marked} (hrest : Unread macroDefinition? rest) :
    definitionsAlong none (s.prologue ++ (s.macroSection ++ rest)) = definitions := by
  obtain ⟨after, hafter⟩ := definitionsAlong_macroSection rest hmacros (behind none (plain s.prologue))
  rw [definitionsAlong_of_unread hrest, List.append_nil] at hafter
  rw [definitionsAlong_of_quiet h.quiet_prologue]
  exact hafter

/-- The string macros before the array are those that the section of macros defines. -/
theorem definitionsAlong_front : definitionsAlong none s.front = definitions :=
  h.definitionsAlong_of_unread_rest hmacros unread_invocationText

theorem definitionsAlong_marked (hentries : ∀ entry ∈ s.entries, Unread macroDefinition? entry) :
    definitionsAlong none s.marked = definitions := by
  have hbrace : Unread macroDefinition? [('\x7d', Zone.code)] :=
    unread_of_first (show 's' ∉ ['\x7d'] by decide)
  have hrest := (@unread_invocationText s).append
    (h.unread_declaration.append ((unread_body hentries).append
    (hbrace.append (@unread_ending s))))
  rw [marked, front, List.append_assoc, List.append_assoc]
  exact h.definitionsAlong_of_unread_rest hmacros hrest

end

/-! ## The array -/

theorem unread_front {α : Type} {read : Reader α} {p : Char → Bool} {first last : Char}
    (hreads : ReadsHead read p first last)
    (hlast : last = '(' ∨ last = '\x7b') (hslash : p '/' = false) (hsemicolon : p ';' = false)
    (hnewline : first ≠ '\n')
    (hfirst : first ∉ '/' :: (sectionText ++ ['\n'])) (hinvocations : s.invocations = false) :
    Unread read s.front := by
  have htext : s.invocationText = ['\n'] := by unfold invocationText; rw [hinvocations]; rfl
  refine (h.unread_prologue hreads hlast hslash hfirst).append
    ((h.unread_macroSection hreads hlast hsemicolon hnewline).append ?_)
  refine Quiet.unread (hreads.quiet ?_)
  rw [plain_inZone, htext]
  simpa using hnewline

omit h in
theorem balanced_body (hbalanced : ∀ entry ∈ s.entries, Balanced '\x7b' '\x7d' entry) :
    Balanced '\x7b' '\x7d' s.body := by
  have hgap {text : List Char} (htext : ∀ c ∈ text, c ≠ '\x7d' ∧ c ≠ '\x7b') :
      Balanced '\x7b' '\x7d' (inZone .code text) := by
    refine balanced_of_neutral fun m hm _ => ?_
    obtain ⟨c, hc, rfl⟩ := List.mem_map.mp hm
    exact htext c hc
  have hentries : ∀ entries : List (List Marked), (∀ entry ∈ entries, entry ∈ s.entries) →
      Balanced '\x7b' '\x7d' (entries.flatMap s.entryLine) := by
    intro entries
    induction entries with
    | nil => exact fun _ => balanced_nil
    | cons entry entries ih =>
      intro hall
      obtain ⟨hentry, hall⟩ := List.forall_mem_cons.mp hall
      refine Balanced.append
        ((hgap (by decide)).append ((hbalanced entry hentry).append (hgap ?_))) (ih hall)
      unfold entryEnd
      cases s.invocations <;> decide
  exact (hgap (by decide)).append (hentries s.entries fun _ hentry => hentry)

theorem structArray?_marked (hinvocations : s.invocations = false)
    (hbalanced : ∀ entry ∈ s.entries, Balanced '\x7b' '\x7d' entry) :
    structArray? s.arrayName (plain s.marked) = some ⟨s.elementType, plain s.body⟩ := by
  have hreads := readsHead_arrayHead? h.arrayName.2
  have hfront := h.unread_front hreads (.inr rfl) (by decide) (by decide)
    (by decide) (by decide)
    hinvocations
  have hfenced : Fenced isHeadChar 's' (plain s.front) :=
    h.fenced_front hinvocations (by decide) (by decide) (by decide) (by decide)
  exact structArray?_of_declaration h.arrayName.2 h.arrayName.1 h.elementType.2 h.elementType.1
    h.mark_plain hfront hfenced
    ((balanced_body hbalanced).splitClosing s.ending)

omit h in
theorem blocksFrom_gap {text : List Char} (htext : ∀ c ∈ text, c ≠ '\x7d' ∧ c ≠ '\x7b')
    (rest : List Marked) :
    blocksFrom none (pieces (inZone .code text ++ rest)) = blocksFrom none (pieces rest) := by
  induction text with
  | nil => rfl
  | cons c text ih =>
    obtain ⟨hc, htext⟩ := List.forall_mem_cons.mp htext
    have hopen : (c, Zone.code) ≠ ('\x7b', .code) := fun he => hc.2 (congrArg Prod.fst he)
    rw [show inZone .code (c :: text) ++ rest = (c, .code) :: (inZone .code text ++ rest) from rfl,
      pieces_other rfl hopen,
      blocksFrom]
    exact ih htext

theorem arrayElements_body {blocks : List RawBlock}
    (hentries : List.Forall₂ IsElement s.entries blocks) :
    arrayElements (plain s.body) = blocks := by
  have hend : ∀ c ∈ s.entryEnd, c ≠ '\x7d' ∧ c ≠ '\x7b' := by
    unfold entryEnd
    cases s.invocations <;> decide
  have hlines : ∀ {entries : List (List Marked)} {blocks : List RawBlock},
      List.Forall₂ IsElement entries blocks →
      blocksFrom none (pieces (entries.flatMap s.entryLine)) = blocks := by
    intro entries blocks hall
    induction hall with
    | nil => simp [pieces, blocksFrom]
    | @cons entry block entries blocks hentry _ ih =>
      rw [List.flatMap_cons, entryLine, List.append_assoc, List.append_assoc,
        blocksFrom_gap (by decide), hentry.reads,
        blocksFrom_gap hend, ih]
  rw [arrayElements, h.closed_body.mark_plain, body, blocksFrom_gap (by decide), hlines hentries]

/-! ## Invocations -/

omit h in
theorem blocksAlong_gap {text : List Char} (htext : 'X' ∉ text) (before : Option Char)
    (rest : List Marked) :
    blocksAlong .sensor before (inZone .code text ++ rest) = blocksAlong .sensor
      (behind before text) rest := by
  have hplain : 'X' ∉ plain (inZone .code text) := by rwa [plain_inZone]
  rw [blocksAlong_of_notMem isMacroName_sensor hplain, plain_inZone]

omit h in
theorem inZone_append (zone : Zone) (a b : List Char) :
    inZone zone (a ++ b) = inZone zone a ++ inZone zone b :=
  List.map_append

omit h in
theorem balanced_paramText : Balanced '(' ')' (inZone .code paramText) := by
  refine balanced_of_neutral fun m hm _ => ?_
  obtain ⟨c, hc, rfl⟩ := List.mem_map.mp hm
  have hall : ∀ c ∈ paramText, c ≠ ')' ∧ c ≠ '(' := by
    unfold paramText
    rw [String.toList_append, String.toList_ofList, String.toList_ofList]
    decide +kernel
  exact hall c hc

omit h in
theorem invocationBlock?_paramText :
    invocationBlock? .sensor (openingOf InvocationForm.sensor.macroName.toList []) paramText =
      none := by
  unfold paramText
  rw [String.toList_append, String.toList_ofList, String.toList_ofList]
  unfold invocationBlock?
  simp only
  rw [if_neg]
  decide

omit h in
theorem blocksAlong_definitionText (before : Option Char) (rest : List Marked) :
    blocksAlong .sensor before (inZone .code definitionText ++ rest) = blocksAlong .sensor
      (some '\n') rest := by
  have hparam : 'X' ∉ paramText := by
    unfold paramText
    rw [String.toList_append, String.toList_ofList, String.toList_ofList]
    decide
  have htail : 'X' ∉ "_SENSOR(".toList ++
      (paramText ++ (") \\\n    \x7b ".toList ++ (paramText ++ " \x7d,\n".toList))) := by
    simp only [List.mem_append, not_or]
    exact ⟨by decide, hparam, by decide, hparam, by decide⟩
  have hhead :
      headBlock? .sensor (some ' ')
      (('X', .code) :: (inZone .code ("_SENSOR(".toList ++ (paramText ++
      (") \\\n    \x7b ".toList ++ (paramText ++ " \x7d,\n".toList)))) ++ rest)) = none := by
    have hopening := headBlock?_opening isMacroName_sensor (show ∀ c ∈ [], isBlank c = true by simp)
      (show isWordEdge (some ' ') (some 'X') = true by decide)
      (inZone .code paramText ++
        (')', .code) :: (inZone .code (" \\\n    \x7b ".toList ++
        (paramText ++ " \x7d,\n".toList)) ++ rest))
    rw [balanced_paramText.splitClosing, Option.bind_some] at hopening
    simp only [plain_inZone, invocationBlock?_paramText] at hopening
    rw [← hopening]
    simp only [inZone_append, List.append_assoc]
    rfl
  have htext : definitionText = "#define ".toList ++ 'X' :: ("_SENSOR(".toList ++
      (paramText ++ (") \\\n    \x7b ".toList ++
      (paramText ++ " \x7d,\n".toList)))) := rfl
  rw [htext, inZone_append, List.append_assoc, blocksAlong_gap (by decide)]
  show blocksAlong .sensor (some ' ') (('X', .code) :: (inZone .code _ ++ rest)) = _
  rw [blocksAlong, hhead, blocksAlong_gap htail]
  simp only [behind_append]
  rfl

omit h in
theorem blocksAlong_invocationText (before : Option Char) (rest : List Marked) :
    ∃ after, blocksAlong .sensor before (inZone .code s.invocationText ++ rest) =
      blocksAlong .sensor after rest := by
  unfold invocationText
  cases s.invocations with
  | false => exact ⟨_, blocksAlong_gap (show 'X' ∉ ['\n'] by decide) before rest⟩
  | true =>
    have htext : '\n' :: (definitionText ++ ['\n']) = ['\n'] ++ (definitionText ++ ['\n']) := rfl
    simp only [if_true]
    rw [htext, inZone_append, inZone_append, List.append_assoc, List.append_assoc,
      blocksAlong_gap (by decide),
      blocksAlong_definitionText, blocksAlong_gap (by decide)]
    exact ⟨_, rfl⟩

theorem unread_declaration_invocationHead? :
    Unread (invocationHead? InvocationForm.sensor.macroName.toList)
      (inZone .code (declaration s.elementType s.arrayName)) := by
  have htext : declaration s.elementType s.arrayName =
      ("static const PROGMEM ".toList ++ (s.elementType ++ (" ".toList ++
      s.arrayName))) ++ '[' :: "] = \x7b".toList := by
    unfold declaration
    simp
  have hopen : '(' ∉ declaration s.elementType s.arrayName := by
    have htype := notMem_of_isWord h.elementType.2 (d := '(') (by decide)
    have hname := notMem_of_isWord h.arrayName.2 (d := '(') (by decide)
    unfold declaration
    simp only [List.mem_append, not_or]
    exact ⟨by decide, htype, by decide, hname, by decide⟩
  refine (readsHead_invocationHead? isMacroName_sensor).unread h.closed_declaration ?_
    (notMem_inZone hopen)
  rw [plain_inZone, htext]
  exact ⟨_, '[', _, rfl, by decide, by decide⟩

omit h in
theorem unread_ending_invocationHead? :
    Unread (invocationHead? InvocationForm.sensor.macroName.toList) s.ending := by
  have hreads := readsHead_invocationHead? isMacroName_sensor
  refine Unread.append ?_ (unread_commentLine (hreads.quiet (by decide)))
  have hclosed : Closed (inZone .code s.undefText) := by
    refine closed_of_plain ?_
    unfold undefText
    cases s.invocations <;> decide
  refine hreads.unread hclosed ?_ (notMem_inZone ?_)
  · rw [plain_inZone]
    refine ⟨";\n".toList ++ (if s.invocations then "\n#undef X_SENSOR\n".toList else []) ++ ['\n'],
      '#', "endif ".toList, ?_,
      by decide, by decide⟩
    unfold undefText
    rw [List.append_assoc, List.append_assoc, List.append_assoc]
    rfl
  · unfold undefText
    cases s.invocations <;> decide

def Lists (entry : List Marked) (blocks : List RawBlock) : Prop :=
  ∀ text, ∃ after, blocksAlong .sensor (some ' ') (entry ++ mark text) = blocks ++
    blocksAlong .sensor after (mark text)

omit h in
theorem blocksAlong_entries {entries : List (List Marked)} {lists : List (List RawBlock)}
    (hlists : List.Forall₂ Lists entries lists) (hclosed : ∀ entry ∈ entries, Closed entry) :
    ∀ before text,
      ∃ after, blocksAlong .sensor before (entries.flatMap s.entryLine ++ mark text) =
        lists.flatten ++ blocksAlong .sensor after (mark text) := by
  induction hlists with
  | nil => exact fun before text => ⟨before, rfl⟩
  | @cons entry blocks entries lists hentry _ ih =>
    intro before text
    obtain ⟨-, hclosed⟩ := List.forall_mem_cons.mp hclosed
    have hend : ∀ c ∈ s.entryEnd, c ≠ 'X' ∧ IsPlain c := by
      unfold entryEnd
      cases s.invocations <;> decide
    have hrest : Closed (inZone .code s.entryEnd ++ entries.flatMap s.entryLine) :=
      (closed_of_plain fun c hc => (hend c hc).2).append
        (closed_flatMap fun e he => closed_entryLine (hclosed e he))
    obtain ⟨after, hafter⟩ :=
      hentry (plain (inZone .code s.entryEnd ++ entries.flatMap s.entryLine) ++ text)
    obtain ⟨last, hlast⟩ := ih hclosed (behind after s.entryEnd) text
    refine ⟨last, ?_⟩
    rw [hrest text, List.append_assoc, blocksAlong_gap fun hmem => (hend _ hmem).1 rfl,
      hlast] at hafter
    rw [List.flatMap_cons, entryLine, List.append_assoc, List.append_assoc, List.append_assoc,
      blocksAlong_gap (by decide), List.flatten_cons, List.append_assoc]
    exact hafter

theorem blocksAlong_marked {lists : List (List RawBlock)}
    (hlists : List.Forall₂ Lists s.entries lists) :
    blocksAlong .sensor none s.marked = lists.flatten := by
  have hreads := readsHead_invocationHead? isMacroName_sensor
  have hprologue := h.unread_prologue hreads (.inl rfl) (by decide) (by decide)
  have hmacros := h.unread_macroSection hreads (.inl rfl) (by decide) (by decide)
  have hbrace : Closed (('\x7d', Zone.code) :: s.ending) :=
    (closed_of_plain (show ∀ c ∈ ['\x7d'], IsPlain c by decide)).append h.closed_ending
  have hending (before : Option Char) :
      blocksAlong .sensor before (('\x7d', .code) :: s.ending) = [] := by
    have := @blocksAlong_of_unread .sensor _ (@unread_ending_invocationHead? s)
      (behind before ['\x7d']) []
    rw [List.append_nil] at this
    exact (blocksAlong_gap (show 'X' ∉ ['\x7d'] by decide) before s.ending).trans this
  rw [marked, front, List.append_assoc, List.append_assoc, blocksAlong_of_unread hprologue,
    blocksAlong_of_unread hmacros]
  obtain ⟨after, hafter⟩ := blocksAlong_invocationText (s := s)
    (behind (behind none (plain s.prologue)) (plain s.macroSection))
    (inZone .code (declaration s.elementType s.arrayName) ++ (s.body ++ ('\x7d', .code) :: s.ending))
  obtain ⟨last, hlast⟩ :=
    blocksAlong_entries (s := s) hlists h.entries (some '\n') (plain (('\x7d', .code) :: s.ending))
  rw [hbrace.mark_plain, hending, List.append_nil] at hlast
  rw [hafter, blocksAlong_of_unread h.unread_declaration_invocationHead?, body, List.append_assoc,
    blocksAlong_gap (by decide)]
  exact hlast

end FirmwareCatalog.ThinLibrary.Sheet.Fits
