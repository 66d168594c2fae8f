import FirmwareCatalog.Header.Include
import FirmwareCatalog.Proofs.Header.Scan
import FirmwareCatalog.Proofs.Header.Token
import FirmwareCatalog.Proofs.Header.Zone

/-!
# Includes and lines

The target of an include runs to the next quote, over line ends too. Where every
include that can be read closes its quote on the line of its number sign, the
targets of a text are those that its lines have for themselves.
-/

namespace FirmwareCatalog.Header

open Character

/-! ## Directives -/

theorem includeDirective?_otherPlace {before : Option Char} (h : startsLine before = false) (cs : List Char) :
    includeDirective? before cs = none := by
  simp [includeDirective?, h]

theorem includeDirective?_lineStart {before : Option Char} (h : startsLine before = true) (cs : List Char) :
    includeDirective? before cs = (text? "#" (skipBlanks cs)).bind fun cs =>
      (text? "include" (skipBlanks cs)).bind fun cs => (someBlanks? cs).bind fun cs => (text? "\"" cs).bind fun cs =>
        (someOf? (· ≠ '"') cs).bind fun p => (text? "\"" p.2).bind fun cs => some (p.1, cs) := by
  simp [includeDirective?, h]

/-- A directive is read at the start of a line, behind any blanks and in front of anything. -/
theorem exists_of_includeDirective? {before : Option Char} {cs target rest : List Char}
    (h : includeDirective? before cs = some (target, rest)) :
    startsLine before = true ∧ ∃ blanks core, cs = blanks ++ (core ++ rest) ∧
      (∀ c ∈ blanks, isBlank c = true) ∧ core.head? = some '#' ∧
      ∀ before' blanks' rest', startsLine before' = true → (∀ c ∈ blanks', isBlank c = true) →
        includeDirective? before' (blanks' ++ (core ++ rest')) = some (target, rest') := by
  have hbefore : startsLine before = true := by
    by_contra hno
    rw [includeDirective?_otherPlace (by simpa using hno)] at h
    cases h
  rw [includeDirective?_lineStart hbefore] at h
  simp only [Option.bind_eq_some_iff, Option.some.injEq, Prod.mk.injEq, Prod.exists, text?_eq_some_iff] at h
  obtain ⟨cs₁, h₁, cs₂, h₂, cs₃, h₃, cs₄, rfl, word, cs₅, h₅, cs₆, rfl, rfl, rfl⟩ := h
  obtain ⟨b₁, hcs, hb₁, -⟩ := exists_skipBlanks cs
  obtain ⟨b₂, hcs₁, hb₂, -⟩ := exists_skipBlanks cs₁
  obtain ⟨b₃, hne, rfl, hb₃, -⟩ := someBlanks?_eq_some h₃
  obtain ⟨rfl, hword, hchars, -⟩ := someOf?_eq_some h₅
  refine ⟨hbefore, b₁,
    "#".toList ++ (b₂ ++ ("include".toList ++ (b₃ ++ ("\"".toList ++ (word ++ "\"".toList))))),
    ?_, hb₁, rfl, ?_⟩
  · rw [hcs, h₁, hcs₁, h₂]
    simp only [List.append_assoc]
  · intro before' blanks' rest' hbefore' hblanks'
    have quoted : someOf? (· ≠ '"') (word ++ ("\"".toList ++ rest')) = some (word, "\"".toList ++ rest') :=
      someOf?_append hchars (by simp) hword
    rw [includeDirective?_lineStart hbefore']
    simp only [List.append_assoc]
    rw [text?_skipBlanks hblanks' (by decide), Option.bind_some, text?_skipBlanks hb₂ (by decide), Option.bind_some,
      someBlanks?_text hb₃ (by decide) _ hne, Option.bind_some, text?_append, Option.bind_some, quoted,
      Option.bind_some, text?_append, Option.bind_some]

theorem consumes_includeDirective? : Consumes includeDirective? := by
  intro before text target rest h
  obtain ⟨-, blanks, core, rfl, -, hfirst, -⟩ := exists_of_includeDirective? h
  refine ⟨blanks ++ core, ?_, by simp⟩
  rintro hnil
  rw [(List.append_eq_nil_iff.mp hnil).2] at hfirst
  cases hfirst

theorem skipBlanks_core {blanks core : List Char} (hblanks : ∀ c ∈ blanks, isBlank c = true)
    (hfirst : core.head? = some '#') : skipBlanks (blanks ++ core) = core := by
  apply skipBlanks_append hblanks
  intro c hc
  obtain rfl : '#' = c := by simpa [hfirst] using hc
  decide

theorem includeDirective?_blanks {blanks : List Char} (h : ∀ c ∈ blanks, isBlank c = true) (before : Option Char) :
    includeDirective? before blanks = none := by
  by_contra hsome
  obtain ⟨⟨target, rest⟩, hread⟩ := Option.ne_none_iff_exists'.mp hsome
  obtain ⟨-, b, core, rfl, -, hfirst, -⟩ := exists_of_includeDirective? hread
  have hmem : '#' ∈ core := List.mem_of_mem_head? hfirst
  have hblank := h '#' (by simp [hmem])
  revert hblank
  decide

/-! ## Targets along a text -/

/-- The targets whose closing quote ends a string. -/
def targetsAlong (before : Option Char) (marked : List Marked) : List (List Char) :=
  ((scanFrom includeDirective? 0 before 0 (plain marked)).filter fun m =>
    zoneAt? marked (m.stop - 1) = some .string).map (·.value)

theorem includeTargets_eq (text : List Char) : includeTargets text = targetsAlong none (mark text) := by
  rw [targetsAlong, plain_mark]
  rfl

section
variable {before : Option Char} {piece rest : List Marked}

theorem targetsAlong_behind :
    ((scanFrom includeDirective? (plain piece).length (behind before (plain piece)) 0 (plain rest)).filter
        fun m => zoneAt? (piece ++ rest) (m.stop - 1) = some .string).map (·.value) =
      targetsAlong (behind before (plain piece)) rest := by
  have hshift := @scanFrom_shift _ includeDirective? (plain piece).length (plain rest) 0 (behind before (plain piece)) 0
  rw [Nat.add_zero] at hshift
  rw [hshift, List.filter_map, List.map_map, targetsAlong, length_plain]
  congr 1
  apply List.filter_congr
  intro m hm
  obtain ⟨x, rest', -, -, hread⟩ := exists_of_mem_scanFrom consumes_includeDirective? hm
  obtain ⟨taken, hne, htaken⟩ := consumes_includeDirective? hread
  have hpos : 0 < m.text.length := by
    rw [List.append_cancel_right htaken]
    exact List.length_pos_iff.mpr hne
  have hstop : (m.shift piece.length).stop - 1 = piece.length + (m.stop - 1) := by
    simp only [Match.stop, Match.shift]
    omega
  simp only [Function.comp_def, hstop, zoneAt?, List.getElem?_append_right (Nat.le_add_right _ _),
    Nat.add_sub_cancel_left]
  rfl

theorem targetsAlong_pass (h : ∀ a c b, plain piece = a ++ c :: b →
    includeDirective? (behind before a) (c :: b ++ plain rest) = none) :
    targetsAlong before (piece ++ rest) = targetsAlong (behind before (plain piece)) rest := by
  rw [targetsAlong, plain_append, scanFrom_pass h, Nat.zero_add]
  exact targetsAlong_behind

theorem targetsAlong_match {target : List Char} (hne : piece ≠ [])
    (h : includeDirective? before (plain piece ++ plain rest) = some (target, plain rest)) :
    targetsAlong before (piece ++ rest) =
      (if piece.getLast?.map (·.2) = some .string then [target] else []) ++
        targetsAlong (behind before (plain piece)) rest := by
  have hne' : plain piece ≠ [] := by simpa [plain] using hne
  have hzone : zoneAt? (piece ++ rest) (0 + (plain piece).length - 1) = piece.getLast?.map (·.2) := by
    have hpos := List.length_pos_iff.mpr hne
    rw [Nat.zero_add, length_plain, zoneAt?, List.getElem?_append_left (by omega), List.getLast?_eq_getElem?]
  rw [targetsAlong, plain_append, scanFrom_match 0 hne' h, List.filter_cons, ← targetsAlong_behind, Nat.zero_add]
  simp only [Match.stop, hzone, decide_eq_true_eq]
  split <;> rfl

theorem targetsAlong_begun (hbefore : startsLine before = false) (hpiece : '\n' ∉ plain piece) :
    targetsAlong before (piece ++ rest) = targetsAlong (behind before (plain piece)) rest := by
  apply targetsAlong_pass
  intro a c b hsplit
  apply includeDirective?_otherPlace
  cases a with
  | nil => exact hbefore
  | cons d a =>
    apply startsLine_behind_of_notMem (List.cons_ne_nil d a)
    exact fun hmem => hpiece (hsplit ▸ List.mem_append_left _ hmem)

end

/-! ## Lines -/

/-- The target of the include that a line has for itself, if its closing quote ends a string. -/
def lineTarget? (line : List Marked) : Option (List Char) :=
  match includeDirective? none (plain line) with
  | none => none
  | some (target, rest) =>
    if (line.take (line.length - rest.length)).getLast?.map (·.2) = some .string then some target else none

def lineTargets (text : List Char) : List (List Char) :=
  ((mark text).splitOnP fun m => m.1 = '\n').filterMap lineTarget?

/-- Every include that can be read closes its quote on the line of its number sign. -/
def includesOnLines : (before : Option Char) → List Char → Bool
  | _, [] => true
  | before, c :: cs =>
    (includeDirective? before (c :: cs)).all (fun p =>
        !(skipBlanks ((c :: cs).take (cs.length + 1 - p.2.length))).contains '\n') &&
      includesOnLines (some c) cs

theorem notMem_of_includesOnLines {before : Option Char} {taken rest target : List Char}
    (h : includesOnLines before (taken ++ rest) = true)
    (hread : includeDirective? before (taken ++ rest) = some (target, rest)) : '\n' ∉ skipBlanks taken := by
  cases hcs : taken ++ rest with
  | nil =>
    obtain ⟨rfl, -⟩ := List.append_eq_nil_iff.mp hcs
    simp [skipBlanks]
  | cons c cs =>
    have htake : (c :: cs).take (cs.length + 1 - rest.length) = taken := by
      rw [← List.length_cons (a := c), ← hcs, List.length_append, Nat.add_sub_cancel]
      exact List.take_left
    rw [hcs] at h hread
    rw [includesOnLines, hread, Option.all_some, htake, Bool.and_eq_true] at h
    simpa using h.1

theorem includesOnLines_behind :
    ∀ {a b : List Char} {before : Option Char}, includesOnLines before (a ++ b) = true →
    includesOnLines (behind before a) b = true
  | [], _, _, h => h
  | c :: a, b, before, h => by
    rw [List.cons_append, includesOnLines, Bool.and_eq_true] at h
    rw [behind_cons]
    exact includesOnLines_behind h.2

section
variable {before : Option Char} {line rest : List Marked}

theorem targetsAlong_silentLine (hbefore : startsLine before = true) (hline : '\n' ∉ plain line)
    (h : includeDirective? before (plain line ++ plain rest) = none) :
    targetsAlong before (line ++ rest) =
      (lineTarget? line).toList ++ targetsAlong (behind before (plain line)) rest := by
  have hnone : includeDirective? none (plain line) = none := by
    by_contra hsome
    obtain ⟨⟨target, r⟩, hread⟩ := Option.ne_none_iff_exists'.mp hsome
    obtain ⟨-, blanks, core, hplain, hblanks, -, hreads⟩ := exists_of_includeDirective? hread
    rw [hplain, List.append_assoc, List.append_assoc, hreads before blanks _ hbefore hblanks] at h
    cases h
  have hsilent : lineTarget? line = none := by simp only [lineTarget?, hnone]
  rw [hsilent, Option.toList_none, List.nil_append]
  apply targetsAlong_pass
  intro a c b hsplit
  cases a with
  | nil =>
    rw [hsplit] at h
    exact h
  | cons d a =>
    apply includeDirective?_otherPlace
    apply startsLine_behind_of_notMem (List.cons_ne_nil d a)
    exact fun hmem => hline (hsplit ▸ List.mem_append_left _ hmem)

theorem targetsAlong_includeLine {blanks core r target : List Char} (hbefore : startsLine before = true)
    (hline : '\n' ∉ plain line) (hplain : plain line = blanks ++ (core ++ r)) (hfirst : core.head? = some '#')
    (hreads : ∀ before rest, startsLine before = true →
      includeDirective? before (blanks ++ (core ++ rest)) = some (target, rest)) :
    targetsAlong before (line ++ rest) =
      (lineTarget? line).toList ++ targetsAlong (behind before (plain line)) rest := by
  rw [← List.append_assoc] at hplain
  obtain ⟨taken, tail, rfl, htaken, rfl⟩ := exists_append_of_plain hplain
  have hne : plain taken ≠ [] := by
    rw [htaken]
    rintro hnil
    rw [(List.append_eq_nil_iff.mp hnil).2] at hfirst
    cases hfirst
  rw [plain_append, List.mem_append, not_or] at hline
  have here : includeDirective? before (plain taken ++ plain (tail ++ rest)) = some (target, plain (tail ++ rest)) := by
    rw [htaken, List.append_assoc]
    exact hreads before _ hbefore
  have itself : includeDirective? none (plain (taken ++ tail)) = some (target, plain tail) := by
    rw [plain_append, htaken, List.append_assoc]
    exact hreads none _ rfl
  have htake : (taken ++ tail).take ((taken ++ tail).length - (plain tail).length) = taken := by
    rw [length_plain, List.length_append, Nat.add_sub_cancel]
    exact List.take_left
  have htarget : (lineTarget? (taken ++ tail)).toList =
      if taken.getLast?.map (·.2) = some .string then [target] else [] := by
    simp only [lineTarget?, itself, htake]
    split <;> rfl
  rw [htarget, List.append_assoc, targetsAlong_match (by simpa [plain] using hne) here,
    targetsAlong_begun (startsLine_behind_of_notMem hne hline.1 before) hline.2, plain_append, behind_append]

theorem targetsAlong_lineEnd {zone : Zone} (h : includeDirective? before ('\n' :: plain rest) = none) :
    targetsAlong before (('\n', zone) :: rest) = targetsAlong (some '\n') rest := by
  have hpiece : ('\n', zone) :: rest = [('\n', zone)] ++ rest := rfl
  rw [hpiece, targetsAlong_pass]
  · rfl
  intro a c b hsplit
  cases a with
  | nil =>
    obtain ⟨rfl, rfl⟩ := List.cons.inj hsplit
    exact h
  | cons d a => simp [plain] at hsplit

theorem targetsAlong_lastLine (hbefore : startsLine before = true) (hline : '\n' ∉ plain line) :
    targetsAlong before line = (lineTarget? line).toList := by
  have hnil (before : Option Char) : targetsAlong before [] = [] := rfl
  have hwhole : targetsAlong before (line ++ []) =
      (lineTarget? line).toList ++ targetsAlong (behind before (plain line)) [] := by
    cases hread : includeDirective? before (plain line) with
    | none => exact targetsAlong_silentLine hbefore hline (by simpa using hread)
    | some p =>
      obtain ⟨-, blanks, core, hplain, hblanks, hfirst, hreads⟩ := exists_of_includeDirective? hread
      exact targetsAlong_includeLine hbefore hline hplain hfirst fun before rest h =>
        hreads before blanks rest h hblanks
  rwa [List.append_nil, hnil, List.append_nil] at hwhole

theorem targetsAlong_blankLine {zone : Zone} {blanks core r target : List Char} (hbefore : startsLine before = true)
    (hline : ∀ c ∈ plain line, isBlank c = true) (hrest : plain rest = blanks ++ (core ++ r))
    (hblanks : ∀ c ∈ blanks, isBlank c = true) (hfirst : core.head? = some '#')
    (hreads : ∀ before blanks rest, startsLine before = true → (∀ c ∈ blanks, isBlank c = true) →
      includeDirective? before (blanks ++ (core ++ rest)) = some (target, rest)) :
    targetsAlong before (line ++ ('\n', zone) :: rest) =
      (lineTarget? line).toList ++ targetsAlong (some '\n') rest := by
  have hsilent : lineTarget? line = none := by simp only [lineTarget?, includeDirective?_blanks hline]
  rw [← List.append_assoc] at hrest
  obtain ⟨taken, tail, rfl, htaken, rfl⟩ := exists_append_of_plain hrest
  have hne : taken ≠ [] := by
    rintro rfl
    have hcore : core = [] := (List.append_eq_nil_iff.mp htaken.symm).2
    rw [hcore] at hfirst
    cases hfirst
  have hlead : ∀ c ∈ plain line ++ '\n' :: blanks, isBlank c = true := by
    intro c hc
    rw [List.mem_append, List.mem_cons] at hc
    obtain hc | rfl | hc := hc
    · exact hline c hc
    · decide
    · exact hblanks c hc
  have there : includeDirective? (some '\n') (plain taken ++ plain tail) = some (target, plain tail) := by
    rw [htaken, List.append_assoc]
    exact hreads _ _ _ rfl hblanks
  have here : includeDirective? before (plain ((line ++ [('\n', zone)]) ++ taken) ++ plain tail) =
      some (target, plain tail) := by
    have h := hreads before _ (plain tail) hbefore hlead
    simpa [htaken] using h
  have hpiece : line ++ ('\n', zone) :: (taken ++ tail) = ((line ++ [('\n', zone)]) ++ taken) ++ tail := by simp
  rw [hsilent, Option.toList_none, List.nil_append, hpiece, targetsAlong_match (by simp) here,
    targetsAlong_match hne there, List.getLast?_append_of_ne_nil _ hne]
  simp [behind_append]

theorem targetsAlong_line {zone : Zone} (hbefore : startsLine before = true) (hline : '\n' ∉ plain line)
    (onLines : includesOnLines before (plain line ++ '\n' :: plain rest) = true) :
    targetsAlong before (line ++ ('\n', zone) :: rest) =
      (lineTarget? line).toList ++ targetsAlong (some '\n') rest := by
  cases hread : includeDirective? before (plain line ++ '\n' :: plain rest) with
  | none =>
    have hplain : plain (('\n', zone) :: rest) = '\n' :: plain rest := rfl
    rw [← hplain] at hread
    rw [targetsAlong_silentLine hbefore hline hread, targetsAlong_lineEnd]
    cases hempty : plain line with
    | nil => simpa [hempty] using hread
    | cons c cs =>
      apply includeDirective?_otherPlace
      exact startsLine_behind_of_notMem (List.cons_ne_nil c cs) (hempty ▸ hline) before
  | some p =>
    obtain ⟨target, r⟩ := p
    obtain ⟨-, blanks, core, htext, hblanks, hfirst, hreads⟩ := exists_of_includeDirective? hread
    have hcore : '\n' ∉ core := by
      rw [htext, ← List.append_assoc] at onLines hread
      have h := notMem_of_includesOnLines onLines hread
      rwa [skipBlanks_core hblanks hfirst] at h
    have hne : core ≠ [] := by
      rintro rfl
      cases hfirst
    by_cases hlf : '\n' ∈ blanks
    · -- the line is blank and the directive stands on a later one
      obtain ⟨u, rfl, hu⟩ | ⟨u, hu, -⟩ := List.append_eq_append_iff.mp htext
      · cases u with
        | nil => exact absurd (by simpa using hlf) hline
        | cons c u =>
          obtain ⟨rfl, hrest⟩ := List.cons.inj hu
          exact targetsAlong_blankLine hbefore (fun c hc => hblanks c (by simp [hc])) hrest
            (fun c hc => hblanks c (by simp [hc])) hfirst hreads
      · exact absurd (by simp [hu, hlf]) hline
    · obtain ⟨u, hplain⟩ : ∃ u, plain line = blanks ++ (core ++ u) := by
        rw [← List.append_assoc] at htext
        obtain ⟨u, hu, hrest⟩ | ⟨u, hu, -⟩ := List.append_eq_append_iff.mp htext
        · cases u with
          | nil => exact ⟨[], by simpa using hu.symm⟩
          | cons c u =>
            obtain ⟨rfl, -⟩ := List.cons.inj hrest
            have hmem : '\n' ∈ blanks ++ core := by simp [hu]
            simp [hlf, hcore] at hmem
        · exact ⟨u, by rw [hu, List.append_assoc]⟩
      rw [targetsAlong_includeLine hbefore hline hplain hfirst fun before rest h => hreads before blanks rest h hblanks,
        targetsAlong_lineEnd]
      apply includeDirective?_otherPlace
      exact startsLine_behind_of_notMem (by simp [hplain, hne]) hline before

end

theorem targetsAlong_eq_lines {before : Option Char} (hbefore : startsLine before = true) (marked : List Marked)
    (onLines : includesOnLines before (plain marked) = true) :
    targetsAlong before marked = (marked.splitOnP fun m => m.1 = '\n').filterMap lineTarget? := by
  have hinside {line : List Marked} (hline : ∀ m ∈ line, decide (m.1 = '\n') = false) : '\n' ∉ plain line := by
    intro hmem
    obtain ⟨m, hm, he⟩ := List.mem_map.mp hmem
    simpa [he] using hline m hm
  induction marked using Text.splitOnP_induction generalizing before with
  | last line hline =>
    rw [targetsAlong_lastLine hbefore (hinside hline), List.filterMap_cons]
    cases lineTarget? line <;> rfl
  | cut line sep rest hline hsep ih =>
    obtain ⟨c, zone⟩ := sep
    obtain rfl : c = '\n' := of_decide_eq_true hsep
    have onLines' : includesOnLines (some '\n') (plain rest) = true := by
      have hwhole : plain (line ++ ('\n', zone) :: rest) = (plain line ++ ['\n']) ++ plain rest := by simp
      rw [hwhole] at onLines
      simpa using includesOnLines_behind onLines
    rw [targetsAlong_line hbefore (hinside hline) (by simpa using onLines), ih rfl onLines', List.filterMap_cons]
    cases lineTarget? line <;> rfl

theorem includeTargets_eq_lineTargets {text : List Char} (h : includesOnLines none text = true) :
    includeTargets text = lineTargets text := by
  rw [includeTargets_eq, lineTargets, targetsAlong_eq_lines rfl _ (by rwa [plain_mark])]

end FirmwareCatalog.Header
