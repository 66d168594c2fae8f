import FirmwareCatalog.Proofs.MarkedBlock.Splice
import FirmwareCatalog.Settings
import Mathlib.Data.List.DropRight

/-!
# What a splice replaces

The text that a splice takes out begins with the first line that starts with the
start marker and ends behind the next end marker. Marker lines delimit it where
the text holds its markers on lines of their own.
-/

namespace FirmwareCatalog.MarkedBlock

/-! ## Lines -/

theorem flatten_lines : ∀ text : Bytes, (lines text).flatten = text
  | [] => rfl
  | b :: bs => by
    have ih := flatten_lines bs
    simp only [lines]
    split
    · rename_i hb
      rw [List.flatten_cons, ih, hb]
      rfl
    · split
      · rename_i hl
        simpa [hl] using ih
      · rename_i hl
        simpa [hl] using ih

theorem head?_lines : ∀ {text : Bytes}, text ≠ [] → (lines text).head? = some (firstLine text)
  | [], h => absurd rfl h
  | b :: bs, _ => by
    simp only [lines, firstLine]
    split
    · rfl
    · cases bs with
      | nil => rfl
      | cons c cs =>
        have ih := head?_lines (List.cons_ne_nil c cs)
        split
        · rename_i hnil
          rw [hnil] at ih
          cases ih
        · rename_i hcons
          rw [hcons] at ih
          simpa using ih

theorem lines_append {before : Bytes} (h : AtLineStart true before) (rest : Bytes) :
    lines (before ++ rest) = lines before ++ lines rest := by
  obtain ⟨rfl, -⟩ | hlast := h
  · rfl
  · induction before with
    | nil => cases hlast
    | cons b before ih =>
      cases before with
      | nil =>
        obtain rfl : b = newline := by simpa using hlast
        simp [lines]
      | cons c before =>
        have ih := ih (by simpa [List.getLast?_cons_cons] using hlast)
        rw [List.cons_append, lines, lines, ih]
        by_cases hb : b = newline
        · simp [hb]
        · rw [if_neg hb, if_neg hb]
          cases hc : lines (c :: before) with
          | nil => simp [lines_eq_nil_iff] at hc
          | cons line lines => rfl

theorem getLast?_lines_append {piece : Bytes} (hne : piece ≠ []) (hpiece : newline ∉ piece.dropLast) :
    ∀ text : Bytes, ∃ lead, (lines (text ++ piece)).getLast? = some (lead ++ piece)
  | [] => by
    refine ⟨[], ?_⟩
    have single : ∀ {piece : Bytes}, piece ≠ [] → newline ∉ piece.dropLast → lines piece = [piece] := by
      intro piece
      induction piece with
      | nil => exact fun h => absurd rfl h
      | cons b bs ih =>
        intro _ h
        cases bs with
        | nil => by_cases hb : b = newline <;> simp [lines, hb]
        | cons c cs =>
          rw [List.dropLast_cons_of_ne_nil (by simp), List.mem_cons, not_or] at h
          rw [lines, if_neg (Ne.symm h.1), ih (by simp) h.2]
    simp [single hne hpiece]
  | b :: text => by
    obtain ⟨lead, ih⟩ := getLast?_lines_append hne hpiece text
    rw [List.cons_append, lines]
    by_cases hb : b = newline
    · refine ⟨lead, ?_⟩
      rw [if_pos hb, List.getLast?_cons, ih]
      rfl
    · rw [if_neg hb]
      cases hl : lines (text ++ piece) with
      | nil => rw [hl] at ih; cases ih
      | cons line rest =>
        rw [hl] at ih
        cases rest with
        | nil =>
          refine ⟨b :: lead, ?_⟩
          obtain rfl : line = lead ++ piece := by simpa using ih
          simp
        | cons next rest => exact ⟨lead, by simpa [List.getLast?_cons_cons] using ih⟩

theorem ne_nil_of_mem_lines : ∀ {text line : Bytes}, line ∈ lines text → line ≠ []
  | [], _, h => by simp [lines] at h
  | b :: bs, line, h => by
    have ih : ∀ {line : Bytes}, line ∈ lines bs → line ≠ [] := ne_nil_of_mem_lines
    simp only [lines] at h
    split at h
    · simp only [List.mem_cons] at h
      obtain rfl | h := h
      · simp
      · exact ih h
    · split at h
      · simp [List.mem_singleton.mp h]
      · rename_i hl
        simp only [List.mem_cons] at h
        obtain rfl | h := h
        · simp
        · exact ih (by simp [hl, h])

theorem atLineStart_of_lines_eq : ∀ {text line : Bytes} {before after : List Bytes},
    lines text = before ++ line :: after →
      AtLineStart true before.flatten ∧ text = before.flatten ++ line ++ after.flatten
  | [], line, before, after, h => by simp [lines] at h
  | b :: bs, line, [], after, h => by
    have flat : (lines (b :: bs)).flatten = b :: bs := flatten_lines _
    rw [h] at flat
    exact ⟨(atLineStart_nil true).mpr rfl, by simpa using flat.symm⟩
  | b :: bs, line, first :: before, after, h => by
    have flat : (lines (b :: bs)).flatten = b :: bs := flatten_lines _
    rw [h] at flat
    refine ⟨?_, by simpa using flat.symm⟩
    simp only [lines] at h
    split at h
    · rename_i hb
      rw [List.cons_append, List.cons.injEq] at h
      obtain ⟨rfl, h⟩ := h
      rw [List.flatten_cons, List.singleton_append, atLineStart_cons, hb]
      simpa using (atLineStart_of_lines_eq h).1
    · split at h
      · simp at h
      · rename_i line' rest hl
        rw [List.cons_append, List.cons.injEq] at h
        obtain ⟨rfl, h⟩ := h
        have ne : line' ≠ [] := ne_nil_of_mem_lines (by rw [hl]; simp)
        rw [h, ← List.cons_append] at hl
        obtain ⟨hnil, -⟩ | hlast := (atLineStart_of_lines_eq hl).1
        · simp [ne] at hnil
        · right
          rw [List.flatten_cons] at hlast ⊢
          rw [List.cons_append, List.getLast?_cons, hlast]
          rfl

theorem exists_lines_append : ∀ {text line : Bytes} {before : List Bytes}, lines text = before ++ [line] →
    ∀ rest, ∃ tail after, lines (text ++ rest) = before ++ (line ++ tail) :: after
  | [], line, before, h, _ => by simp [lines] at h
  | b :: bs, line, before, h, rest => by
    rw [List.cons_append]
    simp only [lines] at h ⊢
    by_cases hb : b = newline
    · rw [if_pos hb] at h ⊢
      cases before with
      | nil =>
        obtain ⟨rfl, -⟩ := List.cons.inj h
        exact ⟨[], lines (bs ++ rest), by simp⟩
      | cons first before =>
        rw [List.cons_append, List.cons.injEq] at h
        obtain ⟨rfl, h⟩ := h
        obtain ⟨tail, after, ih⟩ := exists_lines_append h rest
        exact ⟨tail, after, by simp [ih]⟩
    -- the byte goes on the first line of what follows it, or is a line by itself at the end
    · rw [if_neg hb] at h ⊢
      cases hl : lines bs with
      | nil =>
        rw [hl] at h
        rw [lines_eq_nil_iff] at hl
        cases before with
        | cons first before => simp at h
        | nil =>
          obtain ⟨rfl, -⟩ := List.cons.inj h
          rw [hl, List.nil_append]
          cases lines rest with
          | nil => exact ⟨[], [], rfl⟩
          | cons next after => exact ⟨next, after, rfl⟩
      | cons line' more =>
        rw [hl] at h
        cases before with
        | nil =>
          obtain ⟨rfl, rfl⟩ := List.cons.inj h
          obtain ⟨tail, after, ih⟩ := exists_lines_append (hl.trans (List.nil_append _).symm) rest
          exact ⟨tail, after, by simp [ih]⟩
        | cons first before =>
          obtain ⟨rfl, rfl⟩ := List.cons.inj h
          obtain ⟨tail, after, ih⟩ := exists_lines_append (hl.trans (List.cons_append ..).symm) rest
          exact ⟨tail, after, by simp [ih]⟩

/-! ## Marker lines -/

def isBlankByte (b : UInt8) : Bool := b = 32 || (9 ≤ b && b ≤ 13)

/-- A line that is the start marker up to white space behind it. -/
def IsStartLine (markers : BlockMarkers) (line : Bytes) : Prop :=
  line.rdropWhile isBlankByte = textBytes markers.start

/-- A line that is the end marker up to white space around it. -/
def IsStopLine (markers : BlockMarkers) (line : Bytes) : Prop :=
  (line.dropWhile isBlankByte).rdropWhile isBlankByte = textBytes markers.stop

/-- A line that starts with the start marker, or holds the end marker, holds nothing else but white space. -/
def OnOwnLines (markers : BlockMarkers) (text : Bytes) : Prop :=
  ∀ line ∈ lines text, (textBytes markers.start <+: line → IsStartLine markers line) ∧
    (textBytes markers.stop <:+: line → IsStopLine markers line)

theorem rdropWhile_append {p : UInt8 → Bool} {s : Bytes} (h : ∀ b ∈ s.getLast?, p b = false) (e : Bytes) :
    (s ++ e).rdropWhile p = s ++ e.rdropWhile p := by
  induction e using List.reverseRecOn with
  | nil =>
    rw [List.append_nil, List.rdropWhile_nil, List.append_nil, List.rdropWhile_eq_self_iff]
    intro hne
    simp [h _ (List.getLast?_eq_some_getLast hne)]
  | append_singleton e b ih =>
    rw [← List.append_assoc, List.rdropWhile_concat, List.rdropWhile_concat]
    by_cases hb : p b
    · rw [if_pos hb, if_pos hb, ih]
    · rw [if_neg hb, if_neg hb, List.append_assoc]

section
variable {markers : BlockMarkers}

theorem isStartLine_iff (h : ∀ b ∈ (textBytes markers.start).getLast?, isBlankByte b = false) (tail : Bytes) :
    IsStartLine markers (textBytes markers.start ++ tail) ↔ ∀ b ∈ tail, isBlankByte b := by
  rw [IsStartLine, rdropWhile_append h, List.append_right_eq_self, List.rdropWhile_eq_nil_iff]

theorem isStopLine_of_blank (hfirst : ∀ b ∈ (textBytes markers.stop).head?, isBlankByte b = false)
    (hlast : ∀ b ∈ (textBytes markers.stop).getLast?, isBlankByte b = false) {lead tail : Bytes}
    (hlead : ∀ b ∈ lead, isBlankByte b) (htail : ∀ b ∈ tail, isBlankByte b) :
    IsStopLine markers (lead ++ textBytes markers.stop ++ tail) := by
  have drop : (textBytes markers.stop ++ tail).dropWhile isBlankByte = textBytes markers.stop ++ tail ∨
      textBytes markers.stop = [] := by
    cases hs : textBytes markers.stop with
    | nil => exact .inr rfl
    | cons b s =>
      rw [hs] at hfirst
      have hb : isBlankByte b = false := hfirst b rfl
      simp [hb]
  rw [IsStopLine, List.append_assoc, List.dropWhile_append_of_pos hlead]
  obtain drop | hnil := drop
  · rw [drop, rdropWhile_append hlast, List.rdropWhile_eq_nil_iff.mpr htail, List.append_nil]
  · rw [hnil, List.nil_append, List.dropWhile_eq_nil_iff.mpr htail, List.rdropWhile_nil]

theorem blank_of_isStopLine (hlast : ∀ b ∈ (textBytes markers.stop).getLast?, isBlankByte b = false)
    (hne : textBytes markers.stop ≠ []) {lead tail : Bytes}
    (h : IsStopLine markers (lead ++ textBytes markers.stop ++ tail)) : ∀ b ∈ lead, isBlankByte b := by
  rw [← List.dropWhile_eq_nil_iff]
  by_contra hlead
  have last : ∀ b ∈ (lead.dropWhile isBlankByte ++ textBytes markers.stop).getLast?, isBlankByte b = false := by
    rwa [List.getLast?_append_of_ne_nil _ hne]
  rw [IsStopLine, List.append_assoc, List.dropWhile_append, if_neg (by simpa using hlead), ← List.append_assoc,
    rdropWhile_append last] at h
  have length := congrArg List.length h
  simp only [List.length_append] at length
  exact hlead (List.eq_nil_of_length_eq_zero (by omega))

end

/-! ## What is taken out -/

/-- A piece of a text from the first line that starts with the start marker to the end marker that comes next. -/
structure IsRemoved (markers : BlockMarkers) (before removed after : Bytes) : Prop where
  atLineStart : AtLineStart true before
  noEarlier : ∀ line ∈ lines before, ¬ textBytes markers.start <+: line
  first : ∃ line, (lines removed).head? = some line ∧ textBytes markers.start <+: line
  last : ∃ lead, ∃ lineEnd ∈ [[], [newline], [13, newline]],
    (lines removed).getLast? = some (lead ++ textBytes markers.stop ++ lineEnd)
  nearest : ∃ inner lineEnd, removed = textBytes markers.start ++ inner ++ textBytes markers.stop ++ lineEnd ∧
    ∀ k < inner.length, ¬ textBytes markers.stop <+: (inner ++ textBytes markers.stop ++ lineEnd ++ after).drop k

theorem splitLineEnd_cases (text : Bytes) :
    (splitLineEnd text).1 ∈ [[], [newline], [13, newline]] ∧ newline ∉ (splitLineEnd text).1.dropLast := by
  unfold splitLineEnd
  split <;> simp [newline]

theorem not_prefix_of_noStartWithin {markers : BlockMarkers} {before rest : Bytes}
    (h : NoStartWithin markers before.length (before ++ rest)) :
    ∀ line ∈ lines before, ¬ textBytes markers.start <+: line := by
  intro line hline hp
  obtain ⟨earlier, later, hlines⟩ := List.append_of_mem hline
  obtain ⟨hstart, hbefore⟩ := atLineStart_of_lines_eq hlines
  have hpos := List.length_pos_of_ne_nil (ne_nil_of_mem_lines hline)
  apply h earlier.flatten.length
  · rw [hbefore, List.length_append, List.length_append]
    omega
  · rw [hbefore, List.append_assoc, List.append_assoc, List.take_left]
    exact hstart
  · rw [hbefore, List.append_assoc, List.append_assoc, List.drop_left]
    exact hp.trans (List.prefix_append _ _)

section
variable {markers : BlockMarkers} (hm : newline ∉ textBytes markers.start)
include hm

theorem exists_line_of_start (hne : textBytes markers.start ≠ []) (rest : Bytes) :
    (lines (textBytes markers.start ++ rest)).head? = some (firstLine (textBytes markers.start ++ rest)) ∧
      textBytes markers.start <+: firstLine (textBytes markers.start ++ rest) := by
  refine ⟨head?_lines (by simp [hne]), ?_⟩
  rw [← List.isPrefixOf_iff_prefix, isPrefixOf_firstLine_iff hm]
  exact List.prefix_append _ _

theorem locate_eq_absent_iff (hne : textBytes markers.start ≠ []) (text : Bytes) :
    locate markers text = .absent ↔ ∀ line ∈ lines text, ¬ textBytes markers.start <+: line := by
  have starts {before : Bytes} (rest : Bytes) (hline : AtLineStart true before) :
      ∃ line ∈ lines (before ++ (textBytes markers.start ++ rest)), textBytes markers.start <+: line := by
    obtain ⟨hhead, hp⟩ := exists_line_of_start hm hne rest
    refine ⟨_, ?_, hp⟩
    rw [lines_append hline]
    exact List.mem_append_right _ (List.mem_of_mem_head? hhead)
  rcases locate_cases hm text with ⟨hloc, hfirst⟩ | ⟨before, rest, hloc, rfl, hline, -⟩ |
      ⟨before, inner, rest, hloc, rfl, hline, -⟩
  · simp only [hloc, true_iff]
    have hnone : NoStartWithin markers text.length (text ++ []) := by simpa using hfirst
    exact not_prefix_of_noStartWithin hnone
  · obtain ⟨line, hmem, hp⟩ := starts rest hline
    rw [hloc]
    simp only [reduceCtorEq, false_iff, List.append_assoc]
    exact fun h => h line hmem hp
  · obtain ⟨line, hmem, hp⟩ := starts (inner ++ textBytes markers.stop ++ rest) hline
    rw [hloc]
    simp only [List.append_assoc] at hmem
    simp only [reduceCtorEq, false_iff, List.append_assoc]
    exact fun h => h line hmem hp

variable (hstop : newline ∉ textBytes markers.stop) (hne : textBytes markers.start ≠ [])
  (hne' : textBytes markers.stop ≠ [])
include hstop hne hne'

theorem isRemoved_of_locate {text before removed after : Bytes}
    (h : locate markers text = .found before removed after) :
    text = before ++ removed ++ after ∧ IsRemoved markers before removed after := by
  rcases locate_cases hm text with ⟨hloc, -⟩ | ⟨before', rest, hloc, -⟩ |
      ⟨before', inner, rest, hloc, htext, hline, hfirst, hnearest⟩
  · rw [hloc] at h
    cases h
  · rw [hloc] at h
    cases h
  · rw [hloc] at h
    cases h
    have htext : text = before ++ (textBytes markers.start ++ inner ++ textBytes markers.stop ++
        (splitLineEnd rest).1) ++ (splitLineEnd rest).2 := by
      rw [htext]
      nth_rewrite 1 [← splitLineEnd_append rest]
      simp only [List.append_assoc]
    have single : newline ∉ (textBytes markers.stop ++ (splitLineEnd rest).1).dropLast := by
      cases hl : (splitLineEnd rest).1 with
      | nil =>
        rw [List.append_nil]
        exact fun h => hstop (List.dropLast_subset _ h)
      | cons b bs =>
        rw [List.dropLast_append_of_ne_nil (by simp), ← hl, List.mem_append, not_or]
        exact ⟨hstop, (splitLineEnd_cases rest).2⟩
    refine ⟨htext, hline, ?_, ?_, ?_, inner, _, rfl, ?_⟩
    · rw [htext, List.append_assoc] at hfirst
      exact not_prefix_of_noStartWithin hfirst
    · simp only [List.append_assoc]
      exact ⟨_, exists_line_of_start hm hne _⟩
    · obtain ⟨lead, hlead⟩ := getLast?_lines_append (by simp [hne']) single (textBytes markers.start ++ inner)
      refine ⟨lead, _, (splitLineEnd_cases rest).1, ?_⟩
      rw [List.append_assoc lead, ← hlead, ← List.append_assoc]
    · rwa [List.append_assoc _ (splitLineEnd rest).1, splitLineEnd_append]

end

/-! ## The standard markers -/

theorem standard_start : newline ∉ textBytes BlockMarkers.standard.start ∧
    textBytes BlockMarkers.standard.start ≠ [] ∧
    ∀ b ∈ (textBytes BlockMarkers.standard.start).getLast?, isBlankByte b = false := by
  decide +kernel

theorem standard_stop : newline ∉ textBytes BlockMarkers.standard.stop ∧
    textBytes BlockMarkers.standard.stop ≠ [] ∧
    (∀ b ∈ (textBytes BlockMarkers.standard.stop).head?, isBlankByte b = false) ∧
    ∀ b ∈ (textBytes BlockMarkers.standard.stop).getLast?, isBlankByte b = false := by
  decide +kernel

theorem exists_line_of_mem {before piece : Bytes} (hline : AtLineStart true before) (after : Bytes) {line : Bytes}
    (h : line ∈ lines piece) : ∃ tail, line ++ tail ∈ lines (before ++ piece ++ after) := by
  have hne : lines piece ≠ [] := List.ne_nil_of_mem h
  obtain ⟨tail, more, happend⟩ := exists_lines_append (List.dropLast_append_getLast hne).symm after
  rw [List.append_assoc, lines_append hline, happend]
  rw [← List.dropLast_append_getLast hne, List.mem_append, List.mem_singleton] at h
  obtain h | rfl := h
  · exact ⟨[], by simp [h]⟩
  · exact ⟨tail, by simp⟩

theorem IsRemoved.betweenMarkerLines {before removed after : Bytes}
    (h : IsRemoved BlockMarkers.standard before removed after)
    (hown : OnOwnLines BlockMarkers.standard (before ++ removed ++ after)) :
    (∃ line, (lines removed).head? = some line ∧ IsStartLine BlockMarkers.standard line) ∧
      ∃ line, (lines removed).getLast? = some line ∧ IsStopLine BlockMarkers.standard line := by
  obtain ⟨-, -, hstart⟩ := standard_start
  obtain ⟨-, hne, hfirst, hlast⟩ := standard_stop
  constructor
  · obtain ⟨line, hline, t, rfl⟩ := h.first
    refine ⟨_, hline, ?_⟩
    obtain ⟨tail, hmem⟩ := exists_line_of_mem h.atLineStart after (List.mem_of_mem_head? hline)
    have hown := (hown _ hmem).1 (by simp)
    rw [List.append_assoc, isStartLine_iff hstart] at hown
    rw [isStartLine_iff hstart]
    intro b hb
    exact hown b (List.mem_append_left _ hb)
  · obtain ⟨lead, lineEnd, hend, hline⟩ := h.last
    refine ⟨_, hline, ?_⟩
    obtain ⟨tail, hmem⟩ := exists_line_of_mem h.atLineStart after (List.mem_of_mem_getLast? hline)
    have hown := (hown _ hmem).2 ⟨lead, lineEnd ++ tail, by simp⟩
    rw [List.append_assoc] at hown
    apply isStopLine_of_blank hfirst hlast (blank_of_isStopLine hlast hne hown)
    have hblank : ∀ lineEnd ∈ [[], [newline], [13, newline]], ∀ b ∈ lineEnd, isBlankByte b = true := by
      decide +kernel
    exact hblank lineEnd hend

/-- **Where a replaced block begins and ends.** With the standard markers a splice takes out what reaches from the
first line that starts with the start marker to the next end marker and its line end, and between marker lines where
the markers stand on lines of their own; it appends its block, and takes nothing out, where no line starts with the
start marker, and nowhere else. -/
theorem replaced_block_reaches_between_markers (text block : Bytes) :
    (∀ out, splice .standard block text = .ok ⟨out, true⟩ →
      ∃ before removed after, text = before ++ removed ++ after ∧ out = before ++ block ++ after ∧
        IsRemoved .standard before removed after ∧
        (OnOwnLines .standard text →
          (∃ line, (lines removed).head? = some line ∧ IsStartLine .standard line) ∧
            ∃ line, (lines removed).getLast? = some line ∧ IsStopLine .standard line)) ∧
    ((∀ line ∈ lines text, ¬ textBytes BlockMarkers.standard.start <+: line) ↔
      splice .standard block text = .ok ⟨text ++ separator text ++ block, false⟩) := by
  obtain ⟨hm, hne, -⟩ := standard_start
  obtain ⟨hm', hne', -⟩ := standard_stop
  constructor
  · intro out h
    unfold splice at h
    cases hloc : locate .standard text with
    | absent =>
      rw [hloc] at h
      cases h
    | unterminated before =>
      rw [hloc] at h
      cases h
    | found before removed after =>
      rw [hloc] at h
      cases h
      obtain ⟨rfl, hremoved⟩ := isRemoved_of_locate hm hm' hne hne' hloc
      exact ⟨before, removed, after, rfl, rfl, hremoved, hremoved.betweenMarkerLines⟩
  · rw [← locate_eq_absent_iff hm hne, splice]
    cases hloc : locate .standard text <;> simp

/-- A block between lines that end in carriage return and line feed. -/
theorem replaced_block_reaches_between_markers_crlf :
    let text := textBytes "int a;\r\n#ifdef USE_STATIC_CONFIG\r\nold\r\n  #endif // USE_STATIC_CONFIG\r\nint b;\r\n"
    ∃ before removed after, text = before ++ removed ++ after ∧
      (∃ line, (lines removed).head? = some line ∧ IsStartLine .standard line) ∧
        ∃ line, (lines removed).getLast? = some line ∧ IsStopLine .standard line := by
  intro text
  have replaced : splice .standard (textBytes "new\n") text =
      .ok ⟨textBytes "int a;\r\nnew\nint b;\r\n", true⟩ := by
    rfl
  obtain ⟨before, removed, after, htext, -, -, hlines⟩ :=
    (replaced_block_reaches_between_markers text (textBytes "new\n")).1 _ replaced
  refine ⟨before, removed, after, htext, hlines ?_⟩
  unfold OnOwnLines IsStartLine IsStopLine
  decide +kernel

/-- A line that guards a longer name is taken for the start of a block, so what follows it is replaced or refused, and
an end marker behind other text ends a block. -/
theorem longer_name_starts_block :
    (∃ text, (∀ line ∈ lines text, ¬ IsStartLine .standard line) ∧
      splice .standard (textBytes "new\n") text = .ok ⟨textBytes "new\n", true⟩) ∧
    (∃ text, (∀ line ∈ lines text, ¬ IsStartLine .standard line) ∧
      splice .standard (textBytes "new\n") text = .error 1) ∧
    ∃ text removed after line, locate .standard text = .found [] removed after ∧
      (lines removed).getLast? = some line ∧ ¬ IsStopLine .standard line := by
  unfold IsStartLine IsStopLine
  refine ⟨⟨textBytes "#ifdef USE_STATIC_CONFIG_DEBUG\nint a;\n#endif // USE_STATIC_CONFIG\n", ?_, rfl⟩,
    ⟨textBytes "#ifdef USE_STATIC_CONFIG_DEBUG\nint a;\n#endif\n", ?_, rfl⟩,
    textBytes "#ifdef USE_STATIC_CONFIG\nint a; #endif // USE_STATIC_CONFIG_DEBUG\n",
    textBytes "#ifdef USE_STATIC_CONFIG\nint a; #endif // USE_STATIC_CONFIG", textBytes "_DEBUG\n",
    textBytes "int a; #endif // USE_STATIC_CONFIG", rfl, ?_, ?_⟩ <;> decide +kernel

end FirmwareCatalog.MarkedBlock
