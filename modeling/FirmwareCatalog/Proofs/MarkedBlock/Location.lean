import FirmwareCatalog.MarkedBlock
import FirmwareCatalog.Proofs.Text.Infix
import FirmwareCatalog.Proofs.Text.Utf8
import Mathlib.Data.List.Basic

/-!
# Where a marked block stands

What the searches for the markers find, said without the searches: the first
line start at which the start marker stands, and the first place behind it at
which the end marker stands. A block whose text holds the end marker only at its
end is found again wherever no earlier line starts with the start marker.
-/

namespace FirmwareCatalog.MarkedBlock

/-! ## The end marker -/

theorem splitAt?_eq_some_iff (needle : Bytes) : ∀ {text before rest : Bytes},
    splitAt? needle text = some (before, rest) ↔
      text = before ++ rest ∧ needle <+: rest ∧ ∀ k < before.length, ¬ needle <+: text.drop k
  | [], before, rest => by
    simp only [splitAt?, List.isEmpty_iff]
    constructor
    · intro h
      split at h
      · rename_i hn
        cases h
        simp [hn]
      · cases h
    · rintro ⟨htext, hrest, -⟩
      obtain ⟨rfl, rfl⟩ := List.append_eq_nil_iff.mp htext.symm
      simp [List.prefix_nil.mp hrest]
  | b :: bs, before, rest => by
    simp only [splitAt?, List.isPrefixOf_iff_prefix]
    by_cases hb : needle <+: b :: bs
    · rw [if_pos hb, Option.some.injEq, Prod.mk.injEq]
      constructor
      · rintro ⟨rfl, rfl⟩
        exact ⟨rfl, hb, fun k hk => absurd hk (Nat.not_lt_zero k)⟩
      · rintro ⟨htext, -, hfirst⟩
        cases before with
        | nil => exact ⟨rfl, htext⟩
        | cons c before => exact absurd hb (hfirst 0 (Nat.succ_pos _))
    · rw [if_neg hb, Option.map_eq_some_iff]
      constructor
      · rintro ⟨⟨before', rest'⟩, h, he⟩
        rw [Prod.mk.injEq] at he
        obtain ⟨rfl, rfl⟩ := he
        obtain ⟨rfl, hrest, hfirst⟩ := (splitAt?_eq_some_iff needle).mp h
        refine ⟨rfl, hrest, fun k hk => ?_⟩
        cases k with
        | zero => exact hb
        | succ k => exact hfirst k (Nat.lt_of_succ_lt_succ hk)
      · rintro ⟨htext, hrest, hfirst⟩
        cases before with
        | nil => exact absurd (htext ▸ hrest) hb
        | cons c before =>
          obtain ⟨rfl, rfl⟩ := List.cons.inj htext
          refine ⟨(before, rest), (splitAt?_eq_some_iff needle).mpr ⟨rfl, hrest, fun k hk => ?_⟩, rfl⟩
          exact hfirst (k + 1) (Nat.succ_lt_succ hk)

theorem splitAt?_eq_none_iff (needle : Bytes) : ∀ {text : Bytes},
    splitAt? needle text = none ↔ ∀ k, ¬ needle <+: text.drop k
  | [] => by simp [splitAt?]
  | b :: bs => by
    simp only [splitAt?, List.isPrefixOf_iff_prefix]
    by_cases hb : needle <+: b :: bs
    · rw [if_pos hb]
      simp only [reduceCtorEq, false_iff, not_forall, not_not]
      exact ⟨0, hb⟩
    · rw [if_neg hb, Option.map_eq_none_iff, splitAt?_eq_none_iff needle]
      constructor
      · intro h k
        cases k with
        | zero => exact hb
        | succ k => exact h k
      · exact fun h k => h (k + 1)

/-! ## The start marker -/

/-- A line starts behind a text, when one starts at the beginning of the text or not. -/
def AtLineStart (atStart : Bool) (before : Bytes) : Prop :=
  before = [] ∧ atStart = true ∨ before.getLast? = some newline

theorem atLineStart_nil (atStart : Bool) : AtLineStart atStart [] ↔ atStart = true := by
  simp [AtLineStart]

theorem atLineStart_cons (atStart : Bool) (b : UInt8) (before : Bytes) :
    AtLineStart atStart (b :: before) ↔ AtLineStart (b = newline) before := by
  cases before with
  | nil => simp [AtLineStart]
  | cons c before => simp [AtLineStart, List.getLast?_cons_cons]

theorem atLineStart_of_splitAtLine? {marker : Bytes} : ∀ {text before rest : Bytes} {atStart : Bool},
    splitAtLine? marker atStart text = some (before, rest) → AtLineStart atStart before
  | [], _, _, _, h => by simp [splitAtLine?] at h
  | b :: bs, before, rest, atStart, h => by
    rw [splitAtLine?] at h
    split at h
    · rename_i hfound
      cases h
      rw [Bool.and_eq_true] at hfound
      exact (atLineStart_nil _).mpr hfound.1
    · obtain ⟨⟨before, rest⟩, hsplit, he⟩ := Option.map_eq_some_iff.mp h
      cases he
      exact (atLineStart_cons _ _ _).mpr (atLineStart_of_splitAtLine? hsplit)

theorem isPrefixOf_firstLine_iff : ∀ {marker : Bytes}, newline ∉ marker → ∀ {text : Bytes},
    marker.isPrefixOf (firstLine text) = true ↔ marker <+: text
  | [], _, _ => by simp
  | m :: marker, _, [] => by simp [firstLine]
  | m :: marker, hm, b :: bs => by
    rw [List.mem_cons, not_or] at hm
    rw [List.isPrefixOf_iff_prefix, firstLine]
    by_cases hb : b = newline
    · have hne : m ≠ b := fun h => hm.1 (h.trans hb).symm
      simp [hb, List.cons_prefix_cons, Ne.symm hm.1]
    · rw [if_neg hb, List.cons_prefix_cons, List.cons_prefix_cons, ← List.isPrefixOf_iff_prefix,
        isPrefixOf_firstLine_iff hm.2]

section
variable {marker : Bytes} (hm : newline ∉ marker)
include hm

theorem splitAtLine?_eq_none_iff : ∀ {text : Bytes} {atStart : Bool},
    splitAtLine? marker atStart text = none ↔
      ∀ k < text.length, AtLineStart atStart (text.take k) → ¬ marker <+: text.drop k
  | [], _ => by simp [splitAtLine?]
  | b :: bs, atStart => by
    simp only [splitAtLine?, Bool.and_eq_true, isPrefixOf_firstLine_iff hm]
    by_cases hb : atStart = true ∧ marker <+: b :: bs
    · rw [if_pos hb]
      simp only [reduceCtorEq, false_iff, not_forall, not_not]
      exact ⟨0, Nat.succ_pos _, (atLineStart_nil _).mpr hb.1, hb.2⟩
    · rw [if_neg hb, Option.map_eq_none_iff, splitAtLine?_eq_none_iff]
      constructor
      · intro h k hk hline
        cases k with
        | zero => exact fun hp => hb ⟨(atLineStart_nil _).mp hline, hp⟩
        | succ k => exact h k (Nat.lt_of_succ_lt_succ hk) ((atLineStart_cons _ _ _).mp hline)
      · intro h k hk hline
        exact h (k + 1) (Nat.succ_lt_succ hk) ((atLineStart_cons _ _ _).mpr hline)

theorem splitAtLine?_eq_some_iff : ∀ {text before rest : Bytes} {atStart : Bool},
    splitAtLine? marker atStart text = some (before, rest) ↔
      text = before ++ rest ∧ rest ≠ [] ∧ AtLineStart atStart before ∧ marker <+: rest ∧
        ∀ k < before.length, AtLineStart atStart (before.take k) → ¬ marker <+: text.drop k
  | [], before, rest, _ => by
    simp only [splitAtLine?, reduceCtorEq, false_iff]
    rintro ⟨htext, hrest, -⟩
    exact hrest (List.append_eq_nil_iff.mp htext.symm).2
  | b :: bs, before, rest, atStart => by
    simp only [splitAtLine?, Bool.and_eq_true, isPrefixOf_firstLine_iff hm]
    by_cases hb : atStart = true ∧ marker <+: b :: bs
    · rw [if_pos hb, Option.some.injEq, Prod.mk.injEq]
      constructor
      · rintro ⟨rfl, rfl⟩
        exact ⟨rfl, List.cons_ne_nil _ _, (atLineStart_nil _).mpr hb.1, hb.2,
          fun k hk => absurd hk (Nat.not_lt_zero k)⟩
      · rintro ⟨htext, -, -, -, hfirst⟩
        cases before with
        | nil => exact ⟨rfl, htext⟩
        | cons c before => exact absurd hb.2 (hfirst 0 (Nat.succ_pos _) ((atLineStart_nil _).mpr hb.1))
    · rw [if_neg hb, Option.map_eq_some_iff]
      constructor
      · rintro ⟨⟨before', rest'⟩, h, he⟩
        rw [Prod.mk.injEq] at he
        obtain ⟨rfl, rfl⟩ := he
        obtain ⟨rfl, hne, hline, hrest, hfirst⟩ := splitAtLine?_eq_some_iff.mp h
        refine ⟨rfl, hne, (atLineStart_cons _ _ _).mpr hline, hrest, fun k hk hk' => ?_⟩
        cases k with
        | zero => exact fun hp => hb ⟨(atLineStart_nil _).mp hk', hp⟩
        | succ k => exact hfirst k (Nat.lt_of_succ_lt_succ hk) ((atLineStart_cons _ _ _).mp hk')
      · rintro ⟨htext, hne, hline, hrest, hfirst⟩
        cases before with
        | nil => exact absurd ⟨(atLineStart_nil _).mp hline, htext ▸ hrest⟩ hb
        | cons c before =>
          obtain ⟨rfl, rfl⟩ := List.cons.inj htext
          refine ⟨(before, rest), splitAtLine?_eq_some_iff.mpr
            ⟨rfl, hne, (atLineStart_cons _ _ _).mp hline, hrest, fun k hk hk' => ?_⟩, rfl⟩
          exact hfirst (k + 1) (Nat.succ_lt_succ hk) ((atLineStart_cons _ _ _).mpr hk')

theorem notPrefix_of_wholeLines {before rest rest' : Bytes} {atStart : Bool}
    (hline : AtLineStart atStart before)
    {k : Nat} (hk : k < before.length) (h : ¬ marker <+: (before ++ rest).drop k) :
    ¬ marker <+: (before ++ rest').drop k := by
  rcases hline with ⟨rfl, -⟩ | hlast
  · exact absurd hk (Nat.not_lt_zero k)
  · obtain ⟨lines, rfl⟩ := List.getLast?_eq_some_iff.mp hlast
    have hk : k ≤ lines.length := by rw [List.length_append, List.length_singleton] at hk; omega
    intro hp
    apply h
    rw [List.append_assoc, List.drop_append_of_le_length hk] at hp ⊢
    exact (Text.prefix_of_prefix_append_cons hm hp).trans (List.prefix_append _ _)

end

/-! ## Line numbers -/

theorem lines_eq_nil_iff (text : Bytes) : lines text = [] ↔ text = [] := by
  cases text with
  | nil => simp [lines]
  | cons b bs =>
    simp only [lines]
    split
    · simp
    · split <;> simp

/-- In front of a line start there are as many lines as line feeds. -/
theorem length_lines {before : Bytes} (h : AtLineStart true before) :
    (lines before).length = before.count newline := by
  induction before with
  | nil => rfl
  | cons b before ih =>
    rw [atLineStart_cons] at h
    rw [lines]
    by_cases hb : b = newline
    · rw [decide_eq_true hb] at h
      rw [if_pos hb, List.length_cons, ih h, hb, List.count_cons_self]
    · rw [decide_eq_false hb] at h
      -- a line start that is not the first is behind a line feed
      have hlast : before.getLast? = some newline := by simpa [AtLineStart] using h
      rw [if_neg hb, List.count_cons_of_ne hb, ← ih (.inr hlast)]
      cases hlines : lines before with
      | nil =>
        rw [(lines_eq_nil_iff before).mp hlines] at hlast
        cases hlast
      | cons line rest => rfl

theorem length_lines_of_locate {markers : BlockMarkers} {text before : Bytes}
    (h : locate markers text = .unterminated before) : (lines before).length + 1 = lineBehind before := by
  unfold locate at h
  simp only at h
  split at h
  · cases h
  · rename_i before' rest hline
    split at h
    · cases h
      rw [length_lines (atLineStart_of_splitAtLine? hline), lineBehind]
    · cases h

/-! ## Both markers -/

/-- No line of `text` that starts within its first bytes starts with the start marker. -/
def NoStartWithin (markers : BlockMarkers) (bytes : Nat) (text : Bytes) : Prop :=
  ∀ k < bytes, AtLineStart true (text.take k) → ¬ textBytes markers.start <+: text.drop k

theorem splitLineEnd_append (text : Bytes) :
    (splitLineEnd text).1 ++ (splitLineEnd text).2 = text := by
  unfold splitLineEnd
  split <;> simp

theorem eq_append_drop_of_isPrefix {p text : Bytes} (h : p <+: text) :
    text = p ++ text.drop p.length := by
  obtain ⟨rest, rfl⟩ := h
  rw [List.drop_left]

theorem take_length_of_isPrefix {p text : Bytes} (h : p <+: text) : text.take p.length = p := by
  obtain ⟨rest, rfl⟩ := h
  rw [List.take_left]

section
variable {markers : BlockMarkers} (hm : newline ∉ textBytes markers.start)
include hm

/-- A text has no start marker, or no end marker behind its first start marker, or a block that reaches from
the first start marker to the first end marker behind it and its line end. -/
theorem locate_cases (text : Bytes) :
    (locate markers text = .absent ∧ NoStartWithin markers text.length text) ∨
      (∃ before rest, locate markers text = .unterminated before ∧ text = before ++
        textBytes markers.start ++ rest ∧
        AtLineStart true before ∧ NoStartWithin markers before.length text ∧
          ∀ k, ¬ textBytes markers.stop <+: rest.drop k) ∨
      ∃ before inner rest, locate markers text =
          .found before (textBytes markers.start ++ inner ++ textBytes markers.stop ++
            (splitLineEnd rest).1)
            (splitLineEnd rest).2 ∧
        text = before ++ textBytes markers.start ++ inner ++ textBytes markers.stop ++ rest ∧
        AtLineStart true before ∧ NoStartWithin markers before.length text ∧
          ∀ k < inner.length, ¬ textBytes markers.stop <+:
          (inner ++ textBytes markers.stop ++ rest).drop k := by
  unfold locate
  simp only
  cases hstart : splitAtLine? (textBytes markers.start) true text with
  | none => exact .inl ⟨rfl, (splitAtLine?_eq_none_iff hm).mp hstart⟩
  | some p =>
    obtain ⟨before, atStart⟩ := p
    obtain ⟨rfl, -, hline, hrest, hfirst⟩ := (splitAtLine?_eq_some_iff hm).mp hstart
    -- the places before the block are those at which the search has gone on
    have hfirst : NoStartWithin markers before.length (before ++ atStart) := by
      intro k hk hline'
      rw [List.take_append_of_le_length (Nat.le_of_lt hk)] at hline'
      exact hfirst k hk hline'
    right
    simp only
    cases hstop :
      splitAt? (textBytes markers.stop) (atStart.drop (textBytes markers.start).length) with
    | none =>
      refine .inl ⟨before, _, rfl, ?_, hline, hfirst, (splitAt?_eq_none_iff _).mp hstop⟩
      rw [List.append_assoc, ← eq_append_drop_of_isPrefix hrest]
    | some p =>
      obtain ⟨inner, atStop⟩ := p
      obtain ⟨hinner, hstop', hbefore⟩ := (splitAt?_eq_some_iff _).mp hstop
      have hatStart : atStart = textBytes markers.start ++ inner ++ atStop := by
        rw [List.append_assoc, ← hinner, ← eq_append_drop_of_isPrefix hrest]
      have hatStop := eq_append_drop_of_isPrefix hstop'
      refine .inr ⟨before, inner, atStop.drop (textBytes markers.stop).length, ?_, ?_,
        hline, hfirst, ?_⟩
      · simp only [take_length_of_isPrefix hrest, take_length_of_isPrefix hstop']
      · rw [hatStart]
        simp only [List.append_assoc]
        rw [← hatStop]
      · rw [hinner] at hbefore
        rw [List.append_assoc, ← hatStop]
        exact hbefore

theorem locate_eq_found {before inner rest : Bytes} (hline : AtLineStart true before)
    (hfirst : NoStartWithin markers before.length
      (before ++ textBytes markers.start ++ inner ++ textBytes markers.stop ++ rest))
    (hstop : ∀ k < inner.length, ¬ textBytes markers.stop <+: (inner ++ textBytes markers.stop ++
      rest).drop k)
    (hne : textBytes markers.start ++ inner ++ textBytes markers.stop ++ rest ≠ []) :
    locate markers (before ++ textBytes markers.start ++ inner ++ textBytes markers.stop ++ rest) =
      .found before (textBytes markers.start ++ inner ++ textBytes markers.stop ++
        (splitLineEnd rest).1)
        (splitLineEnd rest).2 := by
  have hsplit : splitAtLine? (textBytes markers.start) true
      (before ++ textBytes markers.start ++ inner ++ textBytes markers.stop ++ rest) =
        some (before, textBytes markers.start ++ (inner ++ (textBytes markers.stop ++ rest))) := by
    rw [splitAtLine?_eq_some_iff hm]
    refine ⟨by simp, by simpa using hne, hline, List.prefix_append _ _,
      fun k hk hline' => hfirst k hk ?_⟩
    simp only [List.append_assoc]
    rwa [List.take_append_of_le_length (Nat.le_of_lt hk)]
  have hsplit' : splitAt? (textBytes markers.stop) (inner ++ (textBytes markers.stop ++ rest)) =
      some (inner, textBytes markers.stop ++ rest) := by
    rw [splitAt?_eq_some_iff]
    refine ⟨rfl, List.prefix_append _ _, ?_⟩
    simpa only [List.append_assoc] using hstop
  unfold locate
  simp only [hsplit, List.drop_left, hsplit', List.take_left]

end

end FirmwareCatalog.MarkedBlock
