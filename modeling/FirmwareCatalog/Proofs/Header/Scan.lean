import FirmwareCatalog.Header.Scan
import FirmwareCatalog.Proofs.Text.Infix
import Mathlib.Data.List.Basic

/-!
# Scanning piece by piece

A scan of a text that is cut between two matches is the scans of its pieces.
What is read does not hang on the place where the text begins, and a reader that
starts at line starts only reads whole lines one after the other.
-/

namespace FirmwareCatalog.Header

variable {α : Type} {read : Reader α}

/-- The character before the place behind a text. -/
def behind (before : Option Char) (text : List Char) : Option Char := text.getLast?.or before

@[simp] theorem behind_nil (before : Option Char) : behind before [] = before := rfl

@[simp] theorem behind_cons (before : Option Char) (c : Char) (text : List Char) :
    behind before (c :: text) = behind (some c) text := by
  cases text with
  | nil => rfl
  | cons d text => rw [behind, behind, List.getLast?_cons_cons, List.getLast?_cons]; rfl

@[simp] theorem behind_append (before : Option Char) (a b : List Char) :
    behind before (a ++ b) = behind (behind before a) b := by
  induction a generalizing before with
  | nil => rfl
  | cons c a ih => rw [List.cons_append, behind_cons, behind_cons, ih]

/-! ## Pieces -/

/-- A reader takes something off the front of a text, or nothing is read. -/
def Consumes (read : Reader α) : Prop :=
  ∀ ⦃before text value rest⦄, read before text = some (value, rest) → ∃ taken, taken ≠ [] ∧
    text = taken ++ rest

def Match.shift (n : Nat) (m : Match α) : Match α := ⟨n + m.start, m.value, m.text⟩

theorem scanFrom_shift (n : Nat) : ∀ (text : List Char) (place : Nat) (before : Option Char)
    (skip : Nat),
    scanFrom read (n + place) before skip text = (scanFrom read place before skip text).map
      (Match.shift n)
  | [], _, _, _ => by simp [scanFrom]
  | c :: cs, place, _, skip + 1 => by
    rw [scanFrom, scanFrom, ← scanFrom_shift n cs, Nat.add_assoc]
  | c :: cs, place, before, 0 => by
    rw [scanFrom, scanFrom]
    cases read before (c :: cs) with
    | none => simp only; rw [← scanFrom_shift n cs, Nat.add_assoc]
    | some p => simp only [List.map_cons]; rw [← scanFrom_shift n cs, Nat.add_assoc]; rfl

theorem scanFrom_skip (place : Nat) (before : Option Char) (a b : List Char) :
    scanFrom read place before a.length (a ++ b) = scanFrom read (place + a.length)
      (behind before a) 0 b := by
  induction a generalizing place before with
  | nil => rfl
  | cons c a ih =>
    rw [List.length_cons, List.cons_append, scanFrom, ih, behind_cons, Nat.add_assoc, Nat.add_comm 1]

theorem scanFrom_pass {b : List Char} : ∀ {a : List Char} {place : Nat} {before : Option Char},
    (∀ a₁ c a₂, a = a₁ ++ c :: a₂ → read (behind before a₁) (c :: a₂ ++ b) = none) →
      scanFrom read place before 0 (a ++ b) = scanFrom read (place + a.length) (behind before a) 0 b
  | [], _, _, _ => rfl
  | c :: a, place, before, h => by
    have hc : read before (c :: (a ++ b)) = none := h [] c a rfl
    rw [List.cons_append, scanFrom, hc]
    simp only
    rw [scanFrom_pass fun a₁ d a₂ ha => ?_, behind_cons, List.length_cons, Nat.add_assoc,
      Nat.add_comm 1]
    rw [← behind_cons before c a₁]
    exact h (c :: a₁) d a₂ (congrArg (c :: ·) ha)

theorem scanFrom_match {m b : List Char} {value : α} (place : Nat) {before : Option Char} (hm : m ≠ [])
    (h : read before (m ++ b) = some (value, b)) :
    scanFrom read place before 0 (m ++ b) =
      ⟨place, value, m⟩ :: scanFrom read (place + m.length) (behind before m) 0 b := by
  cases m with
  | nil => exact absurd rfl hm
  | cons c m =>
    rw [List.cons_append] at h
    have hlength : (m ++ b).length + 1 - b.length = m.length + 1 := by rw [List.length_append]; omega
    rw [List.cons_append, scanFrom, h]
    simp only [hlength, Nat.add_sub_cancel]
    rw [scanFrom_skip, List.take_succ_cons, List.take_left, behind_cons, List.length_cons,
      Nat.add_assoc,
      Nat.add_comm 1]

/-! ## Where a scan reads -/

/-- A text is gone through match by match, and by single characters where nothing is read. -/
@[elab_as_elim] theorem scan_induction (hread : Consumes read) {motive : Option Char → List Char → Prop}
    (nil : ∀ before, motive before [])
    (skip : ∀ before c text, read before (c :: text) = none → motive (some c) text → motive before (c :: text))
    (found : ∀ before taken value rest, taken ≠ [] → read before (taken ++ rest) = some (value, rest) →
      motive (behind before taken) rest → motive before (taken ++ rest))
    (before : Option Char) (text : List Char) : motive before text := by
  induction h : text.length using Nat.strongRecOn generalizing text before with
  | ind n ih =>
    subst h
    cases text with
    | nil => exact nil before
    | cons c text =>
      cases hc : read before (c :: text) with
      | none => exact skip before c text hc (ih _ (by simp) _ text rfl)
      | some p =>
        obtain ⟨value, rest⟩ := p
        obtain ⟨taken, hne, htext⟩ := hread hc
        rw [htext] at hc ih ⊢
        have hpos := List.length_pos_iff.mpr hne
        exact found before taken value rest hne hc (ih _ (by rw [List.length_append]; omega) _ rest rfl)

theorem exists_of_mem_scanFrom (hread : Consumes read) {m : Match α} {text : List Char} {place : Nat}
    {before : Option Char} (hm : m ∈ scanFrom read place before 0 text) :
    ∃ x rest, text = x ++ (m.text ++ rest) ∧ m.start = place + x.length ∧
      read (behind before x) (m.text ++ rest) = some (m.value, rest) := by
  induction before, text using scan_induction hread generalizing place with
  | nil before => cases hm
  | skip before c text hc ih =>
    rw [scanFrom, hc] at hm
    obtain ⟨x, rest, rfl, hstart, hvalue⟩ := ih hm
    refine ⟨c :: x, rest, rfl, by rw [hstart, List.length_cons]; omega, ?_⟩
    rwa [behind_cons]
  | found before taken value rest hne hc ih =>
    rw [scanFrom_match place hne hc, List.mem_cons] at hm
    rcases hm with rfl | hm
    · exact ⟨[], rest, rfl, rfl, hc⟩
    · obtain ⟨x, rest', rfl, hstart, hvalue⟩ := ih hm
      refine ⟨taken ++ x, rest', by simp, by rw [hstart, List.length_append]; omega, ?_⟩
      rwa [behind_append]

/-- Where no match reaches over the end of a piece, the scan goes on behind it. -/
theorem scanFrom_append (hread : Consumes read) {b : List Char} :
    ∀ {a : List Char} (place : Nat) (before : Option Char),
      (∀ x y value rest, a = x ++ y → y ≠ [] → read (behind before x) (y ++ b) = some (value, rest) →
        ∃ taken r, y = taken ++ r ∧ rest = r ++ b) →
      ∃ found, scanFrom read place before 0 (a ++ b) =
          found ++ scanFrom read (place + a.length) (behind before a) 0 b ∧
        ∀ m ∈ found, ∃ x y rest, a = x ++ y ∧ y ≠ [] ∧ m.start = place + x.length ∧
          read (behind before x) (y ++ b) = some (m.value, rest) := by
  intro a
  -- a match is passed at once, so the induction is on the length
  induction h : a.length using Nat.strongRecOn generalizing a with
  | ind n ih =>
    intro place before hinside
    subst h
    cases a with
    | nil => exact ⟨[], rfl, fun m hm => nomatch hm⟩
    | cons c a =>
      cases hc : read before (c :: a ++ b) with
      | none =>
        obtain ⟨ms, hscan, hms⟩ := ih a.length (by simp) rfl (place + 1) (some c)
          fun x y value rest ha hy hr => hinside (c :: x) y value rest (by rw [ha]; rfl) hy
            (by rwa [behind_cons])
        refine ⟨ms, ?_, fun m hm => ?_⟩
        · rw [List.cons_append] at hc ⊢
          rw [scanFrom, hc, behind_cons, List.length_cons, Nat.add_comm a.length, ← Nat.add_assoc]
          exact hscan
        · obtain ⟨x, y, rest, rfl, hy, hstart, hvalue⟩ := hms m hm
          refine ⟨c :: x, y, rest, rfl, hy, by rw [hstart, List.length_cons]; omega, ?_⟩
          rwa [behind_cons]
      | some p =>
        obtain ⟨value, rest⟩ := p
        obtain ⟨taken, r, htaken, rfl⟩ := hinside [] (c :: a) value rest rfl (List.cons_ne_nil _ _) hc
        have hne : taken ≠ [] := by
          rintro rfl
          obtain ⟨t, ht, he⟩ := hread hc
          rw [htaken, List.nil_append] at he
          exact ht (by simpa using he)
        have hlength : r.length < (c :: a).length := by
          rw [htaken, List.length_append]
          have := List.length_pos_iff.mpr hne
          omega
        have hat : read before (taken ++ (r ++ b)) = some (value, r ++ b) := by
          rw [← List.append_assoc, ← htaken]
          exact hc
        obtain ⟨ms, hscan, hms⟩ := ih r.length hlength rfl (place + taken.length) (behind before taken)
          fun x y value' rest' hr hy hvalue => hinside (taken ++ x) y value' rest'
            (by rw [htaken, hr, List.append_assoc]) hy (by rwa [behind_append])
        refine ⟨⟨place, value, taken⟩ :: ms, ?_, ?_⟩
        · rw [htaken, List.append_assoc, scanFrom_match place hne hat, hscan, List.length_append,
            behind_append,
            Nat.add_assoc, List.cons_append]
        · intro m hm
          rcases List.mem_cons.mp hm with rfl | hm
          · exact ⟨[], c :: a, r ++ b, rfl, List.cons_ne_nil _ _, rfl, hc⟩
          · obtain ⟨x, y, rest', rfl, hy, hstart, hvalue⟩ := hms m hm
            refine ⟨taken ++ x, y, rest', by rw [htaken, List.append_assoc], hy,
              by rw [hstart, List.length_append]; omega, ?_⟩
            rwa [behind_append]

/-! ## What is read -/

def readings (read : Reader α) (before : Option Char) (text : List Char) : List α :=
  (scanFrom read 0 before 0 text).map (·.value)

theorem map_value_scan (text : List Char) :
    (scan read text).map (·.value) = readings read none text := rfl

theorem map_value_scanFrom (place : Nat) (before : Option Char) (text : List Char) :
    (scanFrom read place before 0 text).map (·.value) = readings read before text := by
  rw [← Nat.add_zero place, scanFrom_shift, List.map_map]
  rfl

theorem readings_pass {a b : List Char} {before : Option Char}
    (h : ∀ a₁ c a₂, a = a₁ ++ c :: a₂ → read (behind before a₁) (c :: a₂ ++ b) = none) :
    readings read before (a ++ b) = readings read (behind before a) b := by
  rw [readings, scanFrom_pass h, map_value_scanFrom]

theorem readings_cons_of_none {c : Char} {text : List Char} {before : Option Char}
    (h : read before (c :: text) = none) :
    readings read before (c :: text) = readings read (some c) text := by
  rw [readings, scanFrom, h]
  exact map_value_scanFrom _ _ _

theorem readings_match {m b : List Char} {value : α} {before : Option Char} (hm : m ≠ [])
    (h : read before (m ++ b) = some (value, b)) :
    readings read before (m ++ b) = value :: readings read (behind before m) b := by
  rw [readings, scanFrom_match 0 hm h, List.map_cons, map_value_scanFrom]

/-! ## Lines -/

def ReadsAtLineStart (read : Reader α) : Prop :=
  ∀ ⦃before text⦄, startsLine before = false → read before text = none

theorem startsLine_newline : startsLine (some '\n') = true := rfl

theorem startsLine_of_ne {c : Char} (h : c ≠ '\n') : startsLine (some c) = false := by
  simp [startsLine, h]

theorem startsLine_behind_of_notMem {text : List Char} (hne : text ≠ []) (h : '\n' ∉ text)
    (before : Option Char) :
    startsLine (behind before text) = false := by
  rw [behind, List.getLast?_eq_some_getLast hne, Option.some_or]
  exact startsLine_of_ne fun he => h (he ▸ List.getLast_mem hne)

section
variable (hread : ReadsAtLineStart read)
include hread

theorem readings_lineEnd {tail : List Char} (htail : '\n' ∉ tail) {before : Option Char}
    (hbefore : startsLine before = false) (rest : List Char) :
    readings read before (tail ++ '\n' :: rest) = readings read (some '\n') rest := by
  have h : readings read before (tail ++ ['\n'] ++ rest) =
      readings read (behind before (tail ++ ['\n'])) rest := by
    refine readings_pass fun a₁ c a₂ ha => hread ?_
    have hfront : a₁ <+: tail := by
      rcases List.append_eq_append_iff.mp ha with ⟨x, rfl, hx⟩ | ⟨x, rfl, -⟩
      · cases x with
        | nil => simp
        | cons y x => simp at hx
      · exact List.prefix_append _ _
    cases a₁ with
    | nil => exact hbefore
    | cons d a₁ =>
      exact startsLine_behind_of_notMem (List.cons_ne_nil _ _) (fun hn => htail (hfront.subset hn)) _
  simpa using h

theorem readings_otherLine {line : List Char} (hne : line ≠ []) (hline : '\n' ∉ line)
    {before : Option Char}
    {rest : List Char} (h : read before (line ++ '\n' :: rest) = none) :
    readings read before (line ++ '\n' :: rest) = readings read (some '\n') rest := by
  cases line with
  | nil => exact absurd rfl hne
  | cons c line =>
    rw [List.mem_cons, not_or] at hline
    rw [List.cons_append] at h ⊢
    rw [readings_cons_of_none h]
    exact readings_lineEnd hread hline.2 (startsLine_of_ne (Ne.symm hline.1)) rest

theorem readings_line {taken tail : List Char} (hne : taken ≠ []) (htaken : '\n' ∉ taken)
    (htail : '\n' ∉ tail)
    {before : Option Char} {rest : List Char} {value : α}
    (h : read before (taken ++ (tail ++ '\n' :: rest)) = some (value, tail ++ '\n' :: rest)) :
    readings read before (taken ++ (tail ++ '\n' :: rest)) = value :: readings read
      (some '\n') rest := by
  rw [readings_match hne h,
    readings_lineEnd hread htail (startsLine_behind_of_notMem hne htaken before)]

end

theorem readings_emptyLine (hconsumes : Consumes read) {before : Option Char} {rest : List Char}
    (h : read before ('\n' :: rest) = read (some '\n') rest) :
    readings read before ('\n' :: rest) = readings read (some '\n') rest := by
  cases hr : read (some '\n') rest with
  | none => exact readings_cons_of_none (h.trans hr)
  | some p =>
    obtain ⟨value, rest'⟩ := p
    obtain ⟨taken, hne, rfl⟩ := hconsumes hr
    rw [readings_match hne hr, ← behind_cons before, ← List.cons_append]
    exact readings_match (List.cons_ne_nil _ _) (h.trans hr)

/-! ## Lists of lines -/

/-- What is read from whole lines, whatever stands behind them. -/
def ReadsLines (read : Reader α) (lines : List (List Char)) (values : List α) : Prop :=
  ∀ ⦃before⦄ (rest : List Char), startsLine before = true → ∃ before', startsLine before' = true ∧
    readings read before (Text.ofLines lines ++ rest) = values ++ readings read before' rest

theorem ReadsLines.nil : ReadsLines read [] [] := fun before _ h => ⟨before, h, rfl⟩

theorem ReadsLines.append {a b : List (List Char)} {v w : List α} (ha : ReadsLines read a v)
    (hb : ReadsLines read b w) : ReadsLines read (a ++ b) (v ++ w) := by
  intro before rest hbefore
  obtain ⟨middle, hmiddle, hv⟩ := ha (Text.ofLines b ++ rest) hbefore
  obtain ⟨after, hafter, hw⟩ := hb rest hmiddle
  refine ⟨after, hafter, ?_⟩
  rw [Text.ofLines_append, List.append_assoc, hv, hw, List.append_assoc]

theorem ReadsLines.readings {lines : List (List Char)} {values : List α}
    (h : ReadsLines read lines values) :
    Header.readings read none (Text.ofLines lines) = values := by
  obtain ⟨before, -, hr⟩ := @h none [] rfl
  rw [List.append_nil] at hr
  rw [hr, Header.readings, scanFrom, List.map_nil, List.append_nil]

theorem readsLines_empty (hconsumes : Consumes read)
    (h : ∀ before rest, startsLine before = true → read before ('\n' :: rest) =
      read (some '\n') rest) :
    ReadsLines read [[]] [] := by
  intro before rest hbefore
  refine ⟨some '\n', rfl, ?_⟩
  simpa using readings_emptyLine hconsumes (h before rest hbefore)

theorem readsLines_other (hread : ReadsAtLineStart read) {line : List Char} (hne : line ≠ [])
    (hline : '\n' ∉ line)
    (h : ∀ before rest, startsLine before = true → read before (line ++ '\n' :: rest) = none) :
    ReadsLines read [line] [] := by
  intro before rest hbefore
  refine ⟨some '\n', rfl, ?_⟩
  simpa using readings_otherLine hread hne hline (h before rest hbefore)

theorem readsLines_value (hread : ReadsAtLineStart read) {taken tail : List Char} {value : α}
    (hne : taken ≠ [])
    (htaken : '\n' ∉ taken) (htail : '\n' ∉ tail)
    (h : ∀ before rest, startsLine before = true →
      read before (taken ++ (tail ++ '\n' :: rest)) = some (value, tail ++ '\n' :: rest)) :
    ReadsLines read [taken ++ tail] [value] := by
  intro before rest hbefore
  refine ⟨some '\n', rfl, ?_⟩
  simpa using readings_line hread hne htaken htail (h before rest hbefore)

end FirmwareCatalog.Header
