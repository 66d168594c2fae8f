import FirmwareCatalog.Proofs.Bytewise.Classes
import FirmwareCatalog.Proofs.Header.Zone

/-!
# Comments by byte offsets

A span is a longest run of bytes in comments. All bytes of a character have one
class, so a span begins and ends between two characters.
-/

namespace FirmwareCatalog.Bytewise

open Header Utf8

/-! ## Spans -/

/-- The spans from the class at `i` on; `start` is where an open one began. -/
def spansFrom : (i : Nat) → (start : Option Nat) → List Zone → List (Nat × Nat)
  | _, none, [] => []
  | i, some start, [] => [(start, i)]
  | i, none, zone :: zones =>
    if zone.isComment then spansFrom (i + 1) (some i) zones else spansFrom (i + 1) none zones
  | i, some start, zone :: zones =>
    if zone.isComment then spansFrom (i + 1) (some start) zones else (start, i) :: spansFrom (i + 1) none zones

def stripFrom (text : List Char) : (last : Nat) → List (Nat × Nat) → Checked (List Char)
  | last, [] => sliceFrom text last
  | last, (start, stop) :: spans => do
    let piece ← slice text last start
    let rest ← stripFrom text stop spans
    return piece ++ ' ' :: rest

def stripComments (text : List Char) : Checked (List Char) := stripFrom text 0 (spansFrom 0 none (classes text))

section

variable {zone : Zone} (i : Nat) (zones : List Zone)

theorem spansFrom_replicate {start : Option Nat} (h : zone.isComment = start.isSome) (n : Nat) :
    spansFrom i start (List.replicate n zone ++ zones) = spansFrom (i + n) start zones := by
  induction n generalizing i with
  | zero => rfl
  | succ n ih =>
    have hstep : spansFrom i start (zone :: (List.replicate n zone ++ zones)) =
        spansFrom (i + 1) start (List.replicate n zone ++ zones) := by
      cases start <;> simp [spansFrom, h]
    rw [List.replicate_succ, List.cons_append, hstep, ih, Nat.add_assoc, Nat.add_comm 1]

variable (m : Marked)

theorem exists_spread_eq : ∃ n, width [m.1] = n + 1 ∧ spread m = m.2 :: List.replicate n m.2 := by
  obtain ⟨n, hn⟩ := Nat.exists_eq_succ_of_ne_zero (Nat.ne_of_gt (width_pos m.1))
  exact ⟨n, hn, by rw [spread, hn, List.replicate_succ]⟩

theorem spansFrom_pass {start : Option Nat} (h : m.2.isComment = start.isSome) :
    spansFrom i start (spread m ++ zones) = spansFrom (i + width [m.1]) start zones :=
  spansFrom_replicate i zones h (width [m.1])

theorem spansFrom_begin (h : m.2.isComment = true) :
    spansFrom i none (spread m ++ zones) = spansFrom (i + width [m.1]) (some i) zones := by
  obtain ⟨n, hwidth, hspread⟩ := exists_spread_eq m
  rw [hspread, List.cons_append, spansFrom, if_pos h, spansFrom_replicate (i + 1) zones h, hwidth, Nat.add_assoc,
    Nat.add_comm 1]

theorem spansFrom_end (h : m.2.isComment = false) (start : Nat) :
    spansFrom i (some start) (spread m ++ zones) = (start, i) :: spansFrom (i + width [m.1]) none zones := by
  obtain ⟨n, hwidth, hspread⟩ := exists_spread_eq m
  rw [hspread, List.cons_append, spansFrom, if_neg (by simp [h]), spansFrom_replicate (i + 1) zones h, hwidth,
    Nat.add_assoc, Nat.add_comm 1]

end

/-! ## Stripping -/

section

variable {text : List Char}

theorem stripFrom_span {done part run behind rest : List Char} (htext : text = done ++ (part ++ (run ++ behind)))
    {spans : List (Nat × Nat)} (hrest : stripFrom text (width (done ++ (part ++ run))) spans = .ok rest) :
    stripFrom text (width done) ((width done + width part, width done + width part + width run) :: spans) =
      .ok (part ++ ' ' :: rest) := by
  have hpiece : slice text (width done) (width done + width part) = .ok part := by
    rw [htext]
    exact slice_append done part _
  have hwidth : width done + width part + width run = width (done ++ (part ++ run)) := by
    rw [width_append, width_append, Nat.add_assoc]
  rw [stripFrom, hpiece, ok_bind, hwidth, hrest, ok_bind, pure_eq_ok]

/-- Outside a span the piece at hand is kept; inside one it is kept up to the span. -/
theorem stripFrom_eq (rest : List Marked) :
    (∀ done part : List Char, text = done ++ (part ++ plain rest) →
      stripFrom text (width done) (spansFrom (width done + width part) none (rest.flatMap spread)) =
        .ok (part ++ stripRuns false rest)) ∧
    ∀ done part run : List Char, text = done ++ (part ++ (run ++ plain rest)) →
      stripFrom text (width done) (spansFrom (width done + width part + width run) (some (width done + width part))
        (rest.flatMap spread)) = .ok (part ++ ' ' :: stripRuns true rest) := by
  -- both halves at once, since each ends where the other begins
  induction rest with
  | nil =>
    constructor
    · intro done part htext
      rw [plain_nil, List.append_nil] at htext
      have hslice := sliceFrom_append done part
      rw [← htext] at hslice
      rw [stripRuns, List.append_nil]
      exact hslice
    · intro done part run htext
      apply stripFrom_span htext
      have hslice := sliceFrom_append (done ++ (part ++ run)) []
      rw [List.append_nil, show done ++ (part ++ run) = text by simp [htext]] at hslice
      rw [show done ++ (part ++ run) = text by simp [htext]]
      exact hslice
  | cons m rest ih =>
    obtain ⟨outside, inside⟩ := ih
    constructor
    · intro done part htext
      rw [List.flatMap_cons]
      by_cases hcomment : m.2.isComment = true
      · rw [spansFrom_begin _ _ m hcomment, inside done part [m.1] (by simp [htext]), stripRuns, if_pos hcomment]
        rfl
      · rw [spansFrom_pass _ _ m (by simpa using hcomment), add_width_append,
          outside done (part ++ [m.1]) (by simp [htext]), stripRuns, if_neg hcomment, List.append_assoc]
        rfl
    · intro done part run htext
      rw [List.flatMap_cons]
      by_cases hcomment : m.2.isComment = true
      · rw [spansFrom_pass _ _ m (by simpa using hcomment), add_width_append,
          inside done part (run ++ [m.1]) (by simp [htext]), stripRuns, if_pos hcomment]
        rfl
      · rw [spansFrom_end _ _ m (by simpa using hcomment), stripRuns, if_neg hcomment]
        apply stripFrom_span htext
        have hplace : width done + width part + width run = width (done ++ (part ++ run)) := by
          rw [width_append, width_append, Nat.add_assoc]
        rw [hplace, outside _ [m.1] (by simp [htext])]
        rfl

theorem stripComments_eq (text : List Char) : stripComments text = .ok (Header.stripComments text) := by
  have h := (stripFrom_eq (mark text)).1 [] [] (plain_mark text).symm
  rw [← classes_eq] at h
  exact h

end

end FirmwareCatalog.Bytewise
