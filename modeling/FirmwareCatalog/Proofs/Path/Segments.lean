import FirmwareCatalog.Path
import Mathlib.Data.List.Basic

/-!
# Segments of paths

What stands between the slashes of a path, and the parts that it goes through.
Joining two paths puts their parts one behind the other, and a path that is
written from its parts goes through them again.
-/

namespace FirmwareCatalog.Path

theorem notMem_segments : ∀ (cs : List Char) {s : List Char}, s ∈ segments cs → '/' ∉ s
  | [], s, h => by
    obtain rfl : s = [] := by simpa [segments] using h
    simp
  | c :: cs, s, h => by
    have ih : ∀ s ∈ segments cs, '/' ∉ s := fun s hs => notMem_segments cs hs
    simp only [segments] at h
    by_cases hc : c = '/'
    · rw [if_pos hc, List.mem_cons] at h
      obtain rfl | h := h
      · simp
      · exact ih s h
    · rw [if_neg hc] at h
      cases hs : segments cs with
      | nil =>
        rw [hs] at h
        obtain rfl : s = [c] := by simpa using h
        simp [Ne.symm hc]
      | cons t ts =>
        rw [hs] at h ih
        simp only [List.mem_cons] at h
        obtain rfl | h := h
        · simp [Ne.symm hc, ih t (by simp)]
        · exact ih s (by simp [h])

theorem segments_ne_nil (cs : List Char) : segments cs ≠ [] := by
  cases cs with
  | nil => simp [segments]
  | cons c cs =>
    simp only [segments]
    split
    · simp
    · split <;> simp

theorem ne_nil_of_not_isIdle {s : List Char} (h : ¬ isIdle s = true) : s ≠ [] := by
  intro hs
  simp [isIdle, hs] at h

theorem segments_of_notMem {s : List Char} (h : '/' ∉ s) : segments s = [s] := by
  induction s with
  | nil => rfl
  | cons c s ih =>
    rw [List.mem_cons, not_or] at h
    simp [segments, Ne.symm h.1, ih h.2]

theorem segments_append_slash (b : List Char) : ∀ a : List Char,
    segments (a ++ '/' :: b) = segments a ++ segments b
  | [] => by simp [segments]
  | c :: a => by
    have ih := segments_append_slash b a
    rw [List.cons_append]
    simp only [segments]
    by_cases hc : c = '/'
    · rw [if_pos hc, if_pos hc, ih, List.cons_append]
    · rw [if_neg hc, if_neg hc, ih]
      cases hs : segments a with
      | nil => exact absurd hs (segments_ne_nil a)
      | cons s rest => rfl

theorem segments_joinSegments : ∀ {ss : List (List Char)}, ss ≠ [] → (∀ s ∈ ss, '/' ∉ s) →
    segments (joinSegments ss) = ss
  | [], h, _ => absurd rfl h
  | [s], _, h => segments_of_notMem (h s (by simp))
  | s :: t :: rest, _, h => by
    rw [List.forall_mem_cons] at h
    rw [joinSegments, segments_append_slash, segments_of_notMem h.1,
      segments_joinSegments (List.cons_ne_nil t rest) h.2]
    · rfl
    · simp

/-! ## Parts -/

def steps (path : Path) : List Part := (segments path.text.toList).filterMap partOfSegment?

structure IsName (name : List Char) : Prop where
  notIdle : isIdle name = false
  notUp : name ≠ ['.', '.']
  noSlash : '/' ∉ name

def Part.IsStep : Part → Prop
  | .up => True
  | .name segment => IsName segment
  | _ => False

theorem partOfSegment?_text {part : Part} (h : part.IsStep) : partOfSegment? part.text = some part := by
  cases part with
  | root => cases h
  | current => cases h
  | up => rfl
  | name name =>
    have h : IsName name := h
    simp [partOfSegment?, Part.text, h.notIdle, h.notUp]

theorem notMem_text {part : Part} (h : part.IsStep) : '/' ∉ part.text := by
  cases part with
  | root => cases h
  | current => cases h
  | up => decide
  | name name => exact IsName.noSlash h

theorem not_isIdle_text {part : Part} (h : part.IsStep) : isIdle part.text = false := by
  cases part with
  | root => cases h
  | current => cases h
  | up => rfl
  | name name => exact IsName.notIdle h

theorem partOfSegment?_nil : partOfSegment? [] = none := rfl

theorem partOfSegment?_dots : partOfSegment? ['.', '.'] = some .up := rfl

theorem partOfSegment?_of_isIdle {segment : List Char} (h : isIdle segment = true) :
    partOfSegment? segment = none := by simp [partOfSegment?, h]

theorem partOfSegment?_name {segment : List Char} (notIdle : ¬ isIdle segment = true)
    (notUp : segment ≠ ['.', '.']) :
    partOfSegment? segment = some (.name segment) := by
  simp [partOfSegment?, notIdle, notUp]

theorem isStep_of_partOfSegment? {segment : List Char} {part : Part} (hslash : '/' ∉ segment)
    (h : partOfSegment? segment = some part) : part.IsStep := by
  unfold partOfSegment? at h
  split at h
  · cases h
  · rename_i idle
    split at h
    · cases h
      trivial
    · rename_i notUp
      cases h
      exact ⟨by simpa using idle, notUp, hslash⟩

theorem isStep_of_mem_steps {path : Path} {part : Part} (h : part ∈ path.steps) : part.IsStep := by
  obtain ⟨segment, hsegment, hpart⟩ := List.mem_filterMap.mp h
  exact isStep_of_partOfSegment? (notMem_segments _ hsegment) hpart

theorem parts_of_absolute {path : Path} (h : path.isAbsolute = true) : path.parts = .root :: path.steps := by
  obtain ⟨cs, hcs⟩ : ∃ cs, path.text.toList = '/' :: cs := by
    cases htext : path.text.toList with
    | nil => simp [isAbsolute, htext] at h
    | cons c cs =>
      obtain rfl : c = '/' := by simpa [isAbsolute, htext] using h
      exact ⟨cs, rfl⟩
  simp [parts, steps, hcs, splitHead, segments, List.filterMap_cons_none partOfSegment?_nil]

theorem joinSegments_segments : ∀ cs : List Char, joinSegments (segments cs) = cs
  | [] => rfl
  | c :: cs => by
    have ih := joinSegments_segments cs
    obtain ⟨s, rest, hs⟩ := List.exists_cons_of_ne_nil (segments_ne_nil cs)
    simp only [segments]
    by_cases hc : c = '/'
    · rw [if_pos hc, hs, joinSegments, ← hs, ih, hc, List.nil_append]
      simp
    · rw [if_neg hc]
      rw [hs] at ih ⊢
      rw [← ih]
      cases rest <;> rfl

theorem dot_cases {cs : List Char} (h : (segments cs).head? = some ['.']) :
    cs = ['.'] ∨ ∃ rest, cs = '.' :: '/' :: rest := by
  obtain ⟨rest, hs⟩ := List.head?_eq_some_iff.mp h
  have hcs := joinSegments_segments cs
  rw [hs] at hcs
  cases rest with
  | nil => exact .inl hcs.symm
  | cons t rest => exact .inr ⟨_, hcs.symm⟩

theorem splitHead_of_name {cs : List Char} (relative : cs.head? ≠ some '/')
    (notDot : (segments cs).head? ≠ some ['.']) : splitHead cs = ([], cs) := by
  fun_cases splitHead cs with
  | case1 => simp at relative
  | case2 => exact absurd rfl notDot
  | case3 => simp [segments] at notDot
  | case4 => rfl

theorem parts_of_relative {path : Path} (h : path.isAbsolute = false) :
    path.parts = (if (segments path.text.toList).head? = some ['.'] then [Part.current] else []) ++ path.steps := by
  have isDot : partOfSegment? ['.'] = none := rfl
  have relative : path.text.toList.head? ≠ some '/' := by simpa [isAbsolute] using h
  unfold parts steps
  by_cases dot : (segments path.text.toList).head? = some ['.']
  · rw [if_pos dot]
    obtain htext | ⟨rest, htext⟩ := dot_cases dot
    · rw [htext]
      rfl
    · simp [htext, splitHead, segments, List.filterMap_cons_none partOfSegment?_nil, isDot]
  · rw [if_neg dot, splitHead_of_name relative dot]

/-! ## Joining -/

theorem toList_join (base : Path) {right : Path} (h : right.isAbsolute = false) :
    (base.join right).text.toList = base.text.toList ++
      ((if base.text.toList = [] ∨ base.text.toList.getLast? = some '/' then [] else ['/']) ++
        right.text.toList) := by
  rw [join, if_neg (by simp [h])]
  simp only [String.toList_append, List.append_assoc, Bool.or_eq_true, String.isEmpty_iff, decide_eq_true_eq,
    ← String.toList_eq_nil_iff]
  split <;> rfl

/-- The segments of a path behind another: a slash at the end of the first leaves no segment. -/
theorem exists_segments_join (base : Path) {right : Path} (h : right.isAbsolute = false) :
    ∃ front, segments (base.join right).text.toList = front ++ segments right.text.toList ∧
      (segments base.text.toList = front ∨ segments base.text.toList = front ++ [[]]) := by
  rw [toList_join base h]
  by_cases hends : base.text.toList = [] ∨ base.text.toList.getLast? = some '/'
  · rw [if_pos hends, List.nil_append]
    obtain hempty | hslash := hends
    · exact ⟨[], by simp [hempty], .inr (by rw [hempty]; rfl)⟩
    · obtain ⟨front, hfront⟩ := List.getLast?_eq_some_iff.mp hslash
      refine ⟨segments front, ?_, .inr ?_⟩
      · rw [hfront, List.append_assoc, List.singleton_append, segments_append_slash]
      · rw [hfront, segments_append_slash]
        rfl
  · rw [if_neg hends]
    exact ⟨_, segments_append_slash _ _, .inl rfl⟩

theorem isAbsolute_join (base : Path) {right : Path} (habsolute : base.isAbsolute = true)
    (hrelative : right.isAbsolute = false) : (base.join right).isAbsolute = true := by
  have hne : base.text.toList ≠ [] := by
    intro h
    simp [isAbsolute, h] at habsolute
  unfold isAbsolute at habsolute ⊢
  rwa [toList_join base hrelative, List.head?_append_of_ne_nil _ hne]

theorem isAbsolute_join_of_relative {base right : Path} (hbase : base.isAbsolute = false)
    (hright : right.isAbsolute = false) : (base.join right).isAbsolute = false := by
  unfold isAbsolute at hbase ⊢
  rw [toList_join base hright]
  cases hempty : base.text.toList with
  | nil => simpa [isAbsolute] using hright
  | cons c cs => simpa [hempty] using hbase

theorem steps_join (base : Path) {right : Path} (h : right.isAbsolute = false) :
    (base.join right).steps = base.steps ++ right.steps := by
  obtain ⟨front, hjoin, hbase | hbase⟩ := exists_segments_join base h
  · rw [steps, hjoin, List.filterMap_append, steps, hbase, steps]
  · rw [steps, hjoin, List.filterMap_append, steps, hbase, List.filterMap_append, steps]
    simp [List.filterMap_cons_none partOfSegment?_nil]

/-! ## Writing parts -/

theorem segments_ofParts {steps : List Part} (h : ∀ part ∈ steps, part.IsStep) (hne : steps ≠ []) :
    segments (ofParts steps).text.toList = steps.map Part.text := by
  have notRoot : steps ≠ [.root] := by
    rintro rfl
    exact h .root (by simp)
  unfold ofParts
  split
  · contradiction
  · rw [String.toList_ofList]
    apply segments_joinSegments (by simpa using hne)
    intro s hs
    obtain ⟨part, hpart, rfl⟩ := List.mem_map.mp hs
    exact notMem_text (h part hpart)

theorem isAbsolute_ofParts {steps : List Part} (h : ∀ part ∈ steps, part.IsStep) :
    (ofParts steps).isAbsolute = false := by
  cases steps with
  | nil => rfl
  | cons part rest =>
    have hsegments := segments_ofParts h (by simp)
    have notIdle := not_isIdle_text (h part (by simp))
    by_contra habsolute
    obtain ⟨cs, hcs⟩ : ∃ cs, (ofParts (part :: rest)).text.toList = '/' :: cs :=
      List.head?_eq_some_iff.mp (by simpa [isAbsolute] using habsolute)
    rw [hcs, segments, if_pos rfl, List.map_cons, List.cons.injEq] at hsegments
    rw [← hsegments.1] at notIdle
    cases notIdle

theorem steps_ofParts {steps : List Part} (h : ∀ part ∈ steps, part.IsStep) : (ofParts steps).steps = steps := by
  cases steps with
  | nil => rfl
  | cons part rest =>
    have read : ∀ p ∈ part :: rest, (partOfSegment? ∘ Part.text) p = some p := fun p hp =>
      partOfSegment?_text (h p hp)
    rw [Path.steps, segments_ofParts h (by simp), List.filterMap_map]
    rw [List.filterMap_congr (g := some) read, List.filterMap_some]

theorem parts_ofParts {steps : List Part} (h : ∀ part ∈ steps, part.IsStep) : (ofParts steps).parts = steps := by
  rw [parts_of_relative (isAbsolute_ofParts h), steps_ofParts h]
  cases steps with
  | nil => rfl
  | cons part rest =>
    have notIdle := not_isIdle_text (h part (by simp))
    have notDot : part.text ≠ ['.'] := by
      intro hdot
      rw [hdot] at notIdle
      cases notIdle
    simp [segments_ofParts h, notDot]

end FirmwareCatalog.Path
