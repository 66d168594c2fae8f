import FirmwareCatalog.Proofs.Path.Segments

/-!
# Normal form of paths

A relative path leads some directories up and then down along names. Its normal
form keeps the names, but of the ways up only whether their number is odd: a `..`
takes back a `..` before it. So the normal form leads to the same place exactly
for the paths that lead up at most once.
-/

namespace FirmwareCatalog.Path

/-! ## Courses -/

/-- Where a relative path leads: so many directories up, then down along names, the last first. -/
structure Course where
  climb : Nat
  names : List (List Char)

namespace Course

def step : Course → Part → Course
  | ⟨climb, []⟩, .up => ⟨climb + 1, []⟩
  | ⟨climb, _ :: names⟩, .up => ⟨climb, names⟩
  | ⟨climb, names⟩, .name segment => ⟨climb, segment :: names⟩
  | course, _ => course

def start : Course := ⟨0, []⟩

theorem step_name (climb : Nat) (names : List (List Char)) (n : List Char) :
    step ⟨climb, names⟩ (.name n) = ⟨climb, n :: names⟩ := by
  cases names <;> rfl

theorem climb_le_step (course : Course) (part : Part) : course.climb ≤ (course.step part).climb := by
  obtain ⟨climb, names⟩ := course
  cases part <;> cases names <;> simp [step]

theorem climb_le_foldl (parts : List Part) : ∀ course : Course, course.climb ≤ (parts.foldl step course).climb := by
  induction parts with
  | nil => exact fun course => Nat.le_refl _
  | cons part parts ih => exact fun course => Nat.le_trans (climb_le_step course part) (ih _)

theorem isName_step {course : Course} {part : Part} (h : ∀ n ∈ course.names, IsName n)
    (hpart : ∀ n, part = .name n → IsName n) : ∀ n ∈ (course.step part).names, IsName n := by
  obtain ⟨climb, names⟩ := course
  cases part with
  | root => cases names <;> exact h
  | current => cases names <;> exact h
  | name segment =>
    rw [step_name, List.forall_mem_cons]
    exact ⟨hpart segment rfl, h⟩
  | up =>
    cases names with
    | nil => exact h
    | cons n names => exact fun m hm => h m (List.mem_cons_of_mem _ hm)

theorem isName_foldl {parts : List Part} (hparts : ∀ n, .name n ∈ parts → IsName n) {course : Course}
    (h : ∀ n ∈ course.names, IsName n) : ∀ n ∈ (parts.foldl step course).names, IsName n := by
  induction parts generalizing course with
  | nil => exact h
  | cons part parts ih =>
    apply ih fun n hn => hparts n (List.mem_cons_of_mem _ hn)
    apply isName_step h
    rintro n rfl
    exact hparts n List.mem_cons_self

theorem foldl_step_up (climb k : Nat) :
    (List.replicate k Part.up).foldl step ⟨climb, []⟩ = ⟨climb + k, []⟩ := by
  induction k generalizing climb with
  | zero => rfl
  | succ k ih =>
    rw [List.replicate_succ, List.foldl_cons, step, ih, Nat.add_assoc, Nat.add_comm 1]

theorem foldl_step_name (climb : Nat) : ∀ down names : List (List Char),
    (down.map Part.name).foldl step ⟨climb, names⟩ = ⟨climb, down.reverse ++ names⟩
  | [], _ => rfl
  | n :: down, names => by
    rw [List.map_cons, List.foldl_cons, step_name, foldl_step_name climb down, List.reverse_cons, List.append_assoc]
    rfl

end Course

def course (path : Path) : Course := path.parts.foldl Course.step .start

theorem course_eq {path : Path} (h : path.isAbsolute = false) : path.course = path.steps.foldl Course.step .start := by
  unfold course
  rw [parts_of_relative h]
  split <;> rfl

theorem isName_of_mem_parts {path : Path} (h : path.isAbsolute = false) {n : List Char} (hn : .name n ∈ path.parts) :
    IsName n := by
  have hsteps : .name n ∈ path.steps := by
    rw [parts_of_relative h] at hn
    split at hn <;> simpa using hn
  exact isStep_of_mem_steps hsteps

theorem isName_course {path : Path} (h : path.isAbsolute = false) : ∀ n ∈ path.course.names, IsName n :=
  Course.isName_foldl (fun _ => isName_of_mem_parts h) (by simp [Course.start])

/-! ## Normal form -/

def normalized (path : Path) : Path := ofParts (normalize path.parts)

def Course.pushed (course : Course) : List Part := course.names.map .name ++ List.replicate (course.climb % 2) .up

theorem Course.pushPart_pushed (course : Course) {part : Part} (h : part.IsStep) :
    pushPart course.pushed part = (course.step part).pushed := by
  obtain ⟨climb, names⟩ := course
  cases part with
  | root => cases h
  | current => cases h
  | name segment =>
    cases names with
    | nil => obtain hodd | hodd := Nat.mod_two_eq_zero_or_one climb <;> simp [pushed, step, pushPart, hodd]
    | cons n names => simp [pushed, step, pushPart]
  | up =>
    cases names with
    | nil =>
      -- the second of two ways up takes the first one back
      obtain hodd | hodd := Nat.mod_two_eq_zero_or_one climb
      · simp [pushed, step, pushPart, hodd, Nat.add_mod]
      · simp [pushed, step, pushPart, hodd, Nat.add_mod]
    | cons n names => simp [pushed, step, pushPart]

theorem Course.foldl_pushPart : ∀ {parts : List Part} (course : Course), (∀ part ∈ parts, part.IsStep) →
    parts.foldl pushPart course.pushed = (parts.foldl step course).pushed
  | [], _, _ => rfl
  | part :: parts, course, h => by
    rw [List.forall_mem_cons] at h
    rw [List.foldl_cons, List.foldl_cons, pushPart_pushed course h.1, foldl_pushPart _ h.2]

theorem normalize_parts {path : Path} (h : path.isAbsolute = false) :
    normalize path.parts =
      List.replicate (path.course.climb % 2) .up ++ path.course.names.reverse.map .name := by
  have hsteps : normalize path.parts = normalize path.steps := by
    unfold normalize
    rw [parts_of_relative h]
    split <;> rfl
  have hpushed : path.steps.foldl pushPart [] = path.course.pushed := by
    rw [course_eq h]
    exact Course.foldl_pushPart .start fun part hpart => isStep_of_mem_steps hpart
  rw [hsteps, normalize, hpushed, Course.pushed]
  simp

theorem isStep_normalize {path : Path} (h : path.isAbsolute = false) :
    ∀ part ∈ normalize path.parts, part.IsStep := by
  rw [normalize_parts h]
  intro part hpart
  rw [List.mem_append] at hpart
  obtain hpart | hpart := hpart
  · rw [List.eq_of_mem_replicate hpart]
    trivial
  · obtain ⟨n, hn, rfl⟩ := List.mem_map.mp hpart
    exact isName_course h n (List.mem_reverse.mp hn)

theorem isAbsolute_normalized {path : Path} (h : path.isAbsolute = false) : path.normalized.isAbsolute = false :=
  isAbsolute_ofParts (isStep_normalize h)

theorem course_normalized {path : Path} (h : path.isAbsolute = false) :
    path.normalized.course = ⟨path.course.climb % 2, path.course.names⟩ := by
  rw [course_eq (isAbsolute_normalized h), normalized, steps_ofParts (isStep_normalize h), normalize_parts h,
    List.foldl_append, Course.start, Course.foldl_step_up, Course.foldl_step_name]
  simp

theorem normalized_normalized {path : Path} (h : path.isAbsolute = false) :
    path.normalized.normalized = path.normalized := by
  have hparts : normalize path.normalized.parts = normalize path.parts := by
    rw [normalize_parts (isAbsolute_normalized h), course_normalized h, normalize_parts h, Nat.mod_mod]
  rw [normalized, hparts, normalized]

/-! ## Places -/

/-- One part further from a place, its last part first: `..` takes back the part before it, but never the root. -/
def visit : List Part → Part → List Part
  | place, .current => place
  | [], .up => []
  | [.root], .up => [.root]
  | _ :: place, .up => place
  | place, part => part :: place

theorem visit_up (part next : Part) (place : List Part) : visit (part :: next :: place) .up = next :: place := by
  cases part <;> rfl

/-- The place that a path denotes, found part by part. -/
def located (path : Path) : List Part := (path.parts.foldl visit []).reverse

def Course.onto (course : Course) (place : List Part) : List Part :=
  course.names.map .name ++ place.drop course.climb

theorem Course.visit_onto {course : Course} {part : Part} {place : List Part} (h : part.IsStep)
    (deep : (course.step part).climb < place.length) :
    visit (course.onto place) part = (course.step part).onto place := by
  obtain ⟨climb, names⟩ := course
  cases part with
  | root => cases h
  | current => cases h
  | name segment => cases names <;> simp [onto, step, visit]
  | up =>
    cases names with
    | cons n names => simp [onto, step, visit]
    | nil =>
      -- the root is never reached
      have deep : climb + 1 < place.length := deep
      have hnext : place.drop (climb + 1) = place[climb + 1] :: place.drop (climb + 1 + 1) :=
        List.drop_eq_getElem_cons deep
      have hdrop : place.drop climb = place[climb] :: place.drop (climb + 1) := List.drop_eq_getElem_cons (by omega)
      simp only [onto, step, List.map_nil, List.nil_append]
      rw [hdrop, hnext, visit_up]

theorem Course.foldl_visit {place : List Part} : ∀ {parts : List Part} {course : Course},
    (∀ part ∈ parts, part.IsStep) → (parts.foldl step course).climb < place.length →
      parts.foldl visit (course.onto place) = (parts.foldl step course).onto place
  | [], _, _, _ => rfl
  | part :: parts, course, h, deep => by
    rw [List.forall_mem_cons] at h
    have deep' : (course.step part).climb < place.length := Nat.lt_of_le_of_lt (climb_le_foldl parts _) deep
    rw [List.foldl_cons, List.foldl_cons, visit_onto h.1 deep', foldl_visit h.2 deep]

theorem located_join {d p : Path} (absolute : d.isAbsolute = true) (relative : p.isAbsolute = false)
    (deep : p.course.climb < d.located.length) :
    (d.join p).located =
      d.located.take (d.located.length - p.course.climb) ++ p.course.names.reverse.map .name := by
  have hparts : (d.join p).parts = d.parts ++ p.steps := by
    rw [parts_of_absolute (isAbsolute_join d absolute relative), steps_join d relative, parts_of_absolute absolute,
      List.cons_append]
  have deep' : p.course.climb < (d.parts.foldl visit []).length := by simpa [located] using deep
  rw [course_eq relative] at deep' ⊢
  have hvisit : p.steps.foldl visit (Course.start.onto (d.parts.foldl visit [])) =
      (p.steps.foldl Course.step .start).onto (d.parts.foldl visit []) :=
    Course.foldl_visit (fun part hpart => isStep_of_mem_steps hpart) deep'
  have hstart : Course.start.onto (d.parts.foldl visit []) = d.parts.foldl visit [] := rfl
  rw [hstart] at hvisit
  rw [located, hparts, List.foldl_append, hvisit, Course.onto, List.reverse_append, List.reverse_drop,
    ← List.map_reverse, located, List.length_reverse]

/-- **Where normal forms lead.** From a directory deep enough, a relative path leads up as often as its course says
and then down along its names. Its normal form, which is its own normal form and goes up at most once and only at its
start, leads to the same place exactly if the course leads up at most once. -/
theorem normalized_keeps_place_iff (d p : Path) (absolute : d.isAbsolute = true) (relative : p.isAbsolute = false)
    (deep : p.course.climb < d.located.length) :
    (d.join p).located =
        d.located.take (d.located.length - p.course.climb) ++ p.course.names.reverse.map .name ∧
      ((d.join p.normalized).located = (d.join p).located ↔ p.course.climb ≤ 1) ∧
      p.normalized.normalized = p.normalized ∧
      p.normalized.parts = List.replicate (p.course.climb % 2) .up ++ p.course.names.reverse.map .name := by
  have hcourse := course_normalized relative
  have deep' : p.normalized.course.climb < d.located.length := by
    rw [hcourse]
    exact Nat.lt_of_le_of_lt (Nat.mod_le _ _) deep
  have hnormal := located_join absolute (isAbsolute_normalized relative) deep'
  rw [hcourse] at hnormal
  refine ⟨located_join absolute relative deep, ?_, normalized_normalized relative, ?_⟩
  · rw [hnormal, located_join absolute relative deep, List.append_left_inj]
    constructor
    · intro h
      have hlength := congrArg List.length h
      simp only [List.length_take] at hlength
      omega
    · intro h
      rw [Nat.mod_eq_of_lt (by omega)]
  · rw [normalized, parts_ofParts (isStep_normalize relative), normalize_parts relative]

theorem normalized_keeps_place_iff_uncle :
    let d : Path := ⟨"/home/fw"⟩
    let p : Path := ⟨"./lib/../../lib/x.h"⟩
    d.isAbsolute = true ∧ p.isAbsolute = false ∧ p.course.climb < d.located.length ∧
      (d.join p.normalized).located = (d.join p).located := by
  intro d p
  have absolute : d.isAbsolute = true := by decide
  have relative : p.isAbsolute = false := by decide
  have deep : p.course.climb < d.located.length := by decide
  refine ⟨absolute, relative, deep, ?_⟩
  exact (normalized_keeps_place_iff d p absolute relative deep).2.1.mpr (by decide)

/-- From three directories deep, two ways up are none in normal form. -/
theorem normalized_may_move :
    let d : Path := ⟨"/home/user/fw"⟩
    let p : Path := ⟨"../../lib/x.h"⟩
    p.parts.count .up < d.parts.length ∧ d.located = d.parts ∧
      (d.join p).located = [.root, .name "home".toList, .name "lib".toList, .name "x.h".toList] ∧
      p.normalized = ⟨"lib/x.h"⟩ ∧
      (d.join p.normalized).located ≠ (d.join p).located := by
  decide

end FirmwareCatalog.Path
