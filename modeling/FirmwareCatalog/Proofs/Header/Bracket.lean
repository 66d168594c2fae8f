import FirmwareCatalog.Header.Bracket
import FirmwareCatalog.Proofs.Header.Zone

/-!
# Where brackets close

A closed bracket is closed by what stands up to its closer, whatever follows. A
balanced piece changes no depth, so a closer is looked for behind it; and a
bracket that opens inside another closes inside it.
-/

namespace FirmwareCatalog.Header

variable {opener closer : Char}

/-! ## Steps -/

def IsNeutral (opener closer : Char) (m : Marked) : Prop := m.2 = .code → m.1 ≠ closer ∧ m.1 ≠ opener

theorem splitClosing_closer_one (rest : List Marked) :
    splitClosing opener closer 1 ((closer, .code) :: rest) = some ([], rest) := by
  simp [splitClosing]

theorem splitClosing_closer {depth : Int} (h : depth ≠ 1) (rest : List Marked) :
    splitClosing opener closer depth ((closer, .code) :: rest) =
      (splitClosing opener closer (depth - 1) rest).map fun p => ((closer, .code) :: p.1, p.2) := by
  simp [splitClosing, h]

theorem splitClosing_opener (hne : opener ≠ closer) (depth : Int) (rest : List Marked) :
    splitClosing opener closer depth ((opener, .code) :: rest) =
      (splitClosing opener closer (depth + 1) rest).map fun p => ((opener, .code) :: p.1, p.2) := by
  simp [splitClosing, hne]

theorem splitClosing_neutral {m : Marked} (h : IsNeutral opener closer m) (depth : Int)
    (rest : List Marked) :
    splitClosing opener closer depth (m :: rest) =
      (splitClosing opener closer depth rest).map fun p => (m :: p.1, p.2) := by
  obtain ⟨c, zone⟩ := m
  rw [splitClosing, if_neg fun hc => (h hc.1).1 hc.2, if_neg fun hc => (h hc.1).2 hc.2]

theorem bracket_cases (opener closer : Char) (m : Marked) :
    m = (closer, .code) ∨ m = (opener, .code) ∨ IsNeutral opener closer m := by
  obtain ⟨c, zone⟩ := m
  by_cases hzone : zone = .code
  · subst hzone
    by_cases hcloser : c = closer
    · exact .inl (by rw [hcloser])
    · by_cases hopener : c = opener
      · exact .inr (.inl (by rw [hopener]))
      · exact .inr (.inr fun _ => ⟨hcloser, hopener⟩)
  · exact .inr (.inr fun h => absurd h hzone)

/-! ## Open brackets -/

section
variable (opener closer : Char)

def bracketStep (m : Marked) : Int :=
  if m = (opener, .code) then 1 else if m = (closer, .code) then -1 else 0

/-- How many more brackets a piece opens than it closes. -/
def openBrackets : List Marked → Int
  | [] => 0
  | m :: piece => bracketStep opener closer m + openBrackets piece

/-- Brackets that match: a closer stands behind its opener, and each opener has one. -/
structure BracketsMatch (piece : List Marked) : Prop where
  opened : ∀ k, 0 ≤ openBrackets opener closer (piece.take k)
  closed : openBrackets opener closer piece = 0

end

@[simp] theorem openBrackets_nil : openBrackets opener closer [] = 0 := rfl

@[simp] theorem openBrackets_cons (m : Marked) (piece : List Marked) :
    openBrackets opener closer (m :: piece) =
      bracketStep opener closer m + openBrackets opener closer piece := rfl

theorem bracketStep_opener : bracketStep opener closer (opener, .code) = 1 := if_pos rfl

theorem bracketStep_closer (hne : opener ≠ closer) : bracketStep opener closer (closer, .code) = -1 := by
  rw [bracketStep, if_neg fun he => hne (Prod.mk.inj he).1.symm, if_pos rfl]

theorem bracketStep_of_neutral {m : Marked} (h : IsNeutral opener closer m) :
    bracketStep opener closer m = 0 := by
  rw [bracketStep, if_neg fun he => (h (by rw [he])).2 (by rw [he]),
    if_neg fun he => (h (by rw [he])).1 (by rw [he])]

/-! ## What closes -/

section
variable (hne : opener ≠ closer)
include hne

/-- All but the closer that ends the last bracket is passed. -/
theorem splitClosing_step {m : Marked} {depth : Int} (h : m = (closer, .code) → depth ≠ 1)
    (rest : List Marked) :
    splitClosing opener closer depth (m :: rest) =
      (splitClosing opener closer (depth + bracketStep opener closer m) rest).map
        fun p => (m :: p.1, p.2) := by
  rcases bracket_cases opener closer m with rfl | rfl | hm
  · rw [splitClosing_closer (h rfl), bracketStep_closer hne, Int.sub_eq_add_neg]
  · rw [splitClosing_opener hne, bracketStep_opener]
  · rw [splitClosing_neutral hm, bracketStep_of_neutral hm, Int.add_zero]

theorem one_le_add_bracketStep {m : Marked} {depth : Int} (hdepth : 1 ≤ depth)
    (h : m = (closer, .code) → depth ≠ 1) : 1 ≤ depth + bracketStep opener closer m := by
  rcases bracket_cases opener closer m with rfl | rfl | hm
  · have := h rfl
    rw [bracketStep_closer hne]
    omega
  · rw [bracketStep_opener]
    omega
  · rwa [bracketStep_of_neutral hm, Int.add_zero]

theorem splitClosing_cons_cases {m : Marked} {marked inner rest : List Marked} {depth : Int}
    (h : splitClosing opener closer depth (m :: marked) = some (inner, rest)) :
    (depth = 1 ∧ m = (closer, .code) ∧ inner = [] ∧ rest = marked) ∨
      (m = (closer, .code) → depth ≠ 1) ∧ ∃ inner', inner = m :: inner' ∧
        splitClosing opener closer (depth + bracketStep opener closer m) marked = some (inner', rest) := by
  by_cases hend : m = (closer, .code) ∧ depth = 1
  · obtain ⟨rfl, rfl⟩ := hend
    rw [splitClosing_closer_one] at h
    cases h
    exact .inl ⟨rfl, rfl, rfl, rfl⟩
  · have hpass : m = (closer, .code) → depth ≠ 1 := fun hm hone => hend ⟨hm, hone⟩
    rw [splitClosing_step hne hpass] at h
    obtain ⟨⟨inner', rest'⟩, hp, he⟩ := Option.map_eq_some_iff.mp h
    cases he
    exact .inr ⟨hpass, inner', rfl, hp⟩

theorem eq_append_of_splitClosing : ∀ {marked : List Marked} {depth : Int} {inner rest : List Marked},
    splitClosing opener closer depth marked = some (inner, rest) → marked = inner ++
      (closer, .code) :: rest
  | [], _, _, _, h => by simp [splitClosing] at h
  | m :: marked, depth, inner, rest, h => by
    rcases splitClosing_cons_cases hne h with ⟨-, rfl, rfl, rfl⟩ | ⟨-, inner, rfl, hs⟩
    · rfl
    · rw [eq_append_of_splitClosing hs, List.cons_append]

theorem splitClosing_append : ∀ {marked : List Marked} {depth : Int} {inner rest : List Marked},
    splitClosing opener closer depth marked = some (inner, rest) →
      ∀ tail, splitClosing opener closer depth (marked ++ tail) = some (inner, rest ++ tail)
  | [], _, _, _, h, _ => by simp [splitClosing] at h
  | m :: marked, depth, inner, rest, h, tail => by
    rw [List.cons_append]
    rcases splitClosing_cons_cases hne h with ⟨rfl, rfl, rfl, rfl⟩ | ⟨hpass, inner, rfl, hs⟩
    · rw [splitClosing_closer_one]
    · rw [splitClosing_step hne hpass, splitClosing_append hs tail, Option.map_some]

theorem splitClosing_replace {inner rest : List Marked} {depth : Int}
    (h : splitClosing opener closer depth (inner ++ (closer, .code) :: rest) = some (inner, rest))
    (rest' : List Marked) :
    splitClosing opener closer depth (inner ++ (closer, .code) :: rest') = some (inner, rest') := by
  induction inner generalizing depth with
  | nil =>
    rcases splitClosing_cons_cases hne h with ⟨rfl, -⟩ | ⟨-, _, hinner, -⟩
    · exact splitClosing_closer_one rest'
    · cases hinner
  | cons m inner ih =>
    rcases splitClosing_cons_cases hne h with ⟨-, -, hinner, -⟩ | ⟨hpass, _, hinner, hs⟩
    · cases hinner
    · cases hinner
      rw [List.cons_append, splitClosing_step hne hpass, ih hs, Option.map_some]

/-! ## Inside a bracket -/

theorem exists_splitClosing_of_append :
    ∀ {a b : List Marked} {depth : Int} {inner rest : List Marked}, 1 ≤ depth →
    splitClosing opener closer depth (a ++ b) = some (a ++ inner, rest) →
      ∃ depth', 1 ≤ depth' ∧ splitClosing opener closer depth' b = some (inner, rest)
  | [], _, depth, _, _, hdepth, h => ⟨depth, hdepth, h⟩
  | m :: a, b, depth, inner, rest, hdepth, h => by
    rcases splitClosing_cons_cases hne h with ⟨-, -, hinner, -⟩ | ⟨hpass, _, hinner, hs⟩
    · cases hinner
    · cases hinner
      exact exists_splitClosing_of_append (one_le_add_bracketStep hne hdepth hpass) hs

theorem exists_splitClosing_of_le :
    ∀ {marked : List Marked} {depth depth' : Int} {inner rest : List Marked},
    1 ≤ depth' → depth' ≤ depth → splitClosing opener closer depth marked = some (inner, rest) →
      ∃ inner' tail rest', inner = inner' ++ tail ∧ splitClosing opener closer depth' marked =
        some (inner', rest')
  | [], _, _, _, _, _, _, h => by simp [splitClosing] at h
  | m :: marked, depth, depth', inner, rest, hone, hle, h => by
    by_cases hend : m = (closer, .code) ∧ depth' = 1
    · obtain ⟨rfl, rfl⟩ := hend
      exact ⟨[], inner, marked, rfl, splitClosing_closer_one marked⟩
    · have hpass : m = (closer, .code) → depth' ≠ 1 := fun hm hone => hend ⟨hm, hone⟩
      rcases splitClosing_cons_cases hne h with ⟨rfl, hm, -⟩ | ⟨-, inner, rfl, hs⟩
      · exact absurd (Int.le_antisymm hle hone) (hpass hm)
      · obtain ⟨inner', tail, rest', rfl, hs'⟩ :=
          exists_splitClosing_of_le (one_le_add_bracketStep hne hone hpass) (Int.add_le_add_right hle _) hs
        exact ⟨m :: inner', tail, rest', rfl, by rw [splitClosing_step hne hpass, hs', Option.map_some]⟩

/-! ## The count of open brackets -/

/-- Up to the closer that ends `depth` brackets, one of them or more stays open, and the closer ends the last. -/
theorem splitClosing_eq_some_iff {marked rest : List Marked} : ∀ {depth : Int} {inner : List Marked}, 1 ≤ depth →
    (splitClosing opener closer depth marked = some (inner, rest) ↔
      marked = inner ++ (closer, .code) :: rest ∧
      (∀ k, 1 ≤ depth + openBrackets opener closer (inner.take k)) ∧
      depth + openBrackets opener closer inner = 1) := by
  induction marked with
  | nil =>
    intro depth inner _
    simp [splitClosing]
  | cons m marked ih =>
    intro depth inner hdepth
    constructor
    · intro h
      rcases splitClosing_cons_cases hne h with ⟨rfl, rfl, rfl, rfl⟩ | ⟨hpass, inner, rfl, hs⟩
      · simp
      · obtain ⟨hmarked, hopen, hend⟩ := (ih (one_le_add_bracketStep hne hdepth hpass)).mp hs
        refine ⟨by rw [hmarked, List.cons_append], fun k => ?_, ?_⟩
        · cases k with
          | zero => simpa using hdepth
          | succ k =>
            rw [List.take_succ_cons, openBrackets_cons, ← Int.add_assoc]
            exact hopen k
        · rw [openBrackets_cons, ← Int.add_assoc, hend]
    · intro h
      obtain ⟨hmarked, hopen, hend⟩ := h
      cases inner with
      | nil =>
        obtain ⟨rfl, rfl⟩ := List.cons.inj hmarked
        obtain rfl : depth = 1 := by simpa using hend
        exact splitClosing_closer_one marked
      | cons m' inner =>
        obtain ⟨rfl, htail⟩ := List.cons.inj hmarked
        have hfirst : 1 ≤ depth + bracketStep opener closer m := by simpa using hopen 1
        -- a bracket stays open behind the character, so it is not the closer of the last
        have hpass : m = (closer, .code) → depth ≠ 1 := by
          rintro rfl rfl
          rw [bracketStep_closer hne] at hfirst
          omega
        have hs := (ih hfirst).mpr
          ⟨htail, fun k => by simpa [Int.add_assoc] using hopen (k + 1), by simpa [Int.add_assoc] using hend⟩
        rw [splitClosing_step hne hpass, hs, Option.map_some]

theorem splitClosing_one_eq_some_iff {marked inner rest : List Marked} :
    splitClosing opener closer 1 marked = some (inner, rest) ↔
      marked = inner ++ (closer, .code) :: rest ∧ BracketsMatch opener closer inner := by
  rw [splitClosing_eq_some_iff hne (Int.le_refl 1)]
  constructor
  · intro ⟨hmarked, hopen, hend⟩
    exact ⟨hmarked, fun k => by have := hopen k; omega, by omega⟩
  · intro ⟨hmarked, hmatch⟩
    exact ⟨hmarked, fun k => by have := hmatch.opened k; omega, by rw [hmatch.closed, Int.add_zero]⟩

end

/-! ## Balanced pieces -/

/-- A piece that changes no depth, and goes below none. -/
def Balanced (opener closer : Char) (piece : List Marked) : Prop :=
  ∀ depth, 1 ≤ depth → ∀ rest, splitClosing opener closer depth (piece ++ rest) =
    (splitClosing opener closer depth rest).map fun p => (piece ++ p.1, p.2)

theorem balanced_nil : Balanced opener closer [] := fun depth _ rest => by
  simp

theorem Balanced.append {a b : List Marked} (ha : Balanced opener closer a)
    (hb : Balanced opener closer b) :
    Balanced opener closer (a ++ b) := by
  intro depth hdepth rest
  rw [List.append_assoc, ha depth hdepth, hb depth hdepth, Option.map_map]
  simp [Function.comp_def]

theorem balanced_of_neutral {piece : List Marked} (h : ∀ m ∈ piece, IsNeutral opener closer m) :
    Balanced opener closer piece := by
  induction piece with
  | nil => exact balanced_nil
  | cons m piece ih =>
    obtain ⟨hm, h⟩ := List.forall_mem_cons.mp h
    intro depth hdepth rest
    rw [List.cons_append, splitClosing_neutral hm, ih h depth hdepth, Option.map_map]
    simp [Function.comp_def]

theorem splitClosing_add (hne : opener ≠ closer) {inner : List Marked} {depth : Int}
    (hdepth : 1 ≤ depth) {rest : List Marked}
    (h : splitClosing opener closer depth (inner ++ (closer, .code) :: rest) = some (inner, rest))
    {more : Int}
    (hmore : 1 ≤ more) (rest' : List Marked) :
    splitClosing opener closer (depth + more) (inner ++ (closer, .code) :: rest') =
      (splitClosing opener closer more rest').map fun p => (inner ++ (closer, .code) :: p.1, p.2) := by
  induction inner generalizing depth with
  | nil =>
    rcases splitClosing_cons_cases hne h with ⟨rfl, -⟩ | ⟨-, _, hinner, -⟩
    · rw [List.nil_append, splitClosing_closer (by omega), show 1 + more - 1 = more by omega]
      rfl
    · cases hinner
  | cons m inner ih =>
    rcases splitClosing_cons_cases hne h with ⟨-, -, hinner, -⟩ | ⟨hpass, _, hinner, hs⟩
    · cases hinner
    · cases hinner
      have hopen := one_le_add_bracketStep hne hdepth hpass
      rw [List.cons_append, splitClosing_step hne (fun _ => by omega), Int.add_right_comm, ih hopen hs,
        Option.map_map]
      rfl

theorem balanced_bracketed (hne : opener ≠ closer) {inner rest : List Marked}
    (h : splitClosing opener closer 1 (inner ++ (closer, .code) :: rest) = some (inner, rest)) :
    Balanced opener closer ((opener, .code) :: (inner ++ [(closer, .code)])) := by
  intro depth hdepth tail
  rw [List.cons_append, List.append_assoc, List.singleton_append, splitClosing_opener hne,
    Int.add_comm,
    splitClosing_add hne (Int.le_refl 1) h hdepth tail, Option.map_map]
  simp [Function.comp_def]

theorem Balanced.splitClosing {piece : List Marked} (h : Balanced opener closer piece)
    (rest : List Marked) :
    splitClosing opener closer 1 (piece ++ (closer, .code) :: rest) = some (piece, rest) := by
  rw [h 1 (Int.le_refl 1), splitClosing_closer_one, Option.map_some, List.append_nil]

end FirmwareCatalog.Header
