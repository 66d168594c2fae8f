import FirmwareCatalog.FileTree
import FirmwareCatalog.Proofs.Path.Segments
import FirmwareCatalog.Proofs.Table
import Mathlib.Data.List.Basic

/-!
# Where a path leads

A walk through a tree ends at the place that the names of its path spell when
`.` and `..` are worked off, if it ends at a file or at a free name. It ends
there in every tree that has kept the directories on the way.
-/

namespace FirmwareCatalog

namespace Path

/-- The place that the segments of a path spell from a directory on, or nothing above the current directory. -/
def placeFrom : Option (String × List String) → List (List Char) → Option String
  | here, [] => here.map (·.1)
  | here, segment :: rest =>
    if isIdle segment then placeFrom here rest
    else if segment = ['.', '.'] then
      match here with
      | some (_, outer :: outers) => placeFrom (some (outer, outers)) rest
      | _ => none
    else
      match here with
      | some (location, outers) => placeFrom (some (FileTree.child location segment, location :: outers)) rest
      | none => none

theorem placeFrom_idle {here : Option (String × List String)} {segment : List Char} (h : isIdle segment = true)
    (rest : List (List Char)) : placeFrom here (segment :: rest) = placeFrom here rest := by
  simp [placeFrom, h]

theorem placeFrom_up (location outer : String) (outers : List String) (rest : List (List Char)) :
    placeFrom (some (location, outer :: outers)) (['.', '.'] :: rest) = placeFrom (some (outer, outers)) rest := by
  simp [placeFrom, isIdle]

theorem placeFrom_name {segment : List Char} (name : ¬ isIdle segment = true) (notUp : segment ≠ ['.', '.'])
    (location : String) (outers : List String) (rest : List (List Char)) :
    placeFrom (some (location, outers)) (segment :: rest) =
      placeFrom (some (FileTree.child location segment, location :: outers)) rest := by
  simp [placeFrom, name, notUp]

def place? (path : Path) : Option String :=
  if path.isAbsolute then none else placeFrom (some ("", [])) (segments path.text.toList)

end Path

namespace FileTree

variable {tree tree' : FileTree}

/-! ## Names in directories -/

theorem toList_child (location : String) (name : List Char) :
    (child location name).toList = if location = "" then name else location.toList ++ '/' :: name := by
  unfold child
  by_cases h : location = ""
  · simp [h]
  · rw [if_neg (by simpa [String.isEmpty_iff] using h), if_neg h]
    simp

theorem child_injective {l l' : String} {n n' : List Char} (hn : '/' ∉ n) (hn' : '/' ∉ n')
    (h : child l n = child l' n') : l = l' ∧ n = n' := by
  have h := congrArg String.toList h
  rw [toList_child, toList_child] at h
  by_cases hl : l = ""
  · by_cases hl' : l' = ""
    · rw [if_pos hl, if_pos hl'] at h
      exact ⟨hl.trans hl'.symm, h⟩
    · rw [if_pos hl, if_neg hl'] at h
      simp [h] at hn
  · by_cases hl' : l' = ""
    · rw [if_neg hl, if_pos hl'] at h
      simp [← h] at hn'
    · rw [if_neg hl, if_neg hl', List.append_eq_append_iff] at h
      obtain ⟨x, hx, h⟩ | ⟨x, hx, h⟩ := h
      · cases x with
        | nil => exact ⟨String.toList_inj.mp (by simpa using hx.symm), by simpa using h⟩
        | cons c x =>
          obtain ⟨-, rfl⟩ := List.cons.inj h
          simp at hn
      · cases x with
        | nil => exact ⟨String.toList_inj.mp (by simpa using hx), by simpa using h.symm⟩
        | cons c x =>
          obtain ⟨-, rfl⟩ := List.cons.inj h
          simp at hn'

theorem child_ne_empty (location : String) {name : List Char} (h : name ≠ []) : child location name ≠ "" := by
  intro he
  have he := congrArg String.toList he
  rw [toList_child] at he
  by_cases hl : location = "" <;> simp [hl, h] at he

def placeOf (names : List (List Char)) : String := names.foldr (fun n l => child l n) ""

@[simp] theorem placeOf_nil : placeOf [] = "" := rfl

@[simp] theorem placeOf_cons (name : List Char) (names : List (List Char)) :
    placeOf (name :: names) = child (placeOf names) name := rfl

theorem placeOf_injective : ∀ {names names' : List (List Char)}, (∀ n ∈ names, Path.IsName n) →
    (∀ n ∈ names', Path.IsName n) → placeOf names = placeOf names' → names = names'
  | [], [], _, _, _ => rfl
  | [], n :: names, _, h', heq => by
    rw [List.forall_mem_cons] at h'
    exact absurd heq.symm (child_ne_empty _ (Path.ne_nil_of_not_isIdle (by simp [h'.1.notIdle])))
  | n :: names, [], h, _, heq => by
    rw [List.forall_mem_cons] at h
    exact absurd heq (child_ne_empty _ (Path.ne_nil_of_not_isIdle (by simp [h.1.notIdle])))
  | n :: names, n' :: names', h, h', heq => by
    rw [List.forall_mem_cons] at h h'
    obtain ⟨hplace, rfl⟩ := child_injective h.1.noSlash h'.1.noSlash heq
    rw [placeOf_injective h.2 h'.2 hplace]

theorem placeFrom_names : ∀ {names : List (List Char)} (spelled : List (List Char)) (outers : List String),
    (∀ n ∈ names, Path.IsName n) →
      Path.placeFrom (some (placeOf spelled, outers)) names = some (placeOf (names.reverse ++ spelled))
  | [], _, _, _ => rfl
  | n :: names, spelled, outers, h => by
    rw [List.forall_mem_cons] at h
    rw [Path.placeFrom_name (by simp [h.1.notIdle]) h.1.notUp, ← placeOf_cons, placeFrom_names _ _ h.2,
      List.reverse_cons, List.append_assoc, List.singleton_append]

/-! ## Ways -/

/-- A walk that passes directories and ends at a name; `slash` says that a slash follows the name. -/
inductive Way (tree : FileTree) : (location : String) → (outers : List String) → List (List Char) →
    (place : String) → (slash : Bool) → Prop
  | idle {location outers segment rest place slash} (idle : Path.isIdle segment = true)
      (way : Way tree location outers rest place slash) : Way tree location outers (segment :: rest) place slash
  | up {location outer outers rest place slash} (way : Way tree outer outers rest place slash) :
      Way tree location (outer :: outers) (['.', '.'] :: rest) place slash
  | down {location outers segment rest place slash} (name : ¬ Path.isIdle segment = true)
      (notUp : segment ≠ ['.', '.']) (directory : tree.find? (child location segment) = some .directory)
      (way : Way tree (child location segment) (location :: outers) rest place slash) :
      Way tree location outers (segment :: rest) place slash
  | last {location outers segment rest} (name : ¬ Path.isIdle segment = true) (notUp : segment ≠ ['.', '.'])
      (ends : rest.all (· = []) = true) :
      Way tree location outers (segment :: rest) (child location segment) (!rest.isEmpty)

theorem walk_none_eq_ok : ∀ (segments : List (List Char)) {target : Target},
    walk tree none segments = .ok target → target = .directory
  | [], target, h => by simpa [walk, eq_comm] using h
  | segment :: rest, target, h => by
    have ih {target : Target} : walk tree none rest = .ok target → target = .directory := walk_none_eq_ok rest
    simp only [walk] at h
    split at h
    · exact ih h
    · split at h
      · exact ih h
      · cases h

theorem way_of_walk : ∀ (segments : List (List Char)) {location : String} {outers : List String} {target : Target},
    walk tree (some (location, outers)) segments = .ok target →
      target = .directory ∨ ∃ place slash, Way tree location outers segments place slash ∧
        (target = .vacant place slash ∧ tree.find? place = none ∨
          ∃ content, target = .file place content slash ∧ tree.find? place = some (.file content))
  | [], location, outers, target, h => .inl (by simpa [walk, eq_comm] using h)
  | segment :: rest, location, outers, target, h => by
    simp only [walk] at h
    by_cases hidle : Path.isIdle segment = true
    · rw [if_pos hidle] at h
      obtain hd | ⟨place, slash, way, htarget⟩ := way_of_walk rest h
      · exact .inl hd
      · exact .inr ⟨place, slash, .idle hidle way, htarget⟩
    · rw [if_neg hidle] at h
      by_cases hup : segment = ['.', '.']
      · rw [if_pos hup] at h
        -- above the current directory a walk comes to no file
        cases outers with
        | nil => exact .inl (walk_none_eq_ok rest h)
        | cons outer outers =>
          obtain hd | ⟨place, slash, way, htarget⟩ := way_of_walk rest h
          · exact .inl hd
          · rw [hup]
            exact .inr ⟨place, slash, .up way, htarget⟩
      · rw [if_neg hup] at h
        cases hf : tree.find? (child location segment) with
        | none =>
          simp only [hf] at h
          split at h
          · rename_i ends
            cases h
            exact .inr ⟨_, _, .last hidle hup ends, .inl ⟨rfl, hf⟩⟩
          · cases h
        | some node =>
          cases node with
          | directory =>
            simp only [hf] at h
            obtain hd | ⟨place, slash, way, htarget⟩ := way_of_walk rest h
            · exact .inl hd
            · exact .inr ⟨place, slash, .down hidle hup hf way, htarget⟩
          | file content =>
            simp only [hf] at h
            split at h
            · rename_i ends
              cases h
              exact .inr ⟨_, _, .last hidle hup ends, .inr ⟨content, rfl, hf⟩⟩
            · cases h

section
variable {location place : String} {outers : List String} {segments : List (List Char)} {slash : Bool}

theorem Way.walk_file (way : Way tree location outers segments place slash) {content : Bytes}
    (h : tree.find? place = some (.file content)) :
    walk tree (some (location, outers)) segments = .ok (.file place content slash) := by
  induction way with
  | idle idle _ ih => simpa [walk, idle] using ih h
  | up _ ih => simpa [walk, Path.isIdle] using ih h
  | down name notUp directory _ ih => simpa [walk, name, notUp, directory] using ih h
  | last name notUp ends => simp [walk, name, notUp, ends, h]

theorem Way.walk_vacant (way : Way tree location outers segments place slash) (h : tree.find? place = none) :
    walk tree (some (location, outers)) segments = .ok (.vacant place slash) := by
  induction way with
  | idle idle _ ih => simpa [walk, idle] using ih h
  | up _ ih => simpa [walk, Path.isIdle] using ih h
  | down name notUp directory _ ih => simpa [walk, name, notUp, directory] using ih h
  | last name notUp ends => simp [walk, name, notUp, ends, h]

theorem Way.mono (way : Way tree location outers segments place slash)
    (h : ∀ l, tree.find? l = some .directory → tree'.find? l = some .directory) :
    Way tree' location outers segments place slash := by
  induction way with
  | idle idle _ ih => exact .idle idle ih
  | up _ ih => exact .up ih
  | down name notUp directory _ ih => exact .down name notUp (h _ directory) ih
  | last name notUp ends => exact .last name notUp ends

theorem placeFrom_of_all_nil (here : Option (String × List String)) : ∀ {rest : List (List Char)},
    rest.all (· = []) = true → Path.placeFrom here rest = here.map (·.1)
  | [], _ => by cases here <;> rfl
  | segment :: rest, h => by
    simp only [List.all_cons, Bool.and_eq_true, decide_eq_true_eq] at h
    have idle : Path.isIdle segment = true := by simp [Path.isIdle, h.1]
    rw [Path.placeFrom_idle idle, placeFrom_of_all_nil here h.2]

theorem Way.placeFrom (way : Way tree location outers segments place slash) :
    Path.placeFrom (some (location, outers)) segments = some place := by
  induction way with
  | idle idle _ ih => rw [Path.placeFrom_idle idle, ih]
  | up _ ih => rw [Path.placeFrom_up, ih]
  | down name notUp _ _ ih => rw [Path.placeFrom_name name notUp, ih]
  | last name notUp ends =>
    rw [Path.placeFrom_name name notUp, placeFrom_of_all_nil _ ends]
    rfl

theorem Way.exists_directory (way : Way tree location outers segments place slash)
    (hsegments : ∀ s ∈ segments, '/' ∉ s)
    (hhere : ∀ l ∈ location :: outers, l = "" ∨ tree.find? l = some .directory) :
    ∃ l name, place = child l name ∧ '/' ∉ name ∧ (l = "" ∨ tree.find? l = some .directory) := by
  induction way with
  | idle idle _ ih => exact ih (fun s hs => hsegments s (List.mem_cons_of_mem _ hs)) hhere
  | up _ ih =>
    exact ih (fun s hs => hsegments s (List.mem_cons_of_mem _ hs)) fun l hl => hhere l (List.mem_cons_of_mem _ hl)
  | down name notUp directory _ ih =>
    apply ih fun s hs => hsegments s (List.mem_cons_of_mem _ hs)
    intro l hl
    rw [List.mem_cons] at hl
    obtain rfl | hl := hl
    · exact .inr directory
    · exact hhere l hl
  | @last location outers segment rest name notUp ends =>
    exact ⟨location, segment, rfl, hsegments segment (by simp), hhere location (by simp)⟩

end

/-! ## Paths -/

/-- The path leads through directories to a name at a place. -/
structure LeadsTo (tree : FileTree) (path : Path) (place : String) (slash : Bool) : Prop where
  relative : path.isAbsolute = false
  way : Way tree "" [] (Path.segments path.text.toList) place slash

section
variable {path : Path} {place : String} {slash : Bool}

theorem LeadsTo.text_ne (h : LeadsTo tree path place slash) : path.text.isEmpty = false := by
  by_contra hempty
  have htext : path.text.toList = [] := by simpa [String.isEmpty_iff] using hempty
  have way := h.way
  rw [htext, Path.segments] at way
  cases way with
  | idle _ way => cases way
  | down name => exact name rfl
  | last name => exact name rfl

theorem LeadsTo.mono (h : LeadsTo tree path place slash)
    (kept : ∀ l, tree.find? l = some .directory → tree'.find? l = some .directory) :
    LeadsTo tree' path place slash := ⟨h.relative, h.way.mono kept⟩

theorem LeadsTo.place?_eq (h : LeadsTo tree path place slash) : path.place? = some place := by
  unfold Path.place?
  rw [h.relative]
  exact h.way.placeFrom

theorem LeadsTo.exists_directory (h : LeadsTo tree path place slash) :
    ∃ l name, place = child l name ∧ '/' ∉ name ∧ (l = "" ∨ tree.find? l = some .directory) :=
  h.way.exists_directory (fun _ => Path.notMem_segments _) fun l hl => by simp_all

theorem leadsTo_of_resolve {target : Target} (h : resolve tree path = .ok target) :
    target = .directory ∨ ∃ place slash, LeadsTo tree path place slash ∧
      (target = .vacant place slash ∧ tree.find? place = none ∨
        ∃ content, target = .file place content slash ∧ tree.find? place = some (.file content)) := by
  unfold resolve at h
  split at h
  · cases h
  · split at h
    · exact .inl (walk_none_eq_ok _ h)
    · rename_i relative
      obtain hd | ⟨place, slash, way, htarget⟩ := way_of_walk _ h
      · exact .inl hd
      · exact .inr ⟨place, slash, ⟨by simpa using relative, way⟩, htarget⟩

theorem LeadsTo.resolve_eq (h : LeadsTo tree path place slash) :
    resolve tree path = walk tree (some ("", [])) (Path.segments path.text.toList) := by
  simp [resolve, h.text_ne, h.relative]

theorem resolve_eq_file_iff {content : Bytes} : resolve tree path = .ok (.file place content slash) ↔
    LeadsTo tree path place slash ∧ tree.find? place = some (.file content) := by
  constructor
  · intro h
    obtain hd | ⟨_, _, leads, ⟨htarget, -⟩ | ⟨_, htarget, hfind⟩⟩ := leadsTo_of_resolve h
    · cases hd
    · cases htarget
    · cases htarget
      exact ⟨leads, hfind⟩
  · intro ⟨leads, hfind⟩
    rw [leads.resolve_eq, leads.way.walk_file hfind]

theorem resolve_eq_vacant_iff : resolve tree path = .ok (.vacant place slash) ↔
    LeadsTo tree path place slash ∧ tree.find? place = none := by
  constructor
  · intro h
    obtain hd | ⟨_, _, leads, ⟨htarget, hfind⟩ | ⟨_, htarget, -⟩⟩ := leadsTo_of_resolve h
    · cases hd
    · cases htarget
      exact ⟨leads, hfind⟩
    · cases htarget
  · intro ⟨leads, hfind⟩
    rw [leads.resolve_eq, leads.way.walk_vacant hfind]

end

end FileTree

end FirmwareCatalog
