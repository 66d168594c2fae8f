import FirmwareCatalog.Proofs.Files.ReadOnly
import FirmwareCatalog.Proofs.Files.Place
import FirmwareCatalog.Proofs.Path.Ancestors
import FirmwareCatalog.Proofs.Path.Normal
import FirmwareCatalog.Settings
import Mathlib.Data.List.Infix

/-!
# Where settings are found

The search goes back along the text of the start: through every directory that
the start passes, the last first. Those are the start and the directories around
it, and those that a `..` leaves again. If the latter hold no settings, what is
found are the settings of the nearest directory around the start.
-/

namespace FirmwareCatalog

/-! ## Directories that are passed -/

namespace Path

def passedFrom (course : Course) (parts : List Part) : List (List (List Char)) :=
  parts.inits.map fun front => (front.foldl Course.step course).names

/-- The directories that a path passes, the last first, each by its names. -/
def passed (path : Path) : List (List (List Char)) := (passedFrom .start path.parts).reverse

/-- The directory of a path and those around it, up to the current one. -/
def enclosing (path : Path) : List (List (List Char)) := path.course.names.tails

theorem passedFrom_nil (course : Course) : passedFrom course [] = [course.names] := rfl

theorem passedFrom_cons (course : Course) (part : Part) (parts : List Part) :
    passedFrom course (part :: parts) = course.names :: passedFrom (course.step part) parts := by
  simp [passedFrom, Function.comp_def]

theorem names_mem_passedFrom (course : Course) (parts : List Part) : course.names ∈ passedFrom course parts := by
  cases parts with
  | nil => simp [passedFrom_nil]
  | cons part parts => simp [passedFrom_cons]

theorem tails_eq_cons (names : List (List Char)) : names.tails = names :: names.tails.tail := by
  cases names <;> simp

theorem Course.names_step (course : Course) (part : Part) :
    (course.step part).names = course.names ∨ (∃ n, (course.step part).names = n :: course.names) ∨
      ∃ n, course.names = n :: (course.step part).names := by
  obtain ⟨climb, names⟩ := course
  cases part with
  | root => exact .inl (by cases names <;> rfl)
  | current => exact .inl (by cases names <;> rfl)
  | name n => exact .inr (.inl ⟨n, by cases names <;> rfl⟩)
  | up =>
    cases names with
    | nil => exact .inl rfl
    | cons n names => exact .inr (.inr ⟨n, rfl⟩)

theorem mem_passedFrom_of_mem_tails {names : List (List Char)} : ∀ (parts : List Part) {course : Course},
    names ∈ (parts.foldl Course.step course).names.tails →
      names ∈ passedFrom course parts ∨ names ∈ course.names.tails.tail
  | [], course, h => by
    rw [List.foldl_nil, tails_eq_cons, List.mem_cons] at h
    simpa [passedFrom_nil] using h
  | part :: parts, course, h => by
    rw [passedFrom_cons, List.mem_cons]
    obtain hpassed | htail := mem_passedFrom_of_mem_tails parts h
    · exact .inl (.inr hpassed)
    · obtain hsame | ⟨n, hdown⟩ | ⟨n, hup⟩ := course.names_step part
      · rw [hsame] at htail
        exact .inr htail
      · rw [hdown, List.tails, List.tail_cons, tails_eq_cons, List.mem_cons] at htail
        obtain rfl | htail := htail
        · exact .inl (.inl rfl)
        · exact .inr htail
      · rw [hup, List.tails, List.tail_cons, tails_eq_cons]
        exact .inr (List.mem_cons_of_mem _ htail)

theorem findSome?_append_cons {α β : Type} {f : α → Option β} {front : List α} {a : α}
    (h : f a = none ∨ a ∈ front) (rest : List α) :
    (front ++ a :: rest).findSome? f = (front ++ rest).findSome? f := by
  rw [List.findSome?_append, List.findSome?_append, List.findSome?_cons]
  cases hfront : front.findSome? f with
  | some b => rfl
  | none =>
    have ha : f a = none := h.elim id fun hmem => List.findSome?_eq_none_iff.mp hfront a hmem
    rw [ha]

theorem findSome?_passedFrom {β : Type} {f : List (List Char) → Option β} :
    ∀ (parts : List Part) {course : Course},
    (∀ names ∈ passedFrom course parts,
      names ∉ (parts.foldl Course.step course).names.tails → f names = none) →
      ((passedFrom course parts).reverse ++ course.names.tails.tail).findSome? f =
        (parts.foldl Course.step course).names.tails.findSome? f
  | [], course, _ => by
    rw [List.foldl_nil, tails_eq_cons course.names]
    rfl
  | part :: parts, course, h => by
    have here := h course.names (names_mem_passedFrom course _)
    rw [passedFrom_cons, List.forall_mem_cons] at h
    have ih := findSome?_passedFrom parts h.2
    have next := List.mem_reverse.mpr (names_mem_passedFrom (course.step part) parts)
    rw [List.foldl_cons] at here ⊢
    rw [passedFrom_cons, List.reverse_cons, List.append_assoc, List.singleton_append, ← tails_eq_cons, ← ih]
    obtain hsame | ⟨n, hdown⟩ | ⟨n, hup⟩ := course.names_step part
    · rw [hsame] at next ⊢
      rw [tails_eq_cons, findSome?_append_cons (.inr next), List.tail_cons]
    · rw [hdown]
      rfl
    · have hlast : course.names.tails = course.names :: (course.step part).names.tails := by
        rw [hup]
        rfl
      rw [hlast, findSome?_append_cons, tails_eq_cons, findSome?_append_cons (.inr next), List.tail_cons]
      -- a directory that is left and around the last one is entered again later
      by_cases hmem : course.names ∈ (parts.foldl Course.step (course.step part)).names.tails
      · obtain hpassed | htail := mem_passedFrom_of_mem_tails parts hmem
        · exact .inr (List.mem_reverse.mpr hpassed)
        · have hlength := ((List.mem_tails _ _).mp (List.mem_of_mem_tail htail)).length_le
          rw [hup, List.length_cons] at hlength
          omega
      · exact .inl (here hmem)

theorem names_suffix_foldl : ∀ {parts : List Part} {course : Course}, .up ∉ parts →
    course.names <:+ (parts.foldl Course.step course).names
  | [], _, _ => List.suffix_rfl
  | part :: parts, course, h => by
    rw [List.mem_cons, not_or] at h
    have ih : (course.step part).names <:+ (parts.foldl Course.step (course.step part)).names := names_suffix_foldl h.2
    obtain ⟨climb, names⟩ := course
    cases part with
    | up => exact absurd rfl h.1
    | root => cases names <;> exact ih
    | current => cases names <;> exact ih
    | name n => cases names <;> exact (List.suffix_cons _ _).trans ih

theorem passed_subset_enclosing {path : Path} (h : .up ∉ path.parts) :
    ∀ names ∈ path.passed, names ∈ path.enclosing := by
  intro names hnames
  obtain ⟨front, hfront, rfl⟩ := List.mem_map.mp (List.mem_reverse.mp hnames)
  obtain ⟨rest, hrest⟩ := (List.mem_inits _ _).mp hfront
  rw [enclosing, List.mem_tails, course, ← hrest, List.foldl_append]
  rw [← hrest, List.mem_append, not_or] at h
  exact names_suffix_foldl h.2

theorem isName_of_mem_passed {path : Path} (h : path.isAbsolute = false) {names : List (List Char)}
    (hnames : names ∈ path.passed) : ∀ n ∈ names, IsName n := by
  obtain ⟨front, hfront, rfl⟩ := List.mem_map.mp (List.mem_reverse.mp hnames)
  have hsub := ((List.mem_inits _ _).mp hfront).subset
  exact Course.isName_foldl (fun n hn => isName_of_mem_parts h (hsub hn)) (by simp [Course.start])

end Path

/-! ## Walking along directories -/

namespace FileTree

variable {tree : FileTree}

/-- The names on the way along some steps are those of directories, and no step leads above the first of them. -/
def Passes (tree : FileTree) : (names : List (List Char)) → List Path.Part → Prop
  | _, [] => True
  | names, .name n :: steps => tree.find? (placeOf (n :: names)) = some .directory ∧ Passes tree (n :: names) steps
  | _ :: names, .up :: steps => Passes tree names steps
  | names, .current :: steps => Passes tree names steps
  | _, _ => False

theorem Passes.front : ∀ {front rest : List Path.Part} {names : List (List Char)},
    Passes tree names (front ++ rest) → Passes tree names front
  | [], _, _, _ => by simp [Passes]
  | .name n :: front, rest, names, h => by
    rw [List.cons_append, Passes] at h
    rw [Passes]
    exact ⟨h.1, h.2.front⟩
  | .up :: front, rest, names, h => by
    cases names with
    | nil => simp [Passes] at h
    | cons n names =>
      rw [List.cons_append, Passes] at h
      rw [Passes]
      exact h.front
  | .current :: front, rest, names, h => by
    rw [List.cons_append, Passes] at h
    rw [Passes]
    exact h.front
  | .root :: front, rest, names, h => by simp [Passes] at h

def standing (names : List (List Char)) : String × List String := (placeOf names, (names.tails.map placeOf).tail)

theorem standing_cons (n : List Char) (names : List (List Char)) :
    standing (n :: names) = (child (standing names).1 n, (standing names).1 :: (standing names).2) := by
  cases names <;> simp [standing]

theorem walk_idle {segment : List Char} (h : Path.isIdle segment = true) (here : Option (String × List String))
    (rest : List (List Char)) : walk tree here (segment :: rest) = walk tree here rest := by
  simp [walk, h]

theorem walk_up (n : List Char) (names rest : List (List Char)) :
    walk tree (some (standing (n :: names))) (['.', '.'] :: rest) = walk tree (some (standing names)) rest := by
  simp [walk, Path.isIdle, standing_cons]

section
variable {segment : List Char} (notIdle : ¬ Path.isIdle segment = true) (notUp : segment ≠ ['.', '.'])
  {names rest : List (List Char)}
include notIdle notUp

theorem walk_directory (h : tree.find? (placeOf (segment :: names)) = some .directory) :
    walk tree (some (standing names)) (segment :: rest) = walk tree (some (standing (segment :: names))) rest := by
  rw [standing_cons]
  simp only [placeOf_cons] at h
  simp [walk, notIdle, notUp, standing, h]

theorem directory_of_walk (h : walk tree (some (standing names)) (segment :: rest) = .ok .directory) :
    tree.find? (placeOf (segment :: names)) = some .directory := by
  rw [placeOf_cons]
  cases hfind : tree.find? (child (placeOf names) segment) with
  | none =>
    simp [walk, notIdle, notUp, standing, hfind] at h
    split at h <;> cases h
  | some node =>
    cases node with
    | directory => rfl
    | file content =>
      simp [walk, notIdle, notUp, standing, hfind] at h
      split at h <;> cases h

end

theorem passes_of_walk : ∀ (segments : List (List Char)) {names : List (List Char)},
    walk tree (some (standing names)) segments = .ok .directory →
      ((segments.filterMap Path.partOfSegment?).foldl Path.Course.step ⟨0, names⟩).climb = 0 →
        Passes tree names (segments.filterMap Path.partOfSegment?)
  | [], names, _, _ => by simp [Passes]
  | segment :: rest, names, hwalk, hclimb => by
    by_cases idle : Path.isIdle segment = true
    · rw [walk_idle idle] at hwalk
      rw [List.filterMap_cons_none (Path.partOfSegment?_of_isIdle idle)] at hclimb ⊢
      exact passes_of_walk rest hwalk hclimb
    · by_cases up : segment = ['.', '.']
      · subst up
        rw [List.filterMap_cons_some Path.partOfSegment?_dots, List.foldl_cons] at hclimb
        rw [List.filterMap_cons_some Path.partOfSegment?_dots]
        cases names with
        | nil =>
          have hle : 1 ≤ _ := Path.Course.climb_le_foldl (rest.filterMap Path.partOfSegment?) ⟨1, []⟩
          have hnone : ((rest.filterMap Path.partOfSegment?).foldl Path.Course.step ⟨1, []⟩).climb = 0 := hclimb
          omega
        | cons n names =>
          rw [walk_up] at hwalk
          exact passes_of_walk rest hwalk hclimb
      · have hfind := directory_of_walk idle up hwalk
        rw [walk_directory idle up hfind] at hwalk
        rw [List.filterMap_cons_some (Path.partOfSegment?_name idle up), List.foldl_cons,
          Path.Course.step_name] at hclimb
        rw [List.filterMap_cons_some (Path.partOfSegment?_name idle up), Passes]
        exact ⟨hfind, passes_of_walk rest hwalk hclimb⟩

theorem Passes.walk_append : ∀ {front : List (List Char)} {names : List (List Char)} (rest : List (List Char)),
    Passes tree names (front.filterMap Path.partOfSegment?) →
      walk tree (some (standing names)) (front ++ rest) = walk tree
        (some (standing ((front.filterMap Path.partOfSegment?).foldl Path.Course.step ⟨0, names⟩).names)) rest
  | [], names, rest, _ => rfl
  | segment :: front, names, rest, h => by
    by_cases idle : Path.isIdle segment = true
    · rw [List.filterMap_cons_none (Path.partOfSegment?_of_isIdle idle)] at h ⊢
      rw [List.cons_append, walk_idle idle, h.walk_append]
    · by_cases up : segment = ['.', '.']
      · subst up
        rw [List.filterMap_cons_some Path.partOfSegment?_dots] at h ⊢
        cases names with
        | nil => simp [Passes] at h
        | cons n names =>
          rw [Passes] at h
          rw [List.cons_append, walk_up, h.walk_append, List.foldl_cons, Path.Course.step]
      · rw [List.filterMap_cons_some (Path.partOfSegment?_name idle up), Passes] at h
        rw [List.cons_append, walk_directory idle up h.1, h.2.walk_append,
          List.filterMap_cons_some (Path.partOfSegment?_name idle up), List.foldl_cons, Path.Course.step_name]

theorem Passes.steps {d : Path} (relative : d.isAbsolute = false) (passes : Passes tree [] d.parts) :
    Passes tree [] d.steps := by
  rw [Path.parts_of_relative relative] at passes
  split at passes
  · rwa [List.singleton_append, Passes] at passes
  · exact passes

theorem Passes.resolve_join {d file : Path} (passes : Passes tree [] d.parts) (relative : d.isAbsolute = false)
    (hfile : file.isAbsolute = false) {name : List Char} (hname : Path.IsName name)
    (hsegments : Path.segments file.text.toList = [name]) :
    resolve tree (d.join file) = walk tree (some (standing d.course.names)) [name] := by
  obtain ⟨front, hjoin, hfront⟩ := Path.exists_segments_join d hfile
  have hsteps : front.filterMap Path.partOfSegment? = d.steps := by
    obtain hd | hd := hfront
    · rw [Path.steps, hd]
    · simp [Path.steps, hd, List.filterMap_cons_none Path.partOfSegment?_nil]
  have passes' := passes.steps relative
  rw [← hsteps] at passes'
  rw [hsegments] at hjoin
  have hne : (d.join file).text.isEmpty = false := by
    by_contra hempty
    have htext : (d.join file).text.toList = [] := by simpa [String.isEmpty_iff] using hempty
    have hlast : some [] = some name := by
      rw [htext] at hjoin
      simpa [Path.segments] using congrArg List.getLast? hjoin
    have notIdle := hname.notIdle
    rw [← Option.some.inj hlast] at notIdle
    cases notIdle
  rw [resolve, hne, Path.isAbsolute_join_of_relative relative hfile, hjoin]
  simp only [Bool.false_eq_true, if_false]
  have hstand : ("", []) = standing [] := rfl
  rw [hstand, passes'.walk_append, hsteps, Path.course_eq relative]
  rfl

end FileTree

/-! ## The settings of a directory -/

open FileTree TreeM

def settingsIn (tree : FileTree) (directory : String) : Option (Except SettingsError Settings) :=
  match tree.find? (child directory Settings.fileName.toList) with
  | none => none
  | some .directory => some (.error (.io .isADirectory))
  | some (.file content) =>
    match Utf8.decode? content with
    | none => some (.error (.io .invalidData))
    | some text =>
      match Settings.parse? (String.ofList text) with
      | none => some (.error .parse)
      | some settings => some (.ok settings)

theorem Settings.load_apply (tree : FileTree) (path : Path) : (Settings.load path : TreeM _) tree =
    (if tree.isPresent path = false then .error (.notFound path)
      else match tree.read path with
        | .error e => .error (.io e)
        | .ok content => match Utf8.decode? content with
          | none => .error (.io .invalidData)
          | some text => match Settings.parse? (String.ofList text) with
            | none => .error .parse
            | some settings => .ok settings, tree) := by
  unfold Settings.load
  rw [bind_apply, Files.isPresent_apply]
  cases tree.isPresent path with
  | false => rfl
  | true =>
    simp only [Bool.not_true, Bool.false_eq_true, if_false, Bool.true_eq_false]
    rw [bind_apply, Files.readText_apply]
    cases tree.read path with
    | error e => rfl
    | ok content =>
      cases hdecoded : Utf8.decode? content with
      | none => simp only [hdecoded]; rfl
      | some text => cases hparsed : Settings.parse? (String.ofList text) <;> simp only [hdecoded, hparsed] <;> rfl

theorem settingsIn_of_passes {tree : FileTree} {d : Path} (relative : d.isAbsolute = false)
    (passes : tree.Passes [] d.parts) :
    (tree.isPresent (d.join ⟨Settings.fileName⟩) = false ∧ settingsIn tree (placeOf d.course.names) = none) ∨
    (tree.isPresent (d.join ⟨Settings.fileName⟩) = true ∧
      settingsIn tree (placeOf d.course.names) =
        some ((Settings.load (d.join ⟨Settings.fileName⟩) : TreeM _) tree).1) := by
  have hname : Path.IsName Settings.fileName.toList := ⟨by decide, by decide, by decide⟩
  have hrelative : (⟨Settings.fileName⟩ : Path).isAbsolute = false := by decide
  have hresolve := passes.resolve_join relative hrelative hname (by decide)
  have notIdle := hname.notIdle
  have notUp := hname.notUp
  rw [settingsIn, Settings.load_apply, FileTree.isPresent, FileTree.read, hresolve]
  cases hfind : tree.find? (child (placeOf d.course.names) Settings.fileName.toList) with
  | none =>
    have hwalk : walk tree (some (standing d.course.names)) [Settings.fileName.toList] =
        .ok (.vacant (child (placeOf d.course.names) Settings.fileName.toList) false) := by
      simp [walk, notIdle, notUp, standing, hfind]
    simp [hwalk]
  | some node =>
    cases node with
    | directory =>
      have hwalk : walk tree (some (standing d.course.names)) [Settings.fileName.toList] = .ok .directory := by
        simp [walk, notIdle, notUp, standing, hfind]
      simp [hwalk]
    | file content =>
      have hwalk : walk tree (some (standing d.course.names)) [Settings.fileName.toList] =
          .ok (.file (child (placeOf d.course.names) Settings.fileName.toList) content false) := by
        simp [walk, notIdle, notUp, standing, hfind]
      cases hdecoded : Utf8.decode? content with
      | none => simp [hwalk, hdecoded]
      | some text => cases hparsed : Settings.parse? (String.ofList text) <;> simp [hwalk, hdecoded, hparsed]

theorem findIn_apply {tree : FileTree} : ∀ {directories : List Path},
    (∀ d ∈ directories, d.isAbsolute = false ∧ tree.Passes [] d.parts) →
      (Settings.findIn directories : TreeM _) tree =
        (((directories.map fun d => placeOf d.course.names).findSome? (settingsIn tree)).getD (.ok .standard), tree)
  | [], _ => rfl
  | d :: directories, h => by
    rw [List.forall_mem_cons] at h
    have ih := findIn_apply h.2
    unfold Settings.findIn
    rw [bind_apply, Files.isPresent_apply, List.map_cons, List.findSome?_cons]
    obtain ⟨habsent, hnone⟩ | ⟨hpresent, hsome⟩ := settingsIn_of_passes h.1.1 h.1.2
    · rw [habsent, hnone]
      exact ih
    · rw [hpresent, hsome]
      have kept : ((Settings.load (d.join ⟨Settings.fileName⟩) : TreeM _) tree).2 = tree := by
        rw [Settings.load_apply]
      exact Prod.ext rfl kept

theorem passes_of_isDirectory {tree : FileTree} {start : Path} (relative : start.isAbsolute = false)
    (below : start.course.climb = 0) (directory : tree.isDirectory start = true) : tree.Passes [] start.parts := by
  have hwalk : walk tree (some (standing [])) (Path.segments start.text.toList) = .ok .directory := by
    unfold FileTree.isDirectory at directory
    split at directory
    · rename_i hresolve
      unfold FileTree.resolve at hresolve
      rw [relative] at hresolve
      split at hresolve
      · cases hresolve
      · exact hresolve
    · cases directory
  rw [Path.course_eq relative] at below
  have passes := passes_of_walk _ hwalk below
  rw [Path.parts_of_relative relative]
  split
  · rwa [List.singleton_append, Passes]
  · exact passes

theorem find_apply {tree : FileTree} {start : Path} (relative : start.isAbsolute = false)
    (below : start.course.climb = 0) (directory : tree.isDirectory start = true) :
    (Settings.find start : TreeM _) tree =
      (((start.passed.map placeOf).findSome? (settingsIn tree)).getD (.ok .standard), tree) := by
  have passes := passes_of_isDirectory relative below directory
  have hpassed : start.passed.map placeOf = start.ancestors.map fun d => placeOf d.course.names := by
    rw [Path.passed, Path.passedFrom, ← List.map_reverse, ← Path.map_parts_ancestors relative, List.map_map,
      List.map_map]
    rfl
  rw [hpassed, Settings.find, findIn_apply]
  intro d hd
  refine ⟨Path.isAbsolute_of_mem_ancestors relative hd, ?_⟩
  have hmem : d.parts ∈ start.parts.inits := by
    rw [← List.mem_reverse, ← Path.map_parts_ancestors relative]
    exact List.mem_map_of_mem hd
  obtain ⟨rest, hrest⟩ := (List.mem_inits _ _).mp hmem
  rw [← hrest] at passes
  exact passes.front

/-- **Where settings are found.** From a relative path to a directory of the tree that never leads above the current
one, the search asks the directories that the path passes, the last first. If those that a `..` leaves again hold no
settings, it finds the settings of the nearest directory among the start and those around it, or the defaults; so it
does from every path without a `..`. -/
theorem find_asks_passed (tree : FileTree) (start : Path) (relative : start.isAbsolute = false)
    (below : start.course.climb = 0) (directory : tree.isDirectory start = true) :
    (Settings.find start : TreeM _) tree =
        (((start.passed.map placeOf).findSome? (settingsIn tree)).getD (.ok .standard), tree) ∧
      ((∀ l ∈ start.passed.map placeOf, l ∉ start.enclosing.map placeOf → settingsIn tree l = none) →
        (Settings.find start : TreeM _) tree =
          (((start.enclosing.map placeOf).findSome? (settingsIn tree)).getD (.ok .standard), tree)) ∧
      (.up ∉ start.parts → (Settings.find start : TreeM _) tree =
          (((start.enclosing.map placeOf).findSome? (settingsIn tree)).getD (.ok .standard), tree)) := by
  have asked := find_apply relative below directory
  -- the directories around the start come in the same order among those it passes
  have upward (h : ∀ names ∈ start.passed, names ∉ start.enclosing → settingsIn tree (placeOf names) = none) :
      (start.passed.map placeOf).findSome? (settingsIn tree) =
        (start.enclosing.map placeOf).findSome? (settingsIn tree) := by
    have hpassed := Path.findSome?_passedFrom start.parts fun names hnames houtside =>
      h names (List.mem_reverse.mpr hnames) houtside
    rw [List.findSome?_map, List.findSome?_map]
    simpa [Path.Course.start, Path.passed, Path.enclosing, Path.course, Function.comp_def] using hpassed
  refine ⟨asked, ?_, ?_⟩
  · intro h
    rw [asked, upward]
    intro names hnames houtside
    apply h _ (List.mem_map_of_mem hnames)
    intro hmem
    obtain ⟨names', hnames', hplace⟩ := List.mem_map.mp hmem
    rw [Path.enclosing, List.mem_tails] at hnames'
    have hsame := placeOf_injective (fun n hn => Path.isName_course relative n (hnames'.subset hn))
      (Path.isName_of_mem_passed relative hnames) hplace
    rw [← hsame] at houtside
    exact houtside ((List.mem_tails _ _).mpr hnames')
  · intro h
    rw [asked, upward]
    intro names hnames houtside
    exact absurd (Path.passed_subset_enclosing h names hnames) houtside

def besideTree : FileTree :=
  Table.ofList [("fw", .directory), ("lib", .directory),
    ("regc.toml", .file (textBytes "[logging]\nlevel = \"info\"\n"))]

theorem find_asks_passed_aside :
    let start : Path := ⟨"fw/../lib/."⟩
    start.isAbsolute = false ∧ start.course.climb = 0 ∧ besideTree.isDirectory start = true ∧
      start.passed.map placeOf = ["lib", "", "fw", ""] ∧
      ((Settings.find start : TreeM _) besideTree).1.toOption =
      some { Settings.standard with logging := ⟨"info"⟩ } := by
  intro start
  have relative : start.isAbsolute = false := by decide
  have below : start.course.climb = 0 := by decide
  have directory : besideTree.isDirectory start = true := by decide +kernel
  have hpassed : start.passed.map placeOf = ["lib", "", "fw", ""] := by decide +kernel
  have henclosing : start.enclosing.map placeOf = ["lib", ""] := by decide +kernel
  have hleft : settingsIn besideTree "fw" = none := Option.isNone_iff_eq_none.mp (by decide +kernel)
  refine ⟨relative, below, directory, hpassed, ?_⟩
  rw [(find_asks_passed besideTree start relative below directory).2.1, henclosing]
  · decide +kernel
  · rw [hpassed, henclosing]
    simp [hleft]

/-- Settings of a directory that the start leaves again are found. -/
theorem left_directory_is_asked :
    let tree : FileTree := Table.ofList [("fw", .directory),
      ("fw/regc.toml", .file (textBytes "[logging]\nlevel = \"info\"\n"))]
    let start : Path := ⟨"fw/.."⟩
    tree.isDirectory start = true ∧ start.enclosing.map placeOf = [""] ∧ settingsIn tree "" = none ∧
      ((Settings.find start : TreeM _) tree).1.toOption = some { Settings.standard with logging := ⟨"info"⟩ } ∧
      (⟨"info"⟩ : LoggingSettings) ≠ Settings.standard.logging := by
  intro tree start
  exact ⟨by decide +kernel, by decide +kernel, Option.isNone_iff_eq_none.mp (by decide +kernel), by decide +kernel,
    by decide⟩

end FirmwareCatalog
