import FirmwareCatalog.Proofs.Files.Place
import FirmwareCatalog.Proofs.Files.ReadOnly

/-!
# What programs change

Writing and removing touch the file at the place of their path and no other, and
no operation loses a directory. Both pass on to programs: a program changes only
files at the places of the paths that its parts write to. A directory that is made
can open a way to a file that was out of reach, but only a way with a `..` in it.
-/

namespace FirmwareCatalog

namespace FileTree

variable {tree tree' before after : FileTree} {path : Path} {place : String} {content : Bytes}

def file? (tree : FileTree) (place : String) : Option Bytes :=
  match tree.find? place with
  | some (.file content) => some content
  | _ => none

theorem file?_eq_some_iff : tree.file? place = some content ↔ tree.find? place = some (.file content) := by
  unfold file?
  split <;> simp_all

/-- Whatever stands in a tree stands in a directory of it. -/
def Regular (tree : FileTree) : Prop :=
  ∀ location name, '/' ∉ name → (tree.find? (child location name)).isSome = true →
    location = "" ∨ tree.find? location = some .directory

theorem regular_of_forall (h : ∀ k, (tree.find? k).isSome = true → ∃ location name, k = child location name ∧
    '/' ∉ name ∧ (location = "" ∨ tree.find? location = some .directory)) : tree.Regular := by
  intro location name hname hsome
  obtain ⟨l, n, hchild, hn, hdirectory⟩ := h _ hsome
  obtain ⟨rfl, rfl⟩ := child_injective hname hn hchild
  exact hdirectory

/-! ## Operations -/

theorem read_eq_ok_iff :
    tree.read path = .ok content ↔ ∃ place, LeadsTo tree path place false ∧ tree.file? place = some content := by
  simp only [file?_eq_some_iff, ← resolve_eq_file_iff]
  unfold read
  split
  · simp_all
  · simp_all
  · simp_all
  · rename_i place' content' slash hresolve
    cases slash <;> simp_all

theorem isFile_eq_true_iff :
    tree.isFile path = true ↔ ∃ place content, LeadsTo tree path place false ∧
      tree.file? place = some content := by
  simp only [file?_eq_some_iff, ← resolve_eq_file_iff]
  unfold isFile
  split <;> simp_all

theorem LeadsTo.read (leads : LeadsTo tree path place false) (file : tree.file? place = some content) :
    tree.read path = .ok content := read_eq_ok_iff.mpr ⟨place, leads, file⟩

theorem LeadsTo.isFile (leads : LeadsTo tree path place false) (file : tree.file? place = some content) :
    tree.isFile path = true := isFile_eq_true_iff.mpr ⟨place, content, leads, file⟩

theorem exists_read_eq_error (spelled : path.place? = some place) (h : tree.file? place = none) :
    ∃ e, tree.read path = .error e := by
  cases hread : tree.read path with
  | error e => exact ⟨e, rfl⟩
  | ok content =>
    obtain ⟨place', leads, file⟩ := read_eq_ok_iff.mp hread
    obtain rfl : place = place' := Option.some.inj (spelled.symm.trans leads.place?_eq)
    rw [h] at file
    cases file

theorem isPresent_of_isFile (h : tree.isFile path = true) : tree.isPresent path = true := by
  unfold isFile at h
  unfold isPresent
  split at h
  · simp_all
  · simp at h

theorem exists_of_write (h : tree.write path content = .ok tree') :
    ∃ place, LeadsTo tree path place false ∧ tree.find? place ≠ some .directory ∧
      tree' = tree.insert place (.file content) := by
  unfold write at h
  split at h
  · cases h
  · cases h
  all_goals
    rename_i hresolve
    split at h
    · cases h
    · rename_i slash hslash
      cases h
      obtain rfl : slash = false := by simpa using hslash
      first
        | obtain ⟨leads, hfind⟩ := resolve_eq_vacant_iff.mp hresolve
          exact ⟨_, leads, by simp [hfind], rfl⟩
        | obtain ⟨leads, hfind⟩ := resolve_eq_file_iff.mp hresolve
          exact ⟨_, leads, by simp [hfind], rfl⟩

theorem write_eq_ok (leads : LeadsTo tree path place false) (h : tree.find? place ≠ some .directory)
    (content : Bytes) :
    tree.write path content = .ok (tree.insert place (.file content)) := by
  unfold write
  cases hfind : tree.find? place with
  | none => simp [resolve_eq_vacant_iff.mpr ⟨leads, hfind⟩]
  | some node =>
    cases node with
    | directory => exact absurd hfind h
    | file old => simp [resolve_eq_file_iff.mpr ⟨leads, hfind⟩]

theorem exists_of_createDirectory (h : tree.createDirectory path = .ok tree') :
    ∃ place slash, LeadsTo tree path place slash ∧ tree.find? place = none ∧
      tree' = tree.insert place .directory := by
  unfold createDirectory at h
  split at h
  · cases h
  · rename_i place slash hresolve
    cases h
    obtain ⟨leads, hfind⟩ := resolve_eq_vacant_iff.mp hresolve
    exact ⟨place, slash, leads, hfind, rfl⟩
  · cases h

theorem createDirectory_eq_ok {slash : Bool} (leads : LeadsTo tree path place slash) (free : tree.find? place = none) :
    tree.createDirectory path = .ok (tree.insert place .directory) := by
  unfold createDirectory
  rw [resolve_eq_vacant_iff.mpr ⟨leads, free⟩]

theorem exists_of_removeFile (h : tree.removeFile path = .ok tree') :
    ∃ place content, LeadsTo tree path place false ∧ tree.find? place = some (.file content) ∧
      tree' = tree.erase place := by
  unfold removeFile at h
  split at h
  · cases h
  · cases h
  · cases h
  · rename_i place content slash hresolve
    split at h
    · cases h
    · rename_i hslash
      cases h
      obtain rfl : slash = false := by simpa using hslash
      obtain ⟨leads, hfind⟩ := resolve_eq_file_iff.mp hresolve
      exact ⟨place, content, leads, hfind, rfl⟩

theorem removeFile_eq_ok (leads : LeadsTo tree path place false) (file : tree.file? place = some content) :
    tree.removeFile path = .ok (tree.erase place) := by
  unfold removeFile
  rw [resolve_eq_file_iff.mpr ⟨leads, file?_eq_some_iff.mp file⟩]
  rfl

/-! ## Frames -/

/-- Files change at the places of some paths only, and directories stay. -/
structure ChangesOnly (paths : List Path) (before after : FileTree) : Prop where
  directories : ∀ l, before.find? l = some .directory → after.find? l = some .directory
  files : ∀ place, (∀ path ∈ paths, path.place? ≠ some place) → after.file? place = before.file? place
  regular : before.Regular → after.Regular

theorem ChangesOnly.refl (paths : List Path) (tree : FileTree) : ChangesOnly paths tree tree :=
  ⟨fun _ => id, fun _ _ => rfl, id⟩

theorem ChangesOnly.trans {paths : List Path} {middle : FileTree} (h : ChangesOnly paths before middle)
    (h' : ChangesOnly paths middle after) : ChangesOnly paths before after where
  directories l hl := h'.directories l (h.directories l hl)
  files place hplace := (h'.files place hplace).trans (h.files place hplace)
  regular hregular := h'.regular (h.regular hregular)

theorem ChangesOnly.mono {paths paths' : List Path} (hsub : paths ⊆ paths') (h : ChangesOnly paths before after) :
    ChangesOnly paths' before after where
  directories := h.directories
  files place hplace := h.files place fun path hpath => hplace path (hsub hpath)
  regular := h.regular

theorem changesOnly_of_find? {slash : Bool} (leads : LeadsTo before path place slash) {paths : List Path}
    (hdirectory : before.find? place ≠ some .directory)
    (hkept : ∀ l, l ≠ place → after.find? l = before.find? l)
    (hfile : path ∈ paths ∨ after.file? place = before.file? place) :
    ChangesOnly paths before after where
  directories l hl := by
    have hne : l ≠ place := fun he => hdirectory (he ▸ hl)
    rw [hkept l hne, hl]
  files l hl := by
    by_cases he : l = place
    · subst he
      obtain hmem | hfile := hfile
      · exact absurd leads.place?_eq (hl path hmem)
      · exact hfile
    · unfold file?
      rw [hkept l he]
  regular hregular := by
    intro location name hname hsome
    have keeps {l : String} (h : l = "" ∨ before.find? l = some .directory) :
        l = "" ∨ after.find? l = some .directory := by
      obtain h | h := h
      · exact .inl h
      · have hne : l ≠ place := fun he => hdirectory (he ▸ h)
        exact .inr ((hkept l hne).trans h)
    by_cases he : child location name = place
    · obtain ⟨l, n, hplace, hn, hl⟩ := leads.exists_directory
      obtain ⟨rfl, rfl⟩ := child_injective hname hn (he.trans hplace)
      exact keeps hl
    · rw [hkept _ he] at hsome
      exact keeps (hregular location name hname hsome)

theorem changesOnly_of_write (h : tree.write path content = .ok tree') : ChangesOnly [path] tree tree' := by
  obtain ⟨place, leads, hdirectory, rfl⟩ := exists_of_write h
  exact changesOnly_of_find? leads hdirectory (fun l hl => by rw [Table.find?_insert, if_neg hl]) (.inl (by simp))

theorem changesOnly_of_createDirectory (h : tree.createDirectory path = .ok tree') : ChangesOnly [] tree tree' := by
  obtain ⟨place, slash, leads, hfree, rfl⟩ := exists_of_createDirectory h
  refine changesOnly_of_find? leads (by simp [hfree]) (fun l hl => by rw [Table.find?_insert, if_neg hl]) (.inr ?_)
  simp [file?, Table.find?_insert, hfree]

theorem changesOnly_of_removeFile (h : tree.removeFile path = .ok tree') : ChangesOnly [path] tree tree' := by
  obtain ⟨place, content, leads, hfile, rfl⟩ := exists_of_removeFile h
  exact changesOnly_of_find? leads (by simp [hfile]) (fun l hl => by rw [Table.find?_erase, if_neg hl]) (.inl (by simp))

theorem read_of_write (h : tree.write path content = .ok tree') : tree'.read path = .ok content := by
  have changes := changesOnly_of_write h
  obtain ⟨place, leads, -, rfl⟩ := exists_of_write h
  rw [read_eq_ok_iff]
  refine ⟨place, leads.mono changes.directories, ?_⟩
  rw [file?_eq_some_iff, Table.find?_insert, if_pos rfl]

theorem isFile_of_removeFile (h : tree.removeFile path = .ok tree') : tree'.isFile path = false := by
  have changes := changesOnly_of_removeFile h
  obtain ⟨place, content, leads, -, rfl⟩ := exists_of_removeFile h
  have leads' := leads.mono changes.directories
  rw [Bool.eq_false_iff]
  intro hfile
  obtain ⟨place', content', leads'', hfile⟩ := isFile_eq_true_iff.mp hfile
  obtain rfl : place = place' := Option.some.inj (leads'.place?_eq.symm.trans leads''.place?_eq)
  rw [file?_eq_some_iff, Table.find?_erase, if_pos rfl] at hfile
  cases hfile

/-- No place is spelled by both paths. -/
def Apart (p q : Path) : Prop := ∀ place, p.place? = some place → q.place? ≠ some place

theorem Apart.symm {p q : Path} (h : Apart p q) : Apart q p := fun place hq hp => h place hp hq

theorem pairwise_apart {paths : List Path} (h : (paths.map Path.place?).Nodup) : paths.Pairwise Apart :=
  (List.pairwise_map.mp h).imp fun hne _ hp hq => hne (hp.trans hq.symm)

theorem ChangesOnly.read {paths : List Path} (h : ChangesOnly paths before after)
    (apart : ∀ p ∈ paths, Apart p path) (hread : before.read path = .ok content) :
    after.read path = .ok content := by
  obtain ⟨place, leads, hfile⟩ := read_eq_ok_iff.mp hread
  rw [read_eq_ok_iff]
  refine ⟨place, leads.mono h.directories, ?_⟩
  rw [h.files place fun p hp hplace => apart p hp place hplace leads.place?_eq]
  exact hfile

/-! ## Ways that were there before -/

/-- Each `..` of a path stands behind a way through directories. -/
def Passable (tree : FileTree) (path : Path) : Prop :=
  ∀ outward rest, Path.segments path.text.toList = outward ++ ['.', '.'] :: rest →
    walk tree (some ("", [])) outward = .ok .directory

theorem walk_directory_mono (kept : ∀ l, tree.find? l = some .directory → tree'.find? l = some .directory) :
    ∀ (segments : List (List Char)) {here : Option (String × List String)},
      walk tree here segments = .ok .directory → walk tree' here segments = .ok .directory
  | [], _, _ => rfl
  | segment :: rest, here, h => by
    have ih {here : Option (String × List String)} :
        walk tree here rest = .ok .directory → walk tree' here rest = .ok .directory :=
      walk_directory_mono kept rest
    simp only [walk] at h ⊢
    by_cases idle : Path.isIdle segment = true
    · rw [if_pos idle] at h ⊢
      exact ih h
    · rw [if_neg idle] at h ⊢
      by_cases up : segment = ['.', '.']
      · rw [if_pos up] at h ⊢
        split at h <;> exact ih h
      · rw [if_neg up] at h ⊢
        cases here with
        | none => cases h
        | some here =>
          simp only at h ⊢
          split at h
          · rename_i directory
            rw [kept _ directory]
            exact ih h
          · split at h <;> cases h
          · split at h <;> cases h

theorem Passable.mono (passable : tree.Passable path)
    (kept : ∀ l, tree.find? l = some .directory → tree'.find? l = some .directory) : tree'.Passable path :=
  fun outward rest h => walk_directory_mono kept outward (passable outward rest h)

theorem Way.directory_of_find? (regular : tree.Regular) {location : String} {outers : List String}
    {segments : List (List Char)} {slash : Bool} (way : Way tree' location outers segments place slash)
    (hsegments : ∀ s ∈ segments, '/' ∉ s) (hdown : ['.', '.'] ∉ segments)
    (hplace : (tree.find? place).isSome = true) : location = "" ∨ tree.find? location = some .directory := by
  induction way with
  | idle _ _ ih =>
    exact ih (fun s hs => hsegments s (List.mem_cons_of_mem _ hs)) (fun h => hdown (List.mem_cons_of_mem _ h)) hplace
  | up => simp at hdown
  | @down location outers segment rest place slash name notUp _ way ih =>
    have hrest : ∀ s ∈ rest, '/' ∉ s := fun s hs => hsegments s (List.mem_cons_of_mem _ hs)
    obtain hempty | hdirectory := ih hrest (fun h => hdown (List.mem_cons_of_mem _ h)) hplace
    · exact absurd hempty (child_ne_empty location (Path.ne_nil_of_not_isIdle name))
    · exact regular location segment (hsegments segment (by simp)) (by simp [hdirectory])
  | @last location outers segment rest =>
    exact regular location segment (hsegments segment (by simp)) hplace

theorem Way.of_find? (regular : tree.Regular) {location : String} {outers : List String}
    {segments : List (List Char)} {slash : Bool} (way : Way tree' location outers segments place slash)
    (hsegments : ∀ s ∈ segments, '/' ∉ s)
    (passable : ∀ outward rest, segments = outward ++ ['.', '.'] :: rest →
      walk tree (some (location, outers)) outward = .ok .directory)
    (hplace : (tree.find? place).isSome = true) : Way tree location outers segments place slash := by
  induction way with
  | @idle location outers segment rest place slash idle way ih =>
    refine .idle idle (ih (fun s hs => hsegments s (List.mem_cons_of_mem _ hs)) ?_ hplace)
    intro outward rest' h
    simpa [walk, idle] using passable (segment :: outward) rest' (by rw [h, List.cons_append])
  | @up location outer outers rest place slash way ih =>
    refine .up (ih (fun s hs => hsegments s (List.mem_cons_of_mem _ hs)) ?_ hplace)
    intro outward rest' h
    simpa [walk, Path.isIdle] using passable (['.', '.'] :: outward) rest' (by rw [h, List.cons_append])
  | @down location outers segment rest place slash name notUp _ way ih =>
    have hrest : ∀ s ∈ rest, '/' ∉ s := fun s hs => hsegments s (List.mem_cons_of_mem _ hs)
    have walked {outward rest' : List (List Char)} (h : rest = outward ++ ['.', '.'] :: rest') :
        walk tree (some (location, outers)) (segment :: outward) = .ok .directory :=
      passable (segment :: outward) rest' (by rw [h, List.cons_append])
    -- a way that climbs again has been walked before; one that does not ends below this directory
    have hdirectory : tree.find? (child location segment) = some .directory := by
      by_cases hup : ['.', '.'] ∈ rest
      · obtain ⟨outward, rest', h⟩ := List.append_of_mem hup
        have h := walked h
        simp only [walk, if_neg name, if_neg notUp] at h
        split at h
        · assumption
        · split at h <;> cases h
        · split at h <;> cases h
      · obtain hempty | hdirectory := way.directory_of_find? regular hrest hup hplace
        · exact absurd hempty (child_ne_empty location (Path.ne_nil_of_not_isIdle name))
        · exact hdirectory
    refine .down name notUp hdirectory (ih hrest ?_ hplace)
    intro outward rest' h
    simpa [walk, name, notUp, hdirectory] using walked h
  | last name notUp ends => exact .last name notUp ends

/-- Where no file is found, none is found after writing elsewhere, even if directories have been made. -/
theorem ChangesOnly.isFile_eq_false {paths : List Path} (changes : ChangesOnly paths tree tree')
    (apart : ∀ p ∈ paths, Apart p path) (regular : tree.Regular) (passable : tree.Passable path)
    (h : tree.isFile path = false) : tree'.isFile path = false := by
  rw [Bool.eq_false_iff] at h ⊢
  intro hfile
  apply h
  obtain ⟨place, content, leads, hfile⟩ := isFile_eq_true_iff.mp hfile
  rw [changes.files place fun p hp hplace => apart p hp place hplace leads.place?_eq] at hfile
  have hplace : (tree.find? place).isSome = true := by simp [file?_eq_some_iff.mp hfile]
  have way := leads.way.of_find? regular (fun _ => Path.notMem_segments _) passable hplace
  exact LeadsTo.isFile ⟨leads.relative, way⟩ hfile

end FileTree

/-! ## Programs -/

namespace TreeM

open FileTree

variable {α β : Type} {paths : List Path} {program : TreeM α} {next : α → TreeM β}

def WritesOnly (paths : List Path) (program : TreeM α) : Prop := ∀ tree, ChangesOnly paths tree (program tree).2

theorem WritesOnly.changesOnly (h : WritesOnly paths program) {tree after : FileTree} {a : α}
    (hrun : program tree = (a, after)) : ChangesOnly paths tree after := by
  have changes := h tree
  rwa [hrun] at changes

theorem ReadsOnly.writesOnly (h : ReadsOnly program) (paths : List Path) : WritesOnly paths program := by
  intro tree
  rw [h tree]
  exact .refl paths tree

theorem WritesOnly.mono {paths' : List Path} (hsub : paths ⊆ paths') (h : WritesOnly paths program) :
    WritesOnly paths' program := fun tree => (h tree).mono hsub

theorem WritesOnly.bind (first : WritesOnly paths program) (rest : ∀ a, WritesOnly paths (next a)) :
    WritesOnly paths (program >>= next) := by
  intro tree
  rw [bind_apply]
  exact (first tree).trans (rest _ _)

theorem writesOnly_pure (paths : List Path) (a : α) : WritesOnly paths (pure a : TreeM α) :=
  (readsOnly_pure a).writesOnly paths

theorem readsOnly_isDirectory (path : Path) : ReadsOnly (Files.isDirectory path) := fun _ => rfl

theorem readsOnly_isPresent (path : Path) : ReadsOnly (Files.isPresent path) := fun _ => rfl

theorem writesOnly_change {f : FileTree → Except FileError FileTree}
    (h : ∀ tree tree', f tree = .ok tree' → ChangesOnly paths tree tree') : WritesOnly paths (change f) := by
  intro tree
  unfold change
  cases hf : f tree with
  | error e => exact .refl paths tree
  | ok tree' => exact h tree tree' hf

theorem writesOnly_write (path : Path) (content : Bytes) : WritesOnly [path] (Files.write path content) :=
  writesOnly_change fun _ _ => changesOnly_of_write

theorem writesOnly_replace (path : Path) (content : Bytes) : WritesOnly [path] (Files.replace path content) :=
  writesOnly_change fun _ _ => changesOnly_of_write

theorem writesOnly_createDirectory (path : Path) : WritesOnly [] (Files.createDirectory path) :=
  writesOnly_change fun _ _ => changesOnly_of_createDirectory

theorem writesOnly_removeFile (path : Path) : WritesOnly [path] (Files.removeFile path) :=
  writesOnly_change fun _ _ => changesOnly_of_removeFile

theorem change_eq_ok {f : FileTree → Except FileError FileTree} {tree after : FileTree}
    (h : change f tree = (.ok (), after)) : f tree = .ok after := by
  unfold change at h
  cases hf : f tree with
  | error e =>
    rw [hf] at h
    cases h
  | ok tree' =>
    rw [hf] at h
    cases h
    rfl

theorem exists_of_bind {ε ε' : Type} {program : TreeM (Except ε α)} {next : Except ε α → TreeM (Except ε' β)}
    {tree after : FileTree} {b : β} (h : (program >>= next) tree = (.ok b, after))
    (stop : ∀ e, ∃ e', next (.error e) = pure (.error e')) :
    ∃ a middle, program tree = (.ok a, middle) ∧ next (.ok a) middle = (.ok b, after) := by
  rw [bind_apply] at h
  cases first : program tree with
  | mk result middle =>
    rw [first] at h
    cases result with
    | error e =>
      obtain ⟨e', he⟩ := stop e
      rw [he] at h
      cases h
    | ok a => exact ⟨a, middle, rfl, h⟩

end TreeM

open TreeM

theorem Path.exists_ancestors (path : Path) : ∃ ancestors, path.ancestors = path :: ancestors := by
  unfold Path.ancestors
  cases path.text.length with
  | zero => exact ⟨[], rfl⟩
  | succ count =>
    unfold Path.ancestorsUpTo
    cases path.parent? with
    | none => exact ⟨[], rfl⟩
    | some parent => exact ⟨_, rfl⟩

theorem Files.writesOnly_createFirst (ancestors : List Path) : WritesOnly [] (Files.createFirst ancestors) := by
  induction ancestors with
  | nil => exact writesOnly_pure _ _
  | cons path ancestors ih =>
    unfold Files.createFirst
    split
    · exact writesOnly_pure _ _
    · extract_lets settle
      have settles (result : Except FileError Unit) : WritesOnly [] (settle result) := by
        cases result with
        | ok => exact writesOnly_pure _ _
        | error e => exact ((readsOnly_isDirectory path).writesOnly _).bind fun _ => writesOnly_pure _ _
      apply (writesOnly_createDirectory path).bind
      intro result
      split
      · apply ih.bind
        intro above
        cases above with
        | error e => exact writesOnly_pure _ _
        | ok => exact (writesOnly_createDirectory path).bind settles
      · exact settles result

theorem Files.writesOnly_createDirectories (path : Path) : WritesOnly [] (Files.createDirectories path) :=
  Files.writesOnly_createFirst path.ancestors

theorem Files.createDirectories_of_vacant {tree after : FileTree} {path : Path} (hne : path.text.isEmpty = false)
    (h : tree.createDirectory path = .ok after) : (Files.createDirectories path : TreeM _) tree = (.ok (), after) := by
  have created : (Files.createDirectory path : TreeM _) tree = (.ok (), after) := by
    simp only [Files.createDirectory, change, h]
  obtain ⟨ancestors, hancestors⟩ := path.exists_ancestors
  unfold Files.createDirectories
  rw [hancestors, Files.createFirst, hne]
  simp only [Bool.false_eq_true, if_false, bind_apply, created]
  rfl

theorem Files.createDirectories_of_directory {tree : FileTree} {path : Path} (hne : path.text.isEmpty = false)
    (h : tree.resolve path = .ok .directory) : (Files.createDirectories path : TreeM _) tree = (.ok (), tree) := by
  have refused : (Files.createDirectory path : TreeM _) tree = (.error .alreadyExists, tree) := by
    simp only [Files.createDirectory, change, FileTree.createDirectory, h]
  have present : (Files.isDirectory path : TreeM _) tree = (true, tree) := by
    simp only [Files.isDirectory, FileTree.isDirectory, h]
  obtain ⟨ancestors, hancestors⟩ := path.exists_ancestors
  unfold Files.createDirectories
  rw [hancestors, Files.createFirst, hne]
  simp only [Bool.false_eq_true, if_false, bind_apply, refused, present]
  rfl

end FirmwareCatalog
