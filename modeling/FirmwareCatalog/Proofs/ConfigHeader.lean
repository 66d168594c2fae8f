import FirmwareCatalog.ConfigHeader
import FirmwareCatalog.Proofs.Artifacts
import FirmwareCatalog.Proofs.Files.Writing

/-!
# The copy beside the config header

A patch that succeeds leaves the spliced text in the header and the text as it
was in the copy, if the copy has a place of its own. It has one behind every
suffix that is not empty and holds no slash.
-/

namespace FirmwareCatalog

/-! ## Names with a suffix -/

namespace Path

def appendLast (s : List Char) : List (List Char) → List (List Char)
  | [] => [s]
  | [segment] => [segment ++ s]
  | segment :: next :: rest => segment :: appendLast s (next :: rest)

theorem appendLast_cons {s segment : List Char} {rest : List (List Char)} (h : rest ≠ []) :
    appendLast s (segment :: rest) = segment :: appendLast s rest := by
  cases rest with
  | nil => exact absurd rfl h
  | cons next rest => rfl

theorem segments_append {s : List Char} (h : '/' ∉ s) : ∀ cs : List Char,
    segments (cs ++ s) = appendLast s (segments cs)
  | [] => segments_of_notMem h
  | c :: cs => by
    have ih := segments_append h cs
    rw [List.cons_append]
    simp only [segments]
    by_cases hc : c = '/'
    · rw [if_pos hc, if_pos hc, ih, appendLast_cons (segments_ne_nil cs)]
    · rw [if_neg hc, if_neg hc, ih]
      cases hs : segments cs with
      | nil => exact absurd hs (segments_ne_nil cs)
      | cons t ts => cases ts <;> rfl

end Path

namespace FileTree

variable {tree : FileTree} {target : Path} {place : String}

theorem Way.segments_ne_nil {location : String} {outers : List String} {segments : List (List Char)} {slash : Bool}
    (way : Way tree location outers segments place slash) : segments ≠ [] := by
  cases way <;> simp

theorem Way.place_appendLast {location : String} {outers : List String} {segments : List (List Char)} {slash : Bool}
    (way : Way tree location outers segments place slash) (hslash : slash = false)
    (hsegments : ∀ s ∈ segments, '/' ∉ s) {s : List Char} (hs : s ≠ []) :
    ∃ l n, place = child l n ∧ '/' ∉ n ∧
      Path.placeFrom (some (location, outers)) (Path.appendLast s segments) = some (child l (n ++ s)) := by
  induction way with
  | idle idle way ih =>
    obtain ⟨l, n, hplace, hn, hback⟩ := ih hslash fun s hs => hsegments s (List.mem_cons_of_mem _ hs)
    refine ⟨l, n, hplace, hn, ?_⟩
    rw [Path.appendLast_cons way.segments_ne_nil, Path.placeFrom_idle idle, hback]
  | up way ih =>
    obtain ⟨l, n, hplace, hn, hback⟩ := ih hslash fun s hs => hsegments s (List.mem_cons_of_mem _ hs)
    refine ⟨l, n, hplace, hn, ?_⟩
    rw [Path.appendLast_cons way.segments_ne_nil, Path.placeFrom_up, hback]
  | down name notUp _ way ih =>
    obtain ⟨l, n, hplace, hn, hback⟩ := ih hslash fun s hs => hsegments s (List.mem_cons_of_mem _ hs)
    refine ⟨l, n, hplace, hn, ?_⟩
    rw [Path.appendLast_cons way.segments_ne_nil, Path.placeFrom_name name notUp, hback]
  | @last location outers segment rest name notUp _ =>
    obtain rfl : rest = [] := by simpa using hslash
    refine ⟨location, segment, rfl, hsegments segment (by simp), ?_⟩
    have hne := Path.ne_nil_of_not_isIdle name
    have name' : ¬ Path.isIdle (segment ++ s) = true := by
      cases segment with
      | nil => exact absurd rfl hne
      | cons c segment => cases segment <;> cases s <;> simp_all [Path.isIdle]
    have notUp' : segment ++ s ≠ ['.', '.'] := by
      cases segment with
      | nil => exact absurd rfl hne
      | cons c segment => cases segment <;> cases s <;> simp_all [Path.isIdle]
    rw [Path.appendLast, Path.placeFrom_name name' notUp']
    rfl

theorem LeadsTo.place?_backupPath (leads : LeadsTo tree target place false) {suffix : String} (hne : suffix ≠ "")
    (hslash : '/' ∉ suffix.toList) : (ConfigHeader.backupPath target suffix).place? ≠ some place := by
  have hs : suffix.toList ≠ [] := by simpa using hne
  obtain ⟨l, n, hplace, hn, hback⟩ := leads.way.place_appendLast rfl (fun _ => Path.notMem_segments _) hs
  have relative : (ConfigHeader.backupPath target suffix).isAbsolute = false := by
    have htext : target.text.toList ≠ [] := by simpa [String.isEmpty_iff] using leads.text_ne
    have := leads.relative
    unfold Path.isAbsolute at this ⊢
    rwa [ConfigHeader.backupPath, String.toList_append, List.head?_append_of_ne_nil _ htext]
  unfold Path.place?
  rw [relative, if_neg Bool.false_ne_true, ConfigHeader.backupPath, String.toList_append, Path.segments_append hslash,
    hback, hplace]
  intro he
  have hname : '/' ∉ n ++ suffix.toList := by simp [hn, hslash]
  have := (child_injective hname hn (Option.some.inj he)).2
  simp [hs] at this

end FileTree

/-! ## Patches -/

namespace ConfigHeader

open FileTree

variable {target backup : Path} {content : Bytes} {spliced : MarkedBlock.Spliced} {tree after : FileTree}
  {outcome : Patch}

theorem exists_of_store (h : (store target backup content spliced : TreeM _) tree = (.ok outcome, after)) :
    outcome = ⟨backup, spliced.replaced⟩ ∧
      ∃ middle, tree.write backup content = .ok middle ∧ middle.write target spliced.text = .ok after := by
  unfold store at h
  obtain ⟨⟨⟩, middle, copied, h⟩ := TreeM.exists_of_bind h fun _ => ⟨_, rfl⟩
  dsimp only at h
  obtain ⟨⟨⟩, last, placed, h⟩ := TreeM.exists_of_bind h fun _ => ⟨_, rfl⟩
  cases h
  exact ⟨rfl, middle, TreeM.change_eq_ok copied, TreeM.change_eq_ok placed⟩

theorem exists_of_patch {block : String} {markers : BlockMarkers} {suffix : String}
    (h : (patch target block markers suffix : TreeM _) tree = (.ok outcome, after)) :
    ∃ content spliced middle, tree.read target = .ok content ∧
      MarkedBlock.splice markers (textBytes block) content = .ok spliced ∧
      outcome = ⟨backupPath target suffix, spliced.replaced⟩ ∧
      tree.write (backupPath target suffix) content = .ok middle ∧ middle.write target spliced.text = .ok after := by
  rw [patch_apply] at h
  split at h
  case isFalse => cases h
  case isTrue present =>
    cases answer : tree.read target with
    | error e =>
      rw [answer] at h
      cases h
    | ok content =>
      rw [answer] at h
      cases located : MarkedBlock.splice markers (textBytes block) content with
      | error line =>
        simp only [located] at h
        cases h
      | ok spliced =>
        simp only [located] at h
        obtain ⟨rfl, middle, copied, placed⟩ := exists_of_store h
        exact ⟨content, spliced, middle, rfl, located, rfl, copied, placed⟩

theorem patch_eq_ok {place place' : String} {block : String} {markers : BlockMarkers} {suffix : String}
    (leads : LeadsTo tree target place false) (file : tree.file? place = some content)
    (located : MarkedBlock.splice markers (textBytes block) content = .ok spliced)
    (leads' : LeadsTo tree (backupPath target suffix) place' false) (free : tree.find? place' ≠ some .directory) :
    (patch target block markers suffix : TreeM _) tree = (.ok ⟨backupPath target suffix, spliced.replaced⟩,
      (tree.insert place' (.file content)).insert place (.file spliced.text)) := by
  have copied := write_eq_ok leads' free content
  have placed : FileTree.write (tree.insert place' (.file content)) target spliced.text =
      .ok ((tree.insert place' (.file content)).insert place (.file spliced.text)) := by
    apply write_eq_ok (leads.mono (changesOnly_of_write copied).directories)
    rw [file?_eq_some_iff] at file
    rw [Table.find?_insert]
    split <;> simp [file]
  rw [patch_apply, if_pos (leads.isFile file), leads.read file]
  simp only [located]
  unfold store
  simp only [TreeM.bind_apply, Files.write, Files.replace, TreeM.change, copied, placed]
  rfl

/-- **What a patch leaves.** The header holds the spliced text and the copy holds the text as it was, unless the path
of the copy leads to the header itself, where the copy is lost. A suffix that is not empty and holds no slash leads
elsewhere. -/
theorem patch_leaves_copy (target : Path) (block : String) (markers : BlockMarkers) (suffix : String)
    (tree after : FileTree) (outcome : Patch)
    (h : (patch target block markers suffix : TreeM _) tree = (.ok outcome, after)) :
    ∃ content spliced, tree.read target = .ok content ∧
      MarkedBlock.splice markers (textBytes block) content = .ok spliced ∧
      outcome = ⟨backupPath target suffix, spliced.replaced⟩ ∧ after.read target = .ok spliced.text ∧
      after.read outcome.backup =
        .ok (if outcome.backup.place? = target.place? then spliced.text else content) ∧
      (suffix ≠ "" → '/' ∉ suffix.toList → outcome.backup.place? ≠ target.place?) := by
  obtain ⟨content, spliced, middle, hread, hsplice, rfl, copied, placed⟩ := exists_of_patch h
  refine ⟨content, spliced, hread, hsplice, rfl, read_of_write placed, ?_, ?_⟩
  · have hcopy := read_of_write copied
    have changes := changesOnly_of_write placed
    by_cases same : (backupPath target suffix).place? = target.place?
    · rw [if_pos same]
      obtain ⟨place, leads, hfile⟩ := read_eq_ok_iff.mp (read_of_write placed)
      obtain ⟨place', leads', -⟩ := read_eq_ok_iff.mp hcopy
      have hplace : some place' = some place := by rw [← leads'.place?_eq, same, leads.place?_eq]
      rw [read_eq_ok_iff]
      exact ⟨place, Option.some.inj hplace ▸ leads'.mono changes.directories, hfile⟩
    · rw [if_neg same]
      refine changes.read ?_ hcopy
      intro p hp place hplace hplace'
      rw [List.mem_singleton.mp hp] at hplace
      exact same (hplace'.trans hplace.symm)
  · intro hne hslash
    obtain ⟨place, leads, -⟩ := read_eq_ok_iff.mp hread
    rw [leads.place?_eq]
    exact leads.place?_backupPath hne hslash

theorem patch_leaves_copy_tilde :
    let tree : FileTree := Table.ofList [("c", .file (textBytes "x\n"))]
    ∃ after, (patch ⟨"c"⟩ "B\n" .standard "~" : TreeM _) tree = (.ok ⟨⟨"c~"⟩, false⟩, after) ∧
      after.read ⟨"c~"⟩ = .ok (textBytes "x\n") := by
  intro tree
  have leads : LeadsTo tree ⟨"c"⟩ "c" false := ⟨by decide, .last (by decide) (by decide) rfl⟩
  have leads' : LeadsTo tree (backupPath ⟨"c"⟩ "~") "c~" false := ⟨by decide, .last (by decide) (by decide) rfl⟩
  have find (k : String) : tree.find? k = [("c", .file (textBytes "x\n"))].lookup k := Table.find?_ofList _ _
  have file : tree.file? "c" = some (textBytes "x\n") := file?_eq_some_iff.mpr (find "c")
  have free : tree.find? "c~" = none := find "c~"
  have located : MarkedBlock.splice .standard (textBytes "B\n") (textBytes "x\n") =
      .ok ⟨textBytes "x\n\nB\n", false⟩ := rfl
  have patched := patch_eq_ok leads file located leads' (by simp [free])
  refine ⟨_, patched, ?_⟩
  obtain ⟨content, spliced, hread, -, -, -, hcopy, hapart⟩ := patch_leaves_copy _ _ _ _ _ _ _ patched
  rw [if_neg (hapart (by decide) (by decide))] at hcopy
  rw [leads.read file] at hread
  cases hread
  exact hcopy

def besideDirectory : FileTree := Table.ofList [("c", .file (textBytes "x\n")), ("c.d", .directory)]

theorem find?_besideDirectory (k : String) : besideDirectory.find? k =
    [("c.d", .directory), ("c", .file (textBytes "x\n"))].lookup k := Table.find?_ofList _ _

def LosesCopy (suffix : String) : Prop :=
  ∃ (after : FileTree) (outcome : Patch),
    (patch ⟨"c"⟩ "B\n" .standard suffix : TreeM _) besideDirectory = (.ok outcome, after) ∧
      besideDirectory.read ⟨"c"⟩ = .ok (textBytes "x\n") ∧ after.read outcome.backup = .ok (textBytes "x\n\nB\n")

theorem losesCopy_of_leadsTo {suffix : String}
    (back : LeadsTo besideDirectory (backupPath ⟨"c"⟩ suffix) "c" false) :
    LosesCopy suffix := by
  have leads : LeadsTo besideDirectory ⟨"c"⟩ "c" false := ⟨by decide, .last (by decide) (by decide) rfl⟩
  have file : besideDirectory.file? "c" = some (textBytes "x\n") := file?_eq_some_iff.mpr (find?_besideDirectory "c")
  have located : MarkedBlock.splice .standard (textBytes "B\n") (textBytes "x\n") =
      .ok ⟨textBytes "x\n\nB\n", false⟩ := rfl
  have notDirectory : besideDirectory.find? "c" ≠ some .directory := by
    rw [file?_eq_some_iff] at file
    simp [file]
  refine ⟨_, _, patch_eq_ok leads file located back notDirectory, leads.read file, ?_⟩
  rw [read_eq_ok_iff]
  refine ⟨"c", back.mono fun l hl => ?_, ?_⟩
  · have hne : l ≠ "c" := fun he => notDirectory (he ▸ hl)
    rw [Table.find?_insert, if_neg hne, Table.find?_insert, if_neg hne, hl]
  · rw [file?_eq_some_iff, Table.find?_insert, if_pos rfl]

/-- Behind an empty suffix, and behind one that leads back through a directory, the path of the copy leads to the
header itself. -/
theorem copy_may_be_lost : LosesCopy "" ∧ LosesCopy ".d/../c" := by
  have directory : besideDirectory.find? "c.d" = some .directory := find?_besideDirectory "c.d"
  constructor
  · exact losesCopy_of_leadsTo ⟨by decide, .last (by decide) (by decide) rfl⟩
  · exact losesCopy_of_leadsTo
      ⟨by decide, .down (by decide) (by decide) directory (.up (.last (by decide) (by decide) rfl))⟩

end ConfigHeader

end FirmwareCatalog
