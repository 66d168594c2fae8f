import FirmwareCatalog.Proofs.Artifacts.Run
import FirmwareCatalog.Proofs.ConfigBlock.Lines

/-!
# Runs one after another

A run of the generator leaves the same artifacts whatever the runs before it
have left: what it does not write it removes, and nothing else changes.
-/

namespace FirmwareCatalog

open FileTree TreeM

namespace Run

def treeAfter (settings : GeneratorSettings) (project : Path) (runs : List Run) (tree : FileTree) : FileTree :=
  runs.foldl (fun tree run => (run.perform settings project tree).2) tree

theorem changesOnly_treeAfter (settings : GeneratorSettings) (project : Path) (runs : List Run) (tree : FileTree) :
    ChangesOnly (settings.artifactPaths project) tree (treeAfter settings project runs tree) := by
  induction runs generalizing tree with
  | nil => exact .refl _ _
  | cons run runs ih => exact (writesOnly_perform settings project run tree).trans (ih _)

/-- **Runs one after another.** A run that succeeds leaves its artifacts whatever the runs before it have left, and no
run of them all has changed another file. -/
theorem history_leaves_artifacts (settings : GeneratorSettings) (project : Path) (runs : List Run) (run : Run)
    (tree after : FileTree) (generated : Generated) (regular : tree.Regular)
    (apart : (settings.artifactPaths project).Pairwise Apart)
    (h : run.perform settings project (treeAfter settings project runs tree) = (.ok generated, after)) :
    run.Leaves settings project (treeAfter settings project runs tree) after ∧
    ∀ place, (∀ path ∈ settings.artifactPaths project, path.place? ≠ some place) →
      after.file? place = tree.file? place := by
  have earlier := changesOnly_treeAfter settings project runs tree
  refine ⟨leaves_of_perform (earlier.regular regular) apart h, ?_⟩
  exact (earlier.trans ((writesOnly_perform settings project run).changesOnly h)).files

/-! ## Runs in a given tree -/

variable {settings : GeneratorSettings} {project : Path} {run : Run} {tree after : FileTree}

def topSettings (generatedDir : Path) (calibrationFile sensorThin applicationThin : String) : GeneratorSettings :=
  { GeneratorSettings.standard with
    configHeader := ⟨"c"⟩, generatedDir, calibrationFile, sensorThinLibrary := sensorThin,
    applicationThinLibrary := applicationThin }

def patchedTree (tree : FileTree) (content text : Bytes) : FileTree :=
  (tree.insert "c.bak" (.file content)).insert "c" (.file text)

theorem find?_patchedTree {content text : Bytes} {place : String} (hc : place ≠ "c") (hbak : place ≠ "c.bak") :
    (patchedTree tree content text).find? place = tree.find? place := by
  rw [patchedTree, Table.find?_insert, if_neg hc, Table.find?_insert, if_neg hbak]

theorem file?_patchedTree {content text : Bytes} : (patchedTree tree content text).file? "c" = some text := by
  rw [file?_eq_some_iff, patchedTree, Table.find?_insert, if_pos rfl]

theorem exists_patch_eq_ok (settings : GeneratorSettings) (run : Run) {content : Bytes} {spliced : MarkedBlock.Spliced}
    (header : settings.headerPath ⟨"."⟩ = ⟨"./c"⟩) (markers : settings.markers = .standard)
    (suffix : settings.backupSuffix = ".bak") (file : tree.file? "c" = some content)
    (located : MarkedBlock.splice .standard (textBytes (ConfigBlock.render run.inputs run.ctx .standard)) content =
      .ok spliced)
    (free : tree.find? "c.bak" ≠ some .directory) :
    ∃ patch, (ConfigHeader.patch (settings.headerPath ⟨"."⟩)
      (ConfigBlock.render run.inputs run.ctx settings.markers) settings.markers settings.backupSuffix :
        TreeM _) tree = (.ok patch, patchedTree tree content spliced.text) := by
  have leads : LeadsTo tree ⟨"./c"⟩ "c" false :=
    ⟨by decide, .idle (by decide) (.last (by decide) (by decide) rfl)⟩
  have leads' : LeadsTo tree (ConfigHeader.backupPath ⟨"./c"⟩ ".bak") "c.bak" false :=
    ⟨by decide, .idle (by decide) (.last (by decide) (by decide) rfl)⟩
  rw [header, markers, suffix]
  exact ⟨_, ConfigHeader.patch_eq_ok leads file located leads' free⟩

theorem exists_splice_bare (block : Bytes) :
    ∃ spliced, MarkedBlock.splice .standard block (textBytes "x\n") = .ok spliced := by
  have absent : MarkedBlock.locate .standard (textBytes "x\n") = .absent := rfl
  unfold MarkedBlock.splice
  rw [absent]
  exact ⟨_, rfl⟩

/-! ## A run after another one -/

def Flat (tree : FileTree) : Prop := ∀ place, tree.find? place ≠ some .directory

theorem Flat.insert (flat : Flat tree) (place : String) (content : Bytes) :
    Flat (tree.insert place (.file content)) := by
  intro l
  rw [Table.find?_insert]
  split
  · nofun
  · exact flat l

theorem Flat.erase (flat : Flat tree) (place : String) : Flat (tree.erase place) := by
  intro l
  rw [Table.find?_erase]
  split
  · nofun
  · exact flat l

theorem writeArtifact_flat {path : Path} {place : String} (flat : Flat tree) (leads : LeadsTo tree path place false)
    (parent : path.parent? = some ⟨"."⟩) (content : String) :
    (writeArtifact path content : TreeM _) tree = (.ok (), tree.insert place (.file (textBytes content))) := by
  have resolved : tree.resolve ⟨"."⟩ = .ok .directory := by
    have segments : Path.segments ".".toList = [['.']] := by decide
    unfold FileTree.resolve
    rw [if_neg (by decide), if_neg (by decide), segments]
    simp [walk, Path.isIdle]
  exact writeArtifact_eq_ok parent (Files.createDirectories_of_directory (by decide) resolved)
    (write_eq_ok leads (flat place) _)

def flatSettings : GeneratorSettings := topSettings ⟨"."⟩ "k" "s" "a"

theorem pairwise_apart_flatSettings : (flatSettings.artifactPaths ⟨"."⟩).Pairwise Apart :=
  pairwise_apart (by decide)

theorem leadsTo_calibrationPath (tree : FileTree) :
    LeadsTo tree (flatSettings.calibrationPath ⟨"."⟩) "k" false := by
  have spelled : flatSettings.calibrationPath ⟨"."⟩ = ⟨"././k"⟩ := rfl
  rw [spelled]
  exact ⟨by decide, .idle (by decide) (.idle (by decide) (.last (by decide) (by decide) rfl))⟩

theorem passable_calibrationPath (tree : FileTree) : tree.Passable (flatSettings.calibrationPath ⟨"."⟩) := by
  have segments : Path.segments (flatSettings.calibrationPath ⟨"."⟩).text.toList = [['.'], ['.'], ['k']] := by
    decide
  intro outward rest h
  have hmem : ['.', '.'] ∈ [['.'], ['.'], ['k']] := by
    rw [← segments, h]
    simp
  exact absurd hmem (by decide)

theorem exists_writeCalibrationTable_flat (flat : Flat tree) {table : Option String}
    (old : table = none → ∃ content, tree.file? "k" = some content) :
    ∃ artifact settled, (writeCalibrationTable (flatSettings.calibrationPath ⟨"."⟩) table : TreeM _) tree =
      (.ok artifact, settled) ∧ Flat settled := by
  cases table with
  | none =>
    obtain ⟨content, file⟩ := old rfl
    exact ⟨_, _, writeCalibrationTable_of_file (leadsTo_calibrationPath tree) file, flat.erase "k"⟩
  | some text =>
    have written := writeArtifact_flat flat (leadsTo_calibrationPath tree) (by decide) text
    refine ⟨.written (flatSettings.calibrationPath ⟨"."⟩), _, ?_, flat.insert "k" (textBytes text)⟩
    unfold writeCalibrationTable
    simp only [bind_apply, written]
    rfl

theorem exists_writeThinLibraries_flat (flat : Flat tree) (catalog : Catalog) (inputs : List InputAssignment)
    (ctx : GenerationContext) :
    ∃ paths after, (writeThinLibraries flatSettings (flatSettings.directory ⟨"."⟩) catalog inputs ctx :
      TreeM _) tree = (.ok paths, after) ∧ Flat after := by
  have sensors : (flatSettings.directory ⟨"."⟩).join ⟨flatSettings.sensorThinLibrary⟩ = ⟨"././s"⟩ := rfl
  have applications : (flatSettings.directory ⟨"."⟩).join ⟨flatSettings.applicationThinLibrary⟩ =
      ⟨"././a"⟩ := by
    decide
  have leads (tree : FileTree) : LeadsTo tree ⟨"././s"⟩ "s" false ∧ LeadsTo tree ⟨"././a"⟩ "a" false :=
    ⟨⟨by decide, .idle (by decide) (.idle (by decide) (.last (by decide) (by decide) rfl))⟩,
      ⟨by decide, .idle (by decide) (.idle (by decide) (.last (by decide) (by decide) rfl))⟩⟩
  obtain ⟨paths, written⟩ := writeThinLibraries_eq_ok
    (by rw [sensors]; exact writeArtifact_flat flat (leads _).1 (by decide) _)
    (by rw [applications]; exact writeArtifact_flat (flat.insert _ _) (leads _).2 (by decide) _)
  exact ⟨paths, _, written, (flat.insert _ _).insert _ _⟩

theorem exists_perform_flat (run : Run) {table : Option String} {content : Bytes}
    {spliced : MarkedBlock.Spliced} (flat : Flat tree) (thin : run.thin = true)
    (rendered : CalibrationTable.render? run.inputs run.ctx = .ok table)
    (file : tree.file? "c" = some content)
    (located : MarkedBlock.splice .standard (textBytes (ConfigBlock.render run.inputs run.ctx .standard)) content =
      .ok spliced)
    (old : table = none → ∃ content, tree.file? "k" = some content) :
    ∃ generated after, run.perform flatSettings ⟨"."⟩ tree = (.ok generated, after) ∧ Flat after := by
  obtain ⟨patch, patched⟩ := exists_patch_eq_ok flatSettings run (by decide) rfl rfl file located (flat _)
  have old' : table = none → ∃ old, (patchedTree tree content spliced.text).file? "k" = some old := by
    intro none
    obtain ⟨old, hk⟩ := old none
    rw [file?_eq_some_iff] at hk
    exact ⟨old, file?_eq_some_iff.mpr ((find?_patchedTree (by decide) (by decide)).trans hk)⟩
  obtain ⟨artifact, settled, calibrated, flat'⟩ :=
    exists_writeCalibrationTable_flat ((flat.insert "c.bak" content).insert "c" spliced.text) old'
  obtain ⟨paths, after, libraries, flat''⟩ :=
    exists_writeThinLibraries_flat flat' run.catalog run.inputs run.ctx
  have steps : Steps flatSettings ⟨"."⟩ run table tree _ settled after :=
    ⟨rendered, ⟨patch, patched⟩, ⟨artifact, calibrated⟩, fun hthin => (by simp [thin] at hthin),
      fun _ => ⟨paths, libraries⟩⟩
  obtain ⟨generated, performed⟩ := steps.exists_perform
  exact ⟨generated, after, performed, flat''⟩

/-- Behind a run with calibrations there is a header to patch and a table to remove. -/
theorem exists_perform_behind (leaves : run.Leaves flatSettings ⟨"."⟩ tree after) (calibrated : run.Calibrated)
    (delimited : MarkedBlock.Delimited .standard (textBytes (ConfigBlock.render run.inputs run.ctx .standard)))
    (flat : Flat after) (later : Run) (thin : later.thin = true)
    (rendered : CalibrationTable.render? later.inputs later.ctx = .ok none) :
    after.isFile (flatSettings.calibrationPath ⟨"."⟩) = true ∧
      ∃ generated last, later.perform flatSettings ⟨"."⟩ after = (.ok generated, last) := by
  obtain ⟨table, -, hread⟩ := leaves.calibration calibrated
  obtain ⟨place, leads, old⟩ := read_eq_ok_iff.mp hread
  obtain rfl : "k" = place :=
    Option.some.inj ((leadsTo_calibrationPath after).place?_eq.symm.trans leads.place?_eq)
  refine ⟨leads.isFile old, ?_⟩
  obtain ⟨_, spliced, -, located, hheader, -⟩ := leaves.header
  obtain ⟨place, leads, header⟩ := read_eq_ok_iff.mp hheader
  obtain rfl : "c" = place := by
    have spelled : (flatSettings.headerPath ⟨"."⟩).place? = some "c" := rfl
    exact Option.some.inj (spelled.symm.trans leads.place?_eq)
  obtain ⟨spliced', located'⟩ := MarkedBlock.exists_splice_spliced (by decide) delimited located
    (textBytes (ConfigBlock.render later.inputs later.ctx .standard))
  obtain ⟨generated, last, performed, -⟩ :=
    exists_perform_flat later flat thin rendered header located' fun _ => ⟨_, old⟩
  exact ⟨generated, last, performed⟩

def sampleCatalog : Catalog :=
  let record (index : Nat) (raw : String) : EntryRecord := ⟨index, .empty, [], raw, .structLiteral, true⟩
  { sensors := ⟨[.ofRecord (record 0 "\x7b.name = PSTR_NONE\x7d"), .ofRecord (record 2 "\x7b.name = PSTR_NTC\x7d")],
      .empty, "T", "SENSOR_LIBRARY"⟩
    applications := ⟨[.ofRecord (record 1 "\x7b.name = PSTR_CHT\x7d")], .empty, "T", "APPLICATION_PRESETS"⟩
    units := .empty _ }

def sampleRun (toolVersion : String) (calibration : Option Calibration) : Run :=
  ⟨sampleCatalog, [CalibrationTable.sampleInput 7 calibration], ⟨toolVersion, "p", ⟨0⟩⟩, true⟩

def calibratedRun : Run := sampleRun "1" (some CalibrationTable.linearSample)

def laterRun : Run := sampleRun "2" none

theorem calibrated_calibratedRun : calibratedRun.Calibrated :=
  ⟨_, List.mem_singleton_self _, Option.some_ne_none CalibrationTable.linearSample⟩

theorem not_calibrated_laterRun : ¬ laterRun.Calibrated := by
  rintro ⟨input, hinput, hcustom⟩
  obtain rfl := List.mem_singleton.mp hinput
  exact hcustom rfl

theorem exists_render?_calibratedRun :
    ∃ text, CalibrationTable.render? calibratedRun.inputs calibratedRun.ctx = .ok (some text) := by
  cases rendered : CalibrationTable.render? calibratedRun.inputs calibratedRun.ctx with
  | error e =>
    obtain ⟨custom, hcustom, hlacks⟩ := CalibrationTable.exists_render?_error_iff.mp ⟨e, rendered⟩
    obtain rfl := List.mem_singleton.mp hcustom
    exact absurd hlacks CalibrationTable.not_lacks_linearSample
  | ok table =>
    obtain ⟨text, rfl⟩ := Option.isSome_iff_exists.mp ((table_isSome_iff rendered).mpr calibrated_calibratedRun)
    exact ⟨text, rfl⟩

theorem delimited_calibratedRun : MarkedBlock.Delimited .standard
    (textBytes (ConfigBlock.render calibratedRun.inputs calibratedRun.ctx .standard)) := by
  apply ConfigBlock.Plain.delimited
  refine ⟨?_, ?_, ?_, ?_, ?_⟩ <;> unfold ConfigBlock.FitsLine <;> decide

def notedTree : FileTree := Table.ofList [("c", .file (textBytes "x\n")), ("n", .file (textBytes "y\n"))]

theorem find?_notedTree (k : String) :
    notedTree.find? k = [("n", .file (textBytes "y\n")), ("c", .file (textBytes "x\n"))].lookup k :=
  Table.find?_ofList _ _

theorem mem_notedTree {k : String} (h : (notedTree.find? k).isSome = true) : k = "n" ∨ k = "c" := by
  rw [find?_notedTree, List.lookup_isSome_iff] at h
  simpa using h

theorem regular_notedTree : notedTree.Regular := by
  apply regular_of_forall
  intro k hk
  obtain rfl | rfl := mem_notedTree hk
  · exact ⟨"", ['n'], rfl, by decide, .inl rfl⟩
  · exact ⟨"", ['c'], rfl, by decide, .inl rfl⟩

theorem flat_notedTree : Flat notedTree := by
  intro k hk
  obtain rfl | rfl := mem_notedTree (by rw [hk]; rfl)
  · cases (find?_notedTree "n").symm.trans hk
  · cases (find?_notedTree "c").symm.trans hk

/-- A run with a calibration, and one that has none: the table of the first run is gone, the thin libraries are those
of the second, and a note is as it was. -/
theorem history_leaves_artifacts_calibratedRun :
    let before := treeAfter flatSettings ⟨"."⟩ [calibratedRun] notedTree
    ∃ after generated, laterRun.perform flatSettings ⟨"."⟩ before = (.ok generated, after) ∧
      before.isFile (flatSettings.calibrationPath ⟨"."⟩) = true ∧
      after.isFile (flatSettings.calibrationPath ⟨"."⟩) = false ∧
      after.read (flatSettings.sensorThinPath ⟨"."⟩) =
        .ok (textBytes (ThinLibrary.render sampleCatalog.sensors [2] ⟨"2", "p", ⟨0⟩⟩ "s")) ∧
      after.file? "n" = some (textBytes "y\n") := by
  intro before
  have file : notedTree.file? "c" = some (textBytes "x\n") := by rw [file?_eq_some_iff, find?_notedTree]; rfl
  obtain ⟨spliced, located⟩ :=
    exists_splice_bare (textBytes (ConfigBlock.render calibratedRun.inputs calibratedRun.ctx .standard))
  obtain ⟨text, rendered⟩ := exists_render?_calibratedRun
  obtain ⟨_, first, performed, flat⟩ :=
    exists_perform_flat calibratedRun flat_notedTree rfl rendered file located nofun
  obtain rfl : before = first := congrArg Prod.snd performed
  have leaves := leaves_of_perform regular_notedTree pairwise_apart_flatSettings performed
  obtain ⟨old, generated, after, performed'⟩ :=
    exists_perform_behind leaves calibrated_calibratedRun delimited_calibratedRun flat laterRun rfl rfl
  obtain ⟨leaves', others⟩ := history_leaves_artifacts flatSettings ⟨"."⟩ [calibratedRun] laterRun notedTree _ _
    regular_notedTree pairwise_apart_flatSettings performed'
  refine ⟨after, generated, performed', old,
    leaves'.noCalibration not_calibrated_laterRun (.inr (passable_calibrationPath _)),
    (leaves'.thinLibraries rfl).1, ?_⟩
  rw [others "n" (by decide), file?_eq_some_iff, find?_notedTree]
  rfl

/-! ## Artifacts that interfere -/

def idle (thin : Bool) : Run := ⟨⟨.empty _, .empty _, .empty _⟩, [], ⟨"1", "p", ⟨0⟩⟩, thin⟩

theorem render?_idle (thin : Bool) : CalibrationTable.render? (idle thin).inputs (idle thin).ctx = .ok none := rfl

/-- No path is spelled as one below another. -/
def Beside (p q : Path) : Prop := ¬ p.parts <+: q.parts ∧ ¬ q.parts <+: p.parts

theorem header_removed :
    let settings := topSettings ⟨"d"⟩ "../c" "s" "a"
    ∃ (tree after : FileTree) (generated : Generated), (settings.artifactPaths ⟨"."⟩).Pairwise Beside ∧
      (idle false).perform settings ⟨"."⟩ tree = (.ok generated, after) ∧
      after.isFile (settings.headerPath ⟨"."⟩) = false := by
  intro settings
  let tree : FileTree := Table.ofList [("c", .file (textBytes "x\n")), ("d", .directory)]
  have find (k : String) : tree.find? k = [("d", .directory), ("c", .file (textBytes "x\n"))].lookup k :=
    Table.find?_ofList _ _
  have file : tree.file? "c" = some (textBytes "x\n") := by rw [file?_eq_some_iff, find]; rfl
  have free : tree.find? "c.bak" ≠ some .directory := by rw [find]; nofun
  have header : settings.headerPath ⟨"."⟩ = ⟨"./c"⟩ := by decide
  have table : settings.calibrationPath ⟨"."⟩ = ⟨"./d/../c"⟩ := by decide
  obtain ⟨spliced, located⟩ := exists_splice_bare _
  obtain ⟨patch, patched⟩ := exists_patch_eq_ok settings (idle false) header rfl rfl file located free
  have directory : (patchedTree tree (textBytes "x\n") spliced.text).find? "d" = some .directory := by
    rw [find?_patchedTree (by decide) (by decide), find]
    rfl
  have leads : LeadsTo (patchedTree tree (textBytes "x\n") spliced.text)
      (settings.calibrationPath ⟨"."⟩) "c" false := by
    rw [table]
    exact ⟨by decide,
      .idle (by decide) (.down (by decide) (by decide) directory (.up (.last (by decide) (by decide) rfl)))⟩
  have removed := writeCalibrationTable_of_file leads file?_patchedTree
  have steps : Steps settings ⟨"."⟩ (idle false) none tree _ _ _ :=
    ⟨render?_idle false, ⟨patch, patched⟩, ⟨_, removed⟩, fun _ => rfl, nofun⟩
  obtain ⟨generated, performed⟩ := steps.exists_perform
  refine ⟨tree, _, generated, ?_, performed, ?_⟩
  · unfold Beside
    decide
  · rw [Bool.eq_false_iff, header]
    intro hfile
    obtain ⟨place, content, leads, hfile⟩ := isFile_eq_true_iff.mp hfile
    obtain rfl : "c" = place := by
      have spelled : Path.place? ⟨"./c"⟩ = some "c" := rfl
      exact Option.some.inj (spelled.symm.trans leads.place?_eq)
    rw [file?_eq_some_iff, Table.find?_erase, if_pos rfl] at hfile
    cases hfile

section

variable (outer : tree.find? "g" = some .directory)
include outer

theorem isPresent_behind_missing (free : tree.find? "g/a" = none) : tree.isPresent ⟨"./g/a/../k"⟩ = false := by
  have segments : Path.segments "./g/a/../k".toList = [['.'], ['g'], ['a'], ['.', '.'], ['k']] := by decide
  have resolved : tree.resolve ⟨"./g/a/../k"⟩ = .error .notFound := by
    have first : child "" ['g'] = "g" := rfl
    have second : child "g" ['a'] = "g/a" := by decide
    unfold FileTree.resolve
    rw [if_neg (by decide), if_neg (by decide), segments]
    simp [walk, Path.isIdle, first, second, outer, free]
  unfold FileTree.isPresent
  rw [resolved]

theorem isFile_behind_directory (inner : tree.find? "g/a" = some .directory) {content : Bytes}
    (file : tree.file? "g/k" = some content) : tree.isFile ⟨"./g/a/../k"⟩ = true := by
  refine LeadsTo.isFile ⟨by decide, ?_⟩ file
  exact .idle (by decide) (.down (by decide) (by decide) outer (.down (by decide) (by decide) inner
    (.up (.last (by decide) (by decide) rfl))))

theorem writeArtifact_inner (free : tree.find? "g/a" = none) (free' : tree.find? "g/a/s" = none) (content : String) :
    (writeArtifact ⟨"./g/a/s"⟩ content : TreeM _) tree =
      (.ok (), (tree.insert "g/a" .directory).insert "g/a/s" (.file (textBytes content))) := by
  have leads : LeadsTo tree ⟨"./g/a"⟩ "g/a" false :=
    ⟨by decide, .idle (by decide) (.down (by decide) (by decide) outer (.last (by decide) (by decide) rfl))⟩
  have outer' : (tree.insert "g/a" .directory).find? "g" = some .directory := by
    rw [Table.find?_insert, if_neg (by decide), outer]
  have inner : (tree.insert "g/a" .directory).find? "g/a" = some .directory := by rw [Table.find?_insert, if_pos rfl]
  have leads' : LeadsTo (tree.insert "g/a" .directory) ⟨"./g/a/s"⟩ "g/a/s" false :=
    ⟨by decide, .idle (by decide) (.down (by decide) (by decide) outer' (.down (by decide) (by decide) inner
      (.last (by decide) (by decide) rfl)))⟩
  have parent : Path.parent? ⟨"./g/a/s"⟩ = some ⟨"./g/a"⟩ := rfl
  refine writeArtifact_eq_ok parent (Files.createDirectories_of_vacant (by decide) (createDirectory_eq_ok leads free))
    (write_eq_ok leads' ?_ _)
  rw [Table.find?_insert, if_neg (by decide), free']
  simp

theorem writeArtifact_outer (free : tree.find? "g/t" = none) (content : String) :
    (writeArtifact ⟨"./g/t"⟩ content : TreeM _) tree = (.ok (), tree.insert "g/t" (.file (textBytes content))) := by
  have leads : LeadsTo tree ⟨"./g/t"⟩ "g/t" false :=
    ⟨by decide, .idle (by decide) (.down (by decide) (by decide) outer (.last (by decide) (by decide) rfl))⟩
  have resolved : tree.resolve ⟨"./g"⟩ = .ok .directory := by
    have segments : Path.segments "./g".toList = [['.'], ['g']] := by decide
    have first : child "" ['g'] = "g" := rfl
    unfold FileTree.resolve
    rw [if_neg (by decide), if_neg (by decide), segments]
    simp [walk, Path.isIdle, first, outer]
  have parent : Path.parent? ⟨"./g/t"⟩ = some ⟨"./g"⟩ := rfl
  exact writeArtifact_eq_ok parent (Files.createDirectories_of_directory (by decide) resolved)
    (write_eq_ok leads (by simp [free]) _)

theorem exists_writeThinLibraries_opening (settings : GeneratorSettings) (directory : Path)
    (sensors : directory.join ⟨settings.sensorThinLibrary⟩ = ⟨"./g/a/s"⟩)
    (applications : directory.join ⟨settings.applicationThinLibrary⟩ = ⟨"./g/t"⟩)
    (free : ∀ place ∈ ["g/a", "g/a/s", "g/t"], tree.find? place = none) {content : Bytes}
    (old : tree.file? "g/k" = some content) (catalog : Catalog) (inputs : List InputAssignment)
    (ctx : GenerationContext) :
    ∃ paths after, (writeThinLibraries settings directory catalog inputs ctx : TreeM _) tree = (.ok paths, after) ∧
      after.isFile ⟨"./g/a/../k"⟩ = true := by
  have first := writeArtifact_inner outer (free _ (by simp)) (free _ (by simp))
  have second (node : FileNode) (content : String) :
      (writeArtifact ⟨"./g/t"⟩ content : TreeM _) ((tree.insert "g/a" .directory).insert "g/a/s" node) =
        (.ok (), ((tree.insert "g/a" .directory).insert "g/a/s" node).insert "g/t" (.file (textBytes content))) := by
    apply writeArtifact_outer
    · simp [Table.find?_insert, outer]
    · simp [Table.find?_insert, free]
  obtain ⟨paths, written⟩ := writeThinLibraries_eq_ok (by rw [sensors]; exact first _)
    (by rw [applications]; exact second _ _)
  refine ⟨paths, _, written, ?_⟩
  rw [file?_eq_some_iff] at old
  apply isFile_behind_directory
  · simp [Table.find?_insert, outer]
  · simp [Table.find?_insert]
  · simp [file?_eq_some_iff, Table.find?_insert, old]
    rfl

end

def oldTableTree : FileTree :=
  Table.ofList [("c", .file (textBytes "x\n")), ("g", .directory), ("g/k", .file (textBytes "old\n"))]

theorem find?_oldTableTree (k : String) : oldTableTree.find? k =
    [("g/k", .file (textBytes "old\n")), ("g", .directory), ("c", .file (textBytes "x\n"))].lookup k :=
  Table.find?_ofList _ _

theorem regular_oldTableTree : oldTableTree.Regular := by
  apply regular_of_forall
  intro k hk
  have hmem : k = "g/k" ∨ k = "g" ∨ k = "c" := by
    rw [find?_oldTableTree, List.lookup_isSome_iff] at hk
    simpa using hk
  obtain rfl | rfl | rfl := hmem
  · exact ⟨"g", ['k'], rfl, by decide, .inr (find?_oldTableTree "g")⟩
  · exact ⟨"", ['g'], rfl, by decide, .inl rfl⟩
  · exact ⟨"", ['c'], rfl, by decide, .inl rfl⟩

theorem old_table_returned :
    let settings := topSettings ⟨"g"⟩ "a/../k" "a/s" "t"
    ∃ (tree after : FileTree) (generated : Generated), tree.Regular ∧
      (settings.artifactPaths ⟨"."⟩).Pairwise Apart ∧ (settings.artifactPaths ⟨"."⟩).Pairwise Beside ∧
      (idle true).perform settings ⟨"."⟩ tree = (.ok generated, after) ∧
      after.isFile (settings.calibrationPath ⟨"."⟩) = true := by
  intro settings
  have file : oldTableTree.file? "c" = some (textBytes "x\n") := by rw [file?_eq_some_iff, find?_oldTableTree]; rfl
  have free : oldTableTree.find? "c.bak" ≠ some .directory := by rw [find?_oldTableTree]; nofun
  have header : settings.headerPath ⟨"."⟩ = ⟨"./c"⟩ := by decide
  have table : settings.calibrationPath ⟨"."⟩ = ⟨"./g/a/../k"⟩ := by decide
  obtain ⟨spliced, located⟩ := exists_splice_bare _
  obtain ⟨patch, patched⟩ := exists_patch_eq_ok settings (idle true) header rfl rfl file located free
  -- the patch touches the header and its copy only, so everything else is looked up in the first tree
  have kept {l : String} (hc : l ≠ "c") (hbak : l ≠ "c.bak") :
      (patchedTree oldTableTree (textBytes "x\n") spliced.text).find? l = _ :=
    (find?_patchedTree hc hbak).trans (find?_oldTableTree l)
  have outer := kept (show "g" ≠ "c" by decide) (by decide)
  have absent := writeCalibrationTable_of_absent (isPresent_behind_missing outer (kept (by decide) (by decide)))
  have free' : ∀ place ∈ ["g/a", "g/a/s", "g/t"],
      (patchedTree oldTableTree (textBytes "x\n") spliced.text).find? place = none := by
    simp only [List.mem_cons, List.not_mem_nil, or_false, forall_eq_or_imp, forall_eq]
    exact ⟨kept (by decide) (by decide), kept (by decide) (by decide), kept (by decide) (by decide)⟩
  have old := file?_eq_some_iff.mpr (kept (show "g/k" ≠ "c" by decide) (by decide))
  obtain ⟨paths, after, thin, found⟩ := exists_writeThinLibraries_opening outer settings
    (settings.directory ⟨"."⟩) (by decide) (by decide) free' old (idle true).catalog (idle true).inputs
    (idle true).ctx
  rw [← table] at absent found
  have steps : Steps settings ⟨"."⟩ (idle true) none oldTableTree _ _ after :=
    ⟨render?_idle true, ⟨patch, patched⟩, ⟨_, absent⟩, nofun, fun _ => ⟨paths, thin⟩⟩
  obtain ⟨generated, performed⟩ := steps.exists_perform
  refine ⟨oldTableTree, after, generated, regular_oldTableTree, pairwise_apart (by decide), ?_, performed, found⟩
  unfold Beside
  decide

/-- Paths that are not spelled one below another do not keep the artifacts apart, and places that are apart do not keep
an old table away. -/
theorem artifacts_may_interfere :
    (∃ (settings : GeneratorSettings) (tree after : FileTree) (generated : Generated),
      (settings.artifactPaths ⟨"."⟩).Pairwise Beside ∧
      (idle false).perform settings ⟨"."⟩ tree = (.ok generated, after) ∧
      after.isFile (settings.headerPath ⟨"."⟩) = false) ∧
    ∃ (settings : GeneratorSettings) (tree after : FileTree) (generated : Generated), tree.Regular ∧
      (settings.artifactPaths ⟨"."⟩).Pairwise Apart ∧ (settings.artifactPaths ⟨"."⟩).Pairwise Beside ∧
      (idle true).perform settings ⟨"."⟩ tree = (.ok generated, after) ∧
      after.isFile (settings.calibrationPath ⟨"."⟩) = true :=
  ⟨⟨_, header_removed⟩, ⟨_, old_table_returned⟩⟩

end Run

end FirmwareCatalog
