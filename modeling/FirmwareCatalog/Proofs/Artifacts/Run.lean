import FirmwareCatalog.Proofs.Artifacts.Written
import FirmwareCatalog.Proofs.CalibrationTable

/-!
# What a run leaves

A run of the generator takes three steps: it patches the config header, writes
or removes the calibration table, and writes the thin libraries if they are
asked for. Each artifact is read off its step, and the later steps write
elsewhere.
-/

namespace FirmwareCatalog

open FileTree TreeM

/-! ## Locations -/

namespace GeneratorSettings

variable (settings : GeneratorSettings) (project : Path)

def headerPath : Path := project.join settings.configHeader

def copyPath : Path := ConfigHeader.backupPath (settings.headerPath project) settings.backupSuffix

def directory : Path := project.join settings.generatedDir

def calibrationPath : Path := (settings.directory project).join ⟨settings.calibrationFile⟩

def sensorThinPath : Path := (settings.directory project).join ⟨settings.sensorThinLibrary⟩

def applicationThinPath : Path := (settings.directory project).join ⟨settings.applicationThinLibrary⟩

def artifactPaths : List Path :=
  [settings.headerPath project, settings.copyPath project, settings.calibrationPath project,
    settings.sensorThinPath project, settings.applicationThinPath project]

end GeneratorSettings

/-! ## Runs -/

structure Run where
  catalog : Catalog
  inputs : List InputAssignment
  ctx : GenerationContext
  thin : Bool

namespace Run

variable (settings : GeneratorSettings) (project : Path)

def perform (run : Run) : TreeM (Except GenerateError Generated) :=
  generate settings project run.catalog run.inputs run.ctx run.thin

def Calibrated (run : Run) : Prop := ∃ input ∈ run.inputs, input.customCalibration? ≠ none

/-- What a run leaves that succeeds. -/
structure Leaves (run : Run) (before after : FileTree) : Prop where
  calibration : run.Calibrated → ∃ table, CalibrationTable.render? run.inputs run.ctx = .ok (some table) ∧
    after.read (settings.calibrationPath project) = .ok (textBytes table)
  noCalibration : ¬ run.Calibrated → run.thin = false ∨ before.Passable (settings.calibrationPath project) →
    after.isFile (settings.calibrationPath project) = false
  header : ∃ content spliced, before.read (settings.headerPath project) = .ok content ∧
    MarkedBlock.splice settings.markers (textBytes (ConfigBlock.render run.inputs run.ctx settings.markers)) content =
      .ok spliced ∧
    after.read (settings.headerPath project) = .ok spliced.text ∧
    after.read (settings.copyPath project) = .ok content
  thinLibraries : run.thin = true →
    after.read (settings.sensorThinPath project) = .ok (textBytes (ThinLibrary.render run.catalog.sensors
      (run.inputs.map (·.sensorIndex.toNat)) run.ctx settings.sensorThinLibrary)) ∧
    after.read (settings.applicationThinPath project) = .ok (textBytes (ThinLibrary.render run.catalog.applications
      (run.inputs.map (·.applicationIndex.toNat)) run.ctx settings.applicationThinLibrary))
  noThinLibraries : run.thin = false →
    ∀ path ∈ [settings.sensorThinPath project, settings.applicationThinPath project],
      ∀ place, path.place? = some place → after.file? place = before.file? place
  others : ∀ place, (∀ path ∈ settings.artifactPaths project, path.place? ≠ some place) →
    after.file? place = before.file? place

/-! ## The calibration table -/

theorem table_isSome_iff {run : Run} {table : Option String}
    (h : CalibrationTable.render? run.inputs run.ctx = .ok table) : table.isSome = true ↔ run.Calibrated := by
  have hnone : table = none ↔ ∀ input ∈ run.inputs, input.customCalibration? = none := by
    rw [← @CalibrationTable.render?_eq_none_iff run.inputs run.ctx, h, Except.ok.injEq]
  rw [Option.isSome_iff_ne_none, ne_eq, hnone]
  simp [Calibrated]

/-! ## One run -/

theorem writesOnly_perform (settings : GeneratorSettings) (project : Path) (run : Run) :
    WritesOnly (settings.artifactPaths project) (run.perform settings project) := by
  have header : WritesOnly (settings.artifactPaths project) (ConfigHeader.patch (settings.headerPath project)
      (ConfigBlock.render run.inputs run.ctx settings.markers) settings.markers settings.backupSuffix) :=
    (ConfigHeader.writesOnly_patch _ _ _ _).mono (by simp [GeneratorSettings.artifactPaths, GeneratorSettings.copyPath])
  have calibration (table : Option String) : WritesOnly (settings.artifactPaths project)
      (writeCalibrationTable (settings.calibrationPath project) table) :=
    (writesOnly_writeCalibrationTable _ _).mono (by simp [GeneratorSettings.artifactPaths])
  have thin : WritesOnly (settings.artifactPaths project)
      (writeThinLibraries settings (settings.directory project) run.catalog run.inputs run.ctx) := by
    apply (writesOnly_writeThinLibraries _ _ _ _ _).mono
    simp [GeneratorSettings.artifactPaths, GeneratorSettings.sensorThinPath, GeneratorSettings.applicationThinPath]
  unfold perform generate
  cases CalibrationTable.render? run.inputs run.ctx with
  | error e => exact writesOnly_pure _ _
  | ok table =>
    apply header.bind
    intro patched
    cases patched with
    | error e => exact writesOnly_pure _ _
    | ok patch =>
      apply (calibration table).bind
      intro written
      cases written with
      | error e => exact writesOnly_pure _ _
      | ok =>
        cases run.thin with
        | false => exact writesOnly_pure _ _
        | true =>
          apply thin.bind
          intro written
          cases written <;> exact writesOnly_pure _ _

variable {settings : GeneratorSettings} {project : Path} {run : Run} {tree after : FileTree} {generated : Generated}

/-- The steps of a run that succeeds, with the table that it writes and the trees between the steps. -/
structure Steps (settings : GeneratorSettings) (project : Path) (run : Run) (table : Option String)
    (tree patched settled after : FileTree) : Prop where
  rendered : CalibrationTable.render? run.inputs run.ctx = .ok table
  patch : ∃ patch, (ConfigHeader.patch (settings.headerPath project) (ConfigBlock.render run.inputs run.ctx
    settings.markers) settings.markers settings.backupSuffix : TreeM _) tree = (.ok patch, patched)
  calibration : ∃ artifact,
    (writeCalibrationTable (settings.calibrationPath project) table : TreeM _) patched = (.ok artifact, settled)
  notThin : run.thin = false → after = settled
  thin : run.thin = true → ∃ paths, (writeThinLibraries settings (settings.directory project) run.catalog run.inputs
    run.ctx : TreeM _) settled = (.ok paths, after)

theorem exists_steps (h : run.perform settings project tree = (.ok generated, after)) :
    ∃ table patched settled, Steps settings project run table tree patched settled after := by
  unfold perform generate at h
  cases rendered : CalibrationTable.render? run.inputs run.ctx with
  | error e =>
    rw [rendered] at h
    cases h
  | ok table =>
    rw [rendered] at h
    obtain ⟨patch, patched, hpatch, h⟩ := exists_of_bind h fun _ => ⟨_, rfl⟩
    obtain ⟨artifact, settled, hcalibration, h⟩ := exists_of_bind h fun _ => ⟨_, rfl⟩
    refine ⟨table, patched, settled, rendered, ⟨patch, hpatch⟩, ⟨artifact, hcalibration⟩, ?_, ?_⟩
    · intro thin
      rw [thin] at h
      cases h
      rfl
    · intro thin
      rw [thin] at h
      obtain ⟨paths, last, hthin, h⟩ := exists_of_bind h fun _ => ⟨_, rfl⟩
      cases h
      exact ⟨paths, hthin⟩

theorem Steps.exists_perform {table : Option String} {patched settled : FileTree}
    (steps : Steps settings project run table tree patched settled after) :
    ∃ generated, run.perform settings project tree = (.ok generated, after) := by
  obtain ⟨patch, hpatch⟩ := steps.patch
  obtain ⟨artifact, hcalibration⟩ := steps.calibration
  unfold GeneratorSettings.headerPath at hpatch
  unfold GeneratorSettings.calibrationPath GeneratorSettings.directory at hcalibration
  unfold perform generate
  rw [steps.rendered]
  cases thin : run.thin with
  | false =>
    obtain rfl := steps.notThin thin
    simp only [writeArtifacts, bind_apply, hpatch, hcalibration]
    exact ⟨_, rfl⟩
  | true =>
    obtain ⟨paths, hthin⟩ := steps.thin thin
    unfold GeneratorSettings.directory at hthin
    simp only [writeArtifacts, if_true, bind_apply, hpatch, hcalibration, hthin]
    exact ⟨_, rfl⟩

/-- The places of the artifacts are apart: each from those that are written behind it. -/
structure Separate (settings : GeneratorSettings) (project : Path) : Prop where
  header : ∀ p ∈ [settings.copyPath project, settings.calibrationPath project, settings.sensorThinPath project,
    settings.applicationThinPath project], Apart p (settings.headerPath project)
  copy : ∀ p ∈ [settings.calibrationPath project, settings.sensorThinPath project,
    settings.applicationThinPath project], Apart p (settings.copyPath project)
  calibration : ∀ p ∈ [settings.sensorThinPath project, settings.applicationThinPath project],
    Apart p (settings.calibrationPath project)
  thin : Apart (settings.applicationThinPath project) (settings.sensorThinPath project)

theorem separate_of_pairwise (apart : (settings.artifactPaths project).Pairwise Apart) : Separate settings project := by
  obtain ⟨header, apart⟩ := List.pairwise_cons.mp apart
  obtain ⟨copy, apart⟩ := List.pairwise_cons.mp apart
  obtain ⟨calibration, apart⟩ := List.pairwise_cons.mp apart
  obtain ⟨sensor, -⟩ := List.pairwise_cons.mp apart
  exact ⟨fun p hp => (header p hp).symm, fun p hp => (copy p hp).symm, fun p hp => (calibration p hp).symm,
    (sensor _ List.mem_cons_self).symm⟩

namespace Steps

variable {table : Option String} {patched settled : FileTree}
  (steps : Steps settings project run table tree patched settled after)
include steps

/-! Each artifact is read off the step that writes it, and the frames of the later steps keep it there. -/

theorem patchFrame : ChangesOnly [settings.headerPath project, settings.copyPath project] tree patched := by
  obtain ⟨patch, hpatch⟩ := steps.patch
  exact (ConfigHeader.writesOnly_patch _ _ _ _).changesOnly hpatch

theorem tableFrame : ChangesOnly [settings.calibrationPath project] patched settled := by
  obtain ⟨artifact, hcalibration⟩ := steps.calibration
  exact (writesOnly_writeCalibrationTable _ _).changesOnly hcalibration

theorem thinFrame :
    ChangesOnly [settings.sensorThinPath project, settings.applicationThinPath project] settled after := by
  cases thin : run.thin with
  | false =>
    rw [steps.notThin thin]
    exact .refl _ _
  | true =>
    obtain ⟨paths, hthin⟩ := steps.thin thin
    exact (writesOnly_writeThinLibraries _ _ _ _ _).changesOnly hthin

theorem lastFrame : ChangesOnly [settings.calibrationPath project, settings.sensorThinPath project,
    settings.applicationThinPath project] patched after :=
  (steps.tableFrame.mono (by simp)).trans (steps.thinFrame.mono (by simp))

theorem header_read (separate : Separate settings project) :
    ∃ content spliced, tree.read (settings.headerPath project) = .ok content ∧
      MarkedBlock.splice settings.markers (textBytes (ConfigBlock.render run.inputs run.ctx settings.markers)) content =
        .ok spliced ∧
      after.read (settings.headerPath project) = .ok spliced.text ∧
      after.read (settings.copyPath project) = .ok content := by
  obtain ⟨patch, hpatch⟩ := steps.patch
  obtain ⟨content, spliced, middle, hread, located, -, copied, placed⟩ := ConfigHeader.exists_of_patch hpatch
  have header : ∀ p ∈ _, Apart p (settings.headerPath project) := fun p hp =>
    separate.header p (List.mem_cons_of_mem _ hp)
  have apart : Apart (settings.headerPath project) (settings.copyPath project) :=
    (separate.header _ List.mem_cons_self).symm
  refine ⟨content, spliced, hread, located, steps.lastFrame.read header (read_of_write placed),
    steps.lastFrame.read separate.copy ((changesOnly_of_write placed).read ?_ (read_of_write copied))⟩
  simpa using apart

theorem calibration_read (separate : Separate settings project) (calibrated : run.Calibrated) :
    ∃ text, CalibrationTable.render? run.inputs run.ctx = .ok (some text) ∧
      after.read (settings.calibrationPath project) = .ok (textBytes text) := by
  obtain ⟨text, rfl⟩ := Option.isSome_iff_exists.mp ((table_isSome_iff steps.rendered).mpr calibrated)
  obtain ⟨artifact, hcalibration⟩ := steps.calibration
  exact ⟨text, steps.rendered,
    steps.thinFrame.read separate.calibration (read_of_writeCalibrationTable hcalibration)⟩

theorem isFile_calibrationPath (separate : Separate settings project) (regular : tree.Regular)
    (uncalibrated : ¬ run.Calibrated)
    (way : run.thin = false ∨ tree.Passable (settings.calibrationPath project)) :
    after.isFile (settings.calibrationPath project) = false := by
  obtain rfl : table = none := by
    rw [← table_isSome_iff steps.rendered] at uncalibrated
    simpa using uncalibrated
  obtain ⟨artifact, hcalibration⟩ := steps.calibration
  have absent := isFile_of_writeCalibrationTable hcalibration
  obtain thin | passable := way
  · rwa [steps.notThin thin]
  · have passable := (passable.mono steps.patchFrame.directories).mono steps.tableFrame.directories
    exact steps.thinFrame.isFile_eq_false separate.calibration
      (steps.tableFrame.regular (steps.patchFrame.regular regular)) passable absent

theorem file?_thinLibrary (separate : Separate settings project) (thin : run.thin = false) :
    ∀ path ∈ [settings.sensorThinPath project, settings.applicationThinPath project],
      ∀ place, path.place? = some place → after.file? place = tree.file? place := by
  intro path hpath place hplace
  have frame : ChangesOnly [settings.headerPath project, settings.copyPath project, settings.calibrationPath project]
      tree settled := (steps.patchFrame.mono (by simp)).trans (steps.tableFrame.mono (by simp))
  have aside {p : Path} (apart : Apart path p) : p.place? ≠ some place := apart place hplace
  rw [steps.notThin thin, frame.files place]
  intro p hp
  obtain rfl | rfl | rfl : p = _ ∨ p = _ ∨ p = _ := by simpa using hp
  · exact aside (separate.header path (List.mem_cons_of_mem _ (List.mem_cons_of_mem _ hpath)))
  · exact aside (separate.copy path (List.mem_cons_of_mem _ hpath))
  · exact aside (separate.calibration path hpath)

end Steps

/-- A run that succeeds leaves its artifacts, whatever was there before. -/
theorem leaves_of_perform (regular : tree.Regular) (apart : (settings.artifactPaths project).Pairwise Apart)
    (h : run.perform settings project tree = (.ok generated, after)) : run.Leaves settings project tree after := by
  obtain ⟨table, patched, settled, steps⟩ := exists_steps h
  have separate := separate_of_pairwise apart
  refine ⟨steps.calibration_read separate, steps.isFile_calibrationPath separate regular, steps.header_read separate,
    fun thin => ?_, steps.file?_thinLibrary separate, ((writesOnly_perform settings project run).changesOnly h).files⟩
  obtain ⟨paths, hthin⟩ := steps.thin thin
  exact read_of_writeThinLibraries separate.thin hthin

end Run

end FirmwareCatalog
