import FirmwareCatalog.Artifacts
import FirmwareCatalog.Proofs.ConfigHeader

/-!
# What the generator writes

Each artifact changes files at its own path only, and a success leaves its text
there, or no file where there is no text.
-/

namespace FirmwareCatalog

open FileTree TreeM

variable {tree after : FileTree}

/-! ## The config header -/

theorem ConfigHeader.writesOnly_patch (target : Path) (block : String) (markers : BlockMarkers) (suffix : String) :
    WritesOnly [target, backupPath target suffix] (patch target block markers suffix) := by
  intro tree
  rw [patch_apply]
  split
  case isFalse => exact .refl _ _
  case isTrue =>
    cases tree.read target with
    | error e => exact .refl _ _
    | ok content =>
      cases located : MarkedBlock.splice markers (textBytes block) content with
      | error line =>
        simp only [located]
        exact .refl _ _
      | ok spliced =>
        simp only [located]
        have stores : WritesOnly [target, backupPath target suffix]
            (store target (backupPath target suffix) content spliced) := by
          unfold store
          apply ((writesOnly_write _ _).mono (by simp)).bind
          intro copied
          cases copied with
          | error e => exact writesOnly_pure _ _
          | ok =>
            apply ((writesOnly_replace _ _).mono (by simp)).bind
            intro placed
            cases placed <;> exact writesOnly_pure _ _
        exact stores tree

/-! ## A file in its directory -/

theorem writesOnly_writeArtifact (path : Path) (content : String) :
    WritesOnly [path] (writeArtifact path content) := by
  unfold writeArtifact
  extract_lets finish
  have finishes : ∀ made, WritesOnly [path] (finish made) := by
    intro made
    cases made with
    | error e => exact writesOnly_pure _ _
    | ok =>
      apply (writesOnly_write _ _).bind
      intro written
      cases written <;> exact writesOnly_pure _ _
  cases path.parent? with
  | none => exact (writesOnly_pure _ _).bind finishes
  | some directory =>
    apply ((Files.writesOnly_createDirectories directory).mono (by simp)).bind
    intro made
    cases made <;> exact (writesOnly_pure _ _).bind finishes

theorem read_of_writeArtifact {path : Path} {content : String}
    (h : (writeArtifact path content : TreeM _) tree = (.ok (), after)) :
    after.read path = .ok (textBytes content) := by
  unfold writeArtifact at h
  cases hparent : path.parent? with
  | none =>
    rw [hparent] at h
    obtain ⟨⟨⟩, start, -, h⟩ := exists_of_bind h fun _ => ⟨_, rfl⟩
    obtain ⟨⟨⟩, last, written, h⟩ := exists_of_bind h fun _ => ⟨_, rfl⟩
    cases h
    exact read_of_write (change_eq_ok written)
  | some directory =>
    rw [hparent] at h
    obtain ⟨⟨⟩, middle, -, h⟩ := exists_of_bind h fun _ => ⟨_, rfl⟩
    obtain ⟨⟨⟩, start, -, h⟩ := exists_of_bind h fun _ => ⟨_, rfl⟩
    obtain ⟨⟨⟩, last, written, h⟩ := exists_of_bind h fun _ => ⟨_, rfl⟩
    cases h
    exact read_of_write (change_eq_ok written)

theorem writeArtifact_eq_ok {path directory : Path} {middle : FileTree} {content : String}
    (parent : path.parent? = some directory)
    (made : (Files.createDirectories directory : TreeM _) tree = (.ok (), middle))
    (written : middle.write path (textBytes content) = .ok after) :
    (writeArtifact path content : TreeM _) tree = (.ok (), after) := by
  unfold writeArtifact
  rw [parent]
  simp only [bind_apply, made]
  change (Files.write path (textBytes content) >>= _ : TreeM _) middle = _
  simp only [bind_apply, Files.write, change, written]
  rfl

/-! ## The calibration table -/

theorem writesOnly_writeCalibrationTable (path : Path) (content : Option String) :
    WritesOnly [path] (writeCalibrationTable path content) := by
  unfold writeCalibrationTable
  cases content with
  | some text =>
    apply (writesOnly_writeArtifact path text).bind
    intro written
    cases written <;> exact writesOnly_pure _ _
  | none =>
    apply ((readsOnly_isPresent path).writesOnly _).bind
    intro present
    cases present with
    | false => exact writesOnly_pure _ _
    | true =>
      apply (writesOnly_removeFile path).bind
      intro removed
      cases removed <;> exact writesOnly_pure _ _

theorem read_of_writeCalibrationTable {path : Path} {text : String} {artifact : CalibrationArtifact}
    (h : (writeCalibrationTable path (some text) : TreeM _) tree = (.ok artifact, after)) :
    after.read path = .ok (textBytes text) := by
  unfold writeCalibrationTable at h
  dsimp only at h
  obtain ⟨⟨⟩, middle, written, h⟩ := exists_of_bind h fun _ => ⟨_, rfl⟩
  cases h
  exact read_of_writeArtifact written

theorem isFile_of_writeCalibrationTable {path : Path} {artifact : CalibrationArtifact}
    (h : (writeCalibrationTable path none : TreeM _) tree = (.ok artifact, after)) :
    after.isFile path = false := by
  unfold writeCalibrationTable at h
  dsimp only at h
  rw [(readsOnly_isPresent path).bind_apply] at h
  change (if tree.isPresent path = true then _ else _ : TreeM _) tree = _ at h
  by_cases present : tree.isPresent path = true
  · rw [if_pos present] at h
    obtain ⟨⟨⟩, middle, removed, h⟩ := exists_of_bind h fun _ => ⟨_, rfl⟩
    cases h
    exact isFile_of_removeFile (change_eq_ok removed)
  · rw [if_neg present] at h
    cases h
    rw [Bool.eq_false_iff]
    exact fun hfile => present (isPresent_of_isFile hfile)

theorem writeCalibrationTable_of_absent {path : Path} (h : tree.isPresent path = false) :
    (writeCalibrationTable path none : TreeM _) tree = (.ok .notNeeded, tree) := by
  unfold writeCalibrationTable
  simp only [bind_apply, Files.isPresent, h]
  rfl

theorem writeCalibrationTable_of_file {path : Path} {place : String} {content : Bytes}
    (leads : LeadsTo tree path place false) (file : tree.file? place = some content) :
    (writeCalibrationTable path none : TreeM _) tree = (.ok (.removed path), tree.erase place) := by
  have present := isPresent_of_isFile (leads.isFile file)
  unfold writeCalibrationTable
  simp only [bind_apply, Files.isPresent, present, if_true, Files.removeFile, change, removeFile_eq_ok leads file]
  rfl

/-! ## Thin libraries -/

section

variable {E : Type} [CatalogEntry E] {registry : Registry E} {referenced : List Nat} {ctx : GenerationContext}
  {directory : Path} {fileName : String}

theorem writeThinLibrary_eq_ok (h : (writeArtifact (directory.join ⟨fileName⟩)
    (ThinLibrary.render registry referenced ctx fileName) : TreeM _) tree = (.ok (), after)) :
    (writeThinLibrary registry referenced ctx directory fileName : TreeM _) tree =
      (.ok (directory.join ⟨fileName⟩), after) := by
  unfold writeThinLibrary
  simp only [bind_apply, h]
  rfl

theorem writesOnly_writeThinLibrary :
    WritesOnly [directory.join ⟨fileName⟩] (writeThinLibrary registry referenced ctx directory fileName) := by
  unfold writeThinLibrary
  apply (writesOnly_writeArtifact _ _).bind
  intro written
  cases written <;> exact writesOnly_pure _ _

theorem read_of_writeThinLibrary {path : Path}
    (h : (writeThinLibrary registry referenced ctx directory fileName : TreeM _) tree = (.ok path, after)) :
    after.read (directory.join ⟨fileName⟩) =
      .ok (textBytes (ThinLibrary.render registry referenced ctx fileName)) := by
  unfold writeThinLibrary at h
  obtain ⟨⟨⟩, middle, written, h⟩ := exists_of_bind h fun _ => ⟨_, rfl⟩
  cases h
  exact read_of_writeArtifact written

end

theorem writesOnly_writeThinLibraries (settings : GeneratorSettings) (directory : Path) (catalog : Catalog)
    (inputs : List InputAssignment) (ctx : GenerationContext) :
    WritesOnly [directory.join ⟨settings.sensorThinLibrary⟩, directory.join ⟨settings.applicationThinLibrary⟩]
      (writeThinLibraries settings directory catalog inputs ctx) := by
  unfold writeThinLibraries
  apply (writesOnly_writeThinLibrary.mono (by simp)).bind
  intro sensors
  cases sensors with
  | error e => exact writesOnly_pure _ _
  | ok sensorPath =>
    apply (writesOnly_writeThinLibrary.mono (by simp)).bind
    intro applications
    cases applications <;> exact writesOnly_pure _ _

theorem read_of_writeThinLibraries {settings : GeneratorSettings} {directory : Path} {catalog : Catalog}
    {inputs : List InputAssignment} {ctx : GenerationContext} {paths : List Path}
    (apart : Apart (directory.join ⟨settings.applicationThinLibrary⟩)
      (directory.join ⟨settings.sensorThinLibrary⟩))
    (h : (writeThinLibraries settings directory catalog inputs ctx : TreeM _) tree = (.ok paths, after)) :
    after.read (directory.join ⟨settings.sensorThinLibrary⟩) = .ok (textBytes (ThinLibrary.render catalog.sensors
      (inputs.map (·.sensorIndex.toNat)) ctx settings.sensorThinLibrary)) ∧
    after.read (directory.join ⟨settings.applicationThinLibrary⟩) = .ok (textBytes (ThinLibrary.render
      catalog.applications (inputs.map (·.applicationIndex.toNat)) ctx settings.applicationThinLibrary)) := by
  unfold writeThinLibraries at h
  obtain ⟨sensorPath, middle, sensors, h⟩ := exists_of_bind h fun _ => ⟨_, rfl⟩
  obtain ⟨applicationPath, last, applications, h⟩ := exists_of_bind h fun _ => ⟨_, rfl⟩
  cases h
  have changes := writesOnly_writeThinLibrary.changesOnly applications
  refine ⟨changes.read ?_ (read_of_writeThinLibrary sensors), read_of_writeThinLibrary applications⟩
  simpa using apart

theorem writeThinLibraries_eq_ok {settings : GeneratorSettings} {directory : Path} {catalog : Catalog}
    {inputs : List InputAssignment} {ctx : GenerationContext} {middle : FileTree}
    (sensors : (writeArtifact (directory.join ⟨settings.sensorThinLibrary⟩) (ThinLibrary.render catalog.sensors
      (inputs.map (·.sensorIndex.toNat)) ctx settings.sensorThinLibrary) : TreeM _) tree = (.ok (), middle))
    (applications : (writeArtifact (directory.join ⟨settings.applicationThinLibrary⟩) (ThinLibrary.render
      catalog.applications (inputs.map (·.applicationIndex.toNat)) ctx settings.applicationThinLibrary) : TreeM _)
      middle = (.ok (), after)) :
    ∃ paths, (writeThinLibraries settings directory catalog inputs ctx : TreeM _) tree = (.ok paths, after) := by
  have first := writeThinLibrary_eq_ok sensors
  have second := writeThinLibrary_eq_ok applications
  refine ⟨[directory.join ⟨settings.sensorThinLibrary⟩,
    directory.join ⟨settings.applicationThinLibrary⟩], ?_⟩
  unfold writeThinLibraries
  simp only [bind_apply, first, second]
  rfl

end FirmwareCatalog
