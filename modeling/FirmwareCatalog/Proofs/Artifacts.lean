import FirmwareCatalog.Artifacts
import FirmwareCatalog.Proofs.Files.ReadOnly

/-!
# Runs of the generator

A calibration or a config header that cannot be used is found before the first
write. What can fail from then on is a write.
-/

namespace FirmwareCatalog

open TreeM

/-- Errors that are found before anything is written; the others report a write that failed. -/
def GenerateError.IsRefusal : GenerateError → Prop
  | .targetMissing .. | .unterminatedBlock .. | .unknownCalibrationType .. | .missingCalibrationParam .. => True
  | .io .. | .persist .. => False

section

variable {α β : Type} {program : TreeM (Except GenerateError α)}
  {next : Except GenerateError α → TreeM (Except GenerateError β)}

def NeverRefuses (program : TreeM (Except GenerateError α)) : Prop :=
  ∀ tree e, (program tree).1 = .error e → ¬ e.IsRefusal

def RefusesUntouched (program : TreeM (Except GenerateError α)) : Prop :=
  ∀ tree e, (program tree).1 = .error e → e.IsRefusal → (program tree).2 = tree

theorem neverRefuses_ok (a : α) : NeverRefuses (pure (.ok a)) := by
  rintro tree e ⟨⟩

theorem neverRefuses_io (path : Path) (e : FileError) :
    NeverRefuses (α := α) (pure (.error (.io path e))) := by
  rintro tree _ ⟨⟩
  exact id

theorem neverRefuses_bind {program : TreeM α} {next : α → TreeM (Except GenerateError β)}
    (rest : ∀ a, NeverRefuses (next a)) : NeverRefuses (program >>= next) :=
  fun _ => rest _ _

theorem neverRefuses_orIo {program : TreeM (Except FileError Unit)}
    {next : Except FileError Unit → TreeM (Except GenerateError α)} (path : Path)
    (stop : ∀ e, next (.error e) = pure (.error (.io path e))) (rest : NeverRefuses (next (.ok ()))) :
    NeverRefuses (program >>= next) := by
  apply neverRefuses_bind
  rintro (e | _)
  · rw [stop]
    exact neverRefuses_io path e
  · exact rest

theorem NeverRefuses.andThen (first : NeverRefuses program) (rest : ∀ a, NeverRefuses (next (.ok a)))
    (stop : ∀ e, next (.error e) = pure (.error e)) : NeverRefuses (program >>= next) := by
  intro tree e he
  rw [TreeM.bind_apply] at he
  cases answer : (program tree).1 with
  | error cause =>
    rw [answer, stop] at he
    cases he
    exact first tree e answer
  | ok a =>
    rw [answer] at he
    exact rest a _ e he

theorem RefusesUntouched.andThen (first : RefusesUntouched program) (rest : ∀ a, NeverRefuses (next (.ok a)))
    (stop : ∀ e, next (.error e) = pure (.error e)) : RefusesUntouched (program >>= next) := by
  intro tree e he refusal
  cases answer : (program tree).1 with
  | error cause =>
    rw [TreeM.bind_apply, answer, stop] at he ⊢
    cases he
    exact first tree e answer refusal
  | ok a =>
    rw [TreeM.bind_apply, answer] at he
    exact absurd refusal (rest a _ e he)

end

theorem neverRefuses_writeArtifact (path : Path) (content : String) :
    NeverRefuses (writeArtifact path content) := by
  unfold writeArtifact
  cases path.parent? with
  | none =>
    refine (neverRefuses_ok ()).andThen (fun _ => ?_) fun _ => rfl
    refine neverRefuses_orIo path (fun _ => rfl) ?_
    exact neverRefuses_ok ()
  | some directory =>
    refine neverRefuses_orIo directory (fun _ => rfl) ?_
    refine (neverRefuses_ok ()).andThen (fun _ => ?_) fun _ => rfl
    refine neverRefuses_orIo path (fun _ => rfl) ?_
    exact neverRefuses_ok ()

theorem neverRefuses_writeCalibrationTable (path : Path) (content : Option String) :
    NeverRefuses (writeCalibrationTable path content) := by
  cases content with
  | some text =>
    refine (neverRefuses_writeArtifact path text).andThen (fun _ => ?_) fun _ => rfl
    exact neverRefuses_ok _
  | none =>
    apply neverRefuses_bind
    rintro (_ | _)
    · exact neverRefuses_ok _
    · exact neverRefuses_orIo path (fun _ => rfl) (neverRefuses_ok _)

theorem neverRefuses_writeThinLibrary {E : Type} [CatalogEntry E] (registry : Registry E)
    (referenced : List Nat) (ctx : GenerationContext) (directory : Path) (fileName : String) :
    NeverRefuses (writeThinLibrary registry referenced ctx directory fileName) := by
  refine (neverRefuses_writeArtifact _ _).andThen (fun _ => ?_) fun _ => rfl
  exact neverRefuses_ok _

theorem neverRefuses_writeThinLibraries (settings : GeneratorSettings) (directory : Path) (catalog : Catalog)
    (inputs : List InputAssignment) (ctx : GenerationContext) :
    NeverRefuses (writeThinLibraries settings directory catalog inputs ctx) := by
  refine (neverRefuses_writeThinLibrary _ _ _ _ _).andThen (fun sensorPath => ?_) fun _ => rfl
  refine (neverRefuses_writeThinLibrary _ _ _ _ _).andThen (fun applicationPath => ?_) fun _ => rfl
  exact neverRefuses_ok _

theorem ConfigHeader.neverRefuses_store (target backup : Path) (content : Bytes)
    (spliced : MarkedBlock.Spliced) :
    NeverRefuses (ConfigHeader.store target backup content spliced) := by
  refine neverRefuses_orIo backup (fun _ => rfl) ?_
  apply neverRefuses_bind
  rintro (e | _)
  · rintro tree _ ⟨⟩
    exact id
  · exact neverRefuses_ok _

theorem ConfigHeader.patch_apply (target : Path) (block : String) (markers : BlockMarkers) (suffix : String)
    (tree : FileTree) :
    (ConfigHeader.patch target block markers suffix : TreeM _) tree =
      if tree.isFile target then
        match tree.read target with
        | .error e => (.error (.io target e), tree)
        | .ok content =>
          match MarkedBlock.splice markers (textBytes block) content with
          | .error line => (.error (.unterminatedBlock target markers.start markers.stop line), tree)
          | .ok spliced =>
            (ConfigHeader.store target (ConfigHeader.backupPath target suffix) content spliced : TreeM _) tree
      else (.error (.targetMissing target), tree) := by
  unfold ConfigHeader.patch
  rw [(readsOnly_isFile target).bind_apply]
  change (if !tree.isFile target then _ else _ : TreeM _) tree = _
  cases tree.isFile target with
  | false => rfl
  | true =>
    simp only [Bool.not_true, Bool.false_eq_true, ↓reduceIte]
    rw [(readsOnly_read target).bind_apply]
    change (match tree.read target with | .error e => _ | .ok content => _ : TreeM _) tree = _
    cases tree.read target with
    | error e => rfl
    | ok content =>
      cases located : MarkedBlock.splice markers (textBytes block) content with
      | error line => simp only [located]; rfl
      | ok spliced => simp only [located]

theorem ConfigHeader.refusesUntouched_patch (target : Path) (block : String) (markers : BlockMarkers)
    (suffix : String) : RefusesUntouched (ConfigHeader.patch target block markers suffix) := by
  intro tree e he refusal
  rw [ConfigHeader.patch_apply] at he ⊢
  split at he
  case isFalse missing => rw [if_neg missing]
  case isTrue present =>
    rw [if_pos present]
    cases answer : tree.read target with
    | error cause => rfl
    | ok content =>
      rw [answer] at he
      cases located : MarkedBlock.splice markers (textBytes block) content with
      | error line => simp only [located]
      | ok spliced =>
        simp only [located] at he
        exact absurd refusal (ConfigHeader.neverRefuses_store _ _ _ _ tree e he)

theorem refusesUntouched_writeArtifacts (settings : GeneratorSettings) (project : Path) (catalog : Catalog)
    (inputs : List InputAssignment) (ctx : GenerationContext) (thin : Bool) (table : Option String) :
    RefusesUntouched (writeArtifacts settings project catalog inputs ctx thin table) := by
  refine (ConfigHeader.refusesUntouched_patch _ _ _ _).andThen (fun patch => ?_) fun _ => rfl
  refine (neverRefuses_writeCalibrationTable _ _).andThen (fun calibration => ?_) fun _ => rfl
  cases thin with
  | false => exact neverRefuses_ok _
  | true =>
    refine (neverRefuses_writeThinLibraries _ _ _ _ _).andThen (fun thinLibraries => ?_) fun _ => rfl
    exact neverRefuses_ok _

theorem refusesUntouched_generate (settings : GeneratorSettings) (project : Path) (catalog : Catalog)
    (inputs : List InputAssignment) (ctx : GenerationContext) (thin : Bool) :
    RefusesUntouched (generate settings project catalog inputs ctx thin) := by
  unfold generate
  cases CalibrationTable.render? inputs ctx with
  | error e =>
    intro tree _ _ _
    rfl
  | ok table => exact refusesUntouched_writeArtifacts _ _ _ _ _ _ _

theorem generate_of_unterminated (settings : GeneratorSettings) (project : Path) (catalog : Catalog)
    (inputs : List InputAssignment) (ctx : GenerationContext) (thin : Bool) {table : Option String}
    (rendered : CalibrationTable.render? inputs ctx = .ok table) {target : Path}
    (placed : project.join settings.configHeader = target) {tree : FileTree} (present : tree.isFile target = true)
    {content before : Bytes} (header : tree.read target = .ok content)
    (located : MarkedBlock.locate settings.markers content = .unterminated before) :
    ((generate settings project catalog inputs ctx thin : TreeM _) tree).1 =
      .error (.unterminatedBlock target settings.markers.start settings.markers.stop
        (MarkedBlock.lineBehind before)) := by
  unfold generate writeArtifacts
  rw [rendered]
  simp only [TreeM.bind_apply, ConfigHeader.patch_apply, placed, if_pos present, header, MarkedBlock.splice, located]
  rfl

end FirmwareCatalog
