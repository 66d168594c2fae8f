import FirmwareCatalog.Document
import FirmwareCatalog.FileTree
import FirmwareCatalog.Proofs.Text.Utf8
import FirmwareCatalog.Registry.Loading

/-!
# Programs that only read

Nothing that is loaded from a project changes its tree: reading a file leaves
the tree alone, and so does every program that is put together from reads.
-/

namespace FirmwareCatalog

namespace TreeM

variable {α β : Type}

def ReadsOnly (program : TreeM α) : Prop := ∀ tree, (program tree).2 = tree

theorem bind_apply (program : TreeM α) (next : α → TreeM β) (tree : FileTree) :
    (program >>= next) tree = next (program tree).1 (program tree).2 := rfl

theorem pure_apply (a : α) (tree : FileTree) : (pure a : TreeM α) tree = (a, tree) := rfl

theorem readsOnly_pure (a : α) : ReadsOnly (pure a) := fun _ => rfl

theorem ReadsOnly.bind {program : TreeM α} {next : α → TreeM β} (first : ReadsOnly program)
    (rest : ∀ a, ReadsOnly (next a)) : ReadsOnly (program >>= next) := by
  intro tree
  rw [bind_apply, rest, first]

theorem ReadsOnly.bind_apply {program : TreeM α} (h : ReadsOnly program) (next : α → TreeM β)
    (tree : FileTree) :
    (program >>= next) tree = next (program tree).1 tree := by
  rw [TreeM.bind_apply, h]

theorem readsOnly_isFile (path : Path) : ReadsOnly (Files.isFile path) := fun _ => rfl

theorem readsOnly_read (path : Path) : ReadsOnly (Files.read path) := fun _ => rfl

end TreeM

open TreeM

theorem Files.isPresent_apply (tree : FileTree) (path : Path) :
    (Files.isPresent path : TreeM _) tree = (tree.isPresent path, tree) := rfl

theorem Files.readsOnly_readText (path : Path) : ReadsOnly (Files.readText path) := by
  unfold Files.readText
  apply (readsOnly_read path).bind
  rintro (e | bytes)
  · exact readsOnly_pure _
  · cases h : Utf8.decode? bytes <;> simpa [h] using readsOnly_pure _

theorem Files.readText_apply (tree : FileTree) (path : Path) : (Files.readText path : TreeM _) tree =
    (match tree.read path with
      | .error e => .error e
      | .ok bytes => match Utf8.decode? bytes with
        | none => .error .invalidData
        | some cs => .ok (String.ofList cs), tree) := by
  have read : ((Files.read path : TreeM _) tree).1 = tree.read path := rfl
  unfold Files.readText
  rw [(readsOnly_read path).bind_apply, read]
  cases tree.read path with
  | error e => rfl
  | ok bytes => cases h : Utf8.decode? bytes <;> simp only [h] <;> rfl

theorem Files.readText_of_read {tree : FileTree} {path : Path} {text : String}
    (h : tree.read path = .ok (textBytes text)) : (Files.readText path : TreeM _) tree = (.ok text, tree) := by
  have read : tree.read path = .ok (Utf8.encode text.toList) := h
  simp only [Files.readText_apply, read, Utf8.decode?_encode, String.ofList_toList]

/-! ## The catalog -/

theorem readsOnly_inlinedContents (locations : List (List Path.Part)) :
    ReadsOnly (inlinedContents locations) := by
  induction locations with
  | nil => exact readsOnly_pure _
  | cons location locations ih =>
    unfold inlinedContents
    apply (Files.readsOnly_readText _).bind
    rintro (e | content)
    · exact ih
    · exact ih.bind fun _ => readsOnly_pure _

theorem readsOnly_loadEnumConstants (settings : RegistrySettings) (project : Path) :
    ReadsOnly (loadEnumConstants settings project) := by
  apply (Files.readsOnly_readText _).bind
  rintro (e | text) <;> exact readsOnly_pure _

theorem readsOnly_loadRegistry (E : Type) [CatalogEntry E] (layout : RegistryLayout) (enums : Table Int)
    (path : Path) : ReadsOnly (loadRegistry E layout enums path) := by
  apply (Files.readsOnly_readText _).bind
  rintro (e | text) <;> exact readsOnly_pure _

theorem readsOnly_loadSensors (settings : RegistrySettings) (project : Path) (enums : Table Int) :
    ReadsOnly (loadSensors settings project enums) := by
  apply (Files.readsOnly_readText _).bind
  rintro (e | text)
  · exact readsOnly_pure _
  · have inlined : ReadsOnly (inlineIncludes (settings.sensorPath project) settings.includeSubdir text) :=
      (readsOnly_inlinedContents _).bind fun _ => readsOnly_pure _
    exact inlined.bind fun _ => readsOnly_pure _

theorem readsOnly_loadApplications (settings : RegistrySettings) (project : Path) (enums : Table Int) :
    ReadsOnly (loadApplications settings project enums) := readsOnly_loadRegistry _ _ _ _

theorem readsOnly_loadUnits (settings : RegistrySettings) (project : Path) (enums : Table Int) :
    ReadsOnly (loadUnits settings project enums) := readsOnly_loadRegistry _ _ _ _

section

variable {tree : FileTree} {settings : RegistrySettings} {project : Path}

theorem loadRegistry_of_read {E : Type} [CatalogEntry E] {layout : RegistryLayout} {path : Path} {text : String}
    (h : tree.read path = .ok (textBytes text)) (enums : Table Int) :
    (loadRegistry E layout enums path : TreeM _) tree = (compileRegistry E layout enums path text, tree) := by
  unfold loadRegistry
  rw [TreeM.bind_apply, Files.readText_of_read h]
  rfl

theorem loadSensors_of_read {text : String} (h : tree.read (settings.sensorPath project) = .ok (textBytes text))
    (alone : includeLocations (settings.sensorPath project) settings.includeSubdir text.toList = [])
    (enums : Table Int) : (loadSensors settings project enums : TreeM _) tree =
      (compileRegistry Sensor .sensors enums (settings.sensorPath project) text, tree) := by
  unfold loadSensors inlineIncludes
  simp only [TreeM.bind_apply, Files.readText_of_read h, alone, inlinedContents, TreeM.pure_apply,
    String.append_empty]

theorem loadEnumConstants_of_error {e : FileError} (h : tree.read (settings.enumPath project) = .error e) :
    (loadEnumConstants settings project : TreeM _) tree = (.empty, tree) := by
  unfold loadEnumConstants
  rw [TreeM.bind_apply, Files.readText_apply, h]
  rfl

theorem Catalog.load_of_loaded {enums : Table Int} {sensors : Registry Sensor}
    {applications : Registry Application} {units : Registry DisplayUnit}
    (hconstants : (loadEnumConstants settings project : TreeM _) tree = (enums, tree))
    (hsensors : (loadSensors settings project enums : TreeM _) tree = (.ok sensors, tree))
    (happlications : (loadApplications settings project enums : TreeM _) tree = (.ok applications, tree))
    (hunits : (loadUnits settings project enums : TreeM _) tree = (.ok units, tree)) :
    (Catalog.load settings project : TreeM _) tree = (.ok ⟨sensors, applications, units⟩, tree) := by
  unfold Catalog.load
  simp only [TreeM.bind_apply, hconstants, hsensors, happlications, hunits]
  rfl

end

/-! ## The document -/

theorem ConfigDocument.readsOnly_load (path : Path) : ReadsOnly (ConfigDocument.load path) := by
  apply (Files.readsOnly_readText path).bind
  rintro (e | text) <;> exact readsOnly_pure _

theorem ConfigDocument.load_of_read {tree : FileTree} {path : Path} {text : String}
    (h : tree.read path = .ok (textBytes text)) :
    (ConfigDocument.load path : TreeM _) tree = (ConfigDocument.parse text, tree) := by
  unfold ConfigDocument.load
  rw [TreeM.bind_apply, Files.readText_of_read h]
  rfl

end FirmwareCatalog
