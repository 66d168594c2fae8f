import FirmwareCatalog.CommandLine.Session
import FirmwareCatalog.Proofs.Artifacts
import FirmwareCatalog.Proofs.Files.Writing

/-!
# Refused generations

A generation is refused when the catalog or the document cannot be loaded, when
one of them has a fault, or when the generator finds a calibration or a config
header that it cannot use. Up to there the session only prints and reads.
-/

namespace FirmwareCatalog.CommandLine

open TreeM

section

variable {α β ε : Type} {session : Session TreeM α} {next : α → Session TreeM β} {tree : FileTree}

/-- Whatever was printed before, the session comes to this answer and leaves the tree as it is. -/
def Session.Answers (session : Session TreeM α) (tree : FileTree) (answer : Except Failure α) : Prop :=
  ∀ printed, ∃ output, session.run.run printed tree = ((answer, output), tree)

theorem Session.run_bind (session : Session TreeM α) (next : α → Session TreeM β) (printed : String)
    (tree : FileTree) :
    (session >>= next).run.run printed tree =
      match session.run.run printed tree with
      | ((.ok a, output), tree) => (next a).run.run output tree
      | ((.error failure, output), tree) => ((.error failure, output), tree) := by
  rw [ExceptT.run_bind, StateT.run_bind, TreeM.bind_apply]
  rcases session.run.run printed tree with ⟨⟨failure | a, output⟩, after⟩ <;> rfl

theorem Session.Answers.bind {a : α} {answer : Except Failure β} (first : Session.Answers session tree (.ok a))
    (rest : Session.Answers (next a) tree answer) : Session.Answers (session >>= next) tree answer := by
  intro printed
  obtain ⟨middle, hm⟩ := first printed
  obtain ⟨output, ho⟩ := rest middle
  refine ⟨output, ?_⟩
  rw [Session.run_bind, hm]
  exact ho

theorem Session.Answers.bind_error {failure : Failure} (first : Session.Answers session tree (.error failure)) :
    Session.Answers (session >>= next) tree (.error failure) := by
  intro printed
  obtain ⟨output, ho⟩ := first printed
  refine ⟨output, ?_⟩
  rw [Session.run_bind, ho]

theorem answers_pure (a : α) : Session.Answers (pure a) tree (.ok a) := fun printed => ⟨printed, rfl⟩

theorem answers_throw (failure : Failure) : Session.Answers (α := α) (throw failure) tree (.error failure) :=
  fun printed => ⟨printed, rfl⟩

theorem answers_say (line : String) : Session.Answers (say line) tree (.ok ()) :=
  fun printed => ⟨printed ++ line ++ "\n", rfl⟩

theorem answers_lift {program : TreeM α} (h : (program tree).2 = tree) :
    Session.Answers (program : Session TreeM α) tree (.ok (program tree).1) := by
  intro printed
  exact ⟨printed, Prod.ext rfl h⟩

theorem answers_sayEach {ι : Type} (line : ι → String) (items : List ι) :
    Session.Answers (forIn items PUnit.unit fun item _ => do
      say (line item)
      return .yield PUnit.unit) tree (.ok ()) := by
  induction items with
  | nil => exact answers_pure _
  | cons item items ih =>
    simp only [List.forIn_cons, bind_assoc, pure_bind]
    exact (answers_say _).bind ih

theorem answers_sayReport (report : Report) : Session.Answers (sayReport report) tree (.ok ()) :=
  (answers_sayEach _ _).bind <| (answers_say _).bind <| answers_say _

theorem Session.Answers.outcome {session : Session TreeM Bool} {failure : Failure}
    (h : Session.Answers session tree (.error failure)) :
    ∃ output, session.outcome tree = ({ output, failure := some failure, exitCode := 1 }, tree) := by
  obtain ⟨output, ended⟩ := h ""
  refine ⟨output, ?_⟩
  unfold Session.outcome
  rw [TreeM.bind_apply, ended]
  rfl

/-! ## Loading -/

theorem answers_announced {E : Type} {load : TreeM (Except CompileError (Registry E))} (h : ReadsOnly load)
    (header entries failure : String) (tree : FileTree) :
    Session.Answers (announced header entries failure load) tree
      ((load tree).1.mapError fun e => ⟨failure, [e.message]⟩) := by
  refine (answers_say _).bind <| (answers_lift (h tree)).bind ?_
  cases (load tree).1 with
  | error e => exact (answers_throw _).bind_error
  | ok registry => exact (answers_pure registry).bind <| (answers_say _).bind <| answers_pure registry

end

theorem answers_loadCatalog (settings : RegistrySettings) (project : Path) (tree : FileTree) :
    ∃ message, Session.Answers (loadCatalog settings project) tree
      (((Catalog.load settings project : TreeM _) tree).1.mapError fun e => ⟨message, [e.message]⟩) := by
  have enumerated := readsOnly_loadEnumConstants settings project
  unfold Catalog.load loadCatalog
  rw [enumerated.bind_apply]
  generalize he : ((loadEnumConstants settings project : TreeM _) tree).1 = enums
  have sensors := readsOnly_loadSensors settings project enums
  have applications := readsOnly_loadApplications settings project enums
  have units := readsOnly_loadUnits settings project enums
  -- loading reads only, so every part is answered from the first tree
  have readEnums := he ▸ answers_lift (enumerated tree)
  have readSensors := answers_announced sensors settings.sensorHeader "sensors"
    "Could not compile the sensor registry" tree
  have readApplications := answers_announced applications settings.applicationHeader "applications"
    "Could not compile the application registry" tree
  have readUnits := answers_announced units settings.unitHeader "units"
    "Could not compile the unit registry" tree
  rw [sensors.bind_apply]
  cases hs : ((loadSensors settings project enums : TreeM _) tree).1 with
  | error e => exact ⟨_, readEnums.bind (hs ▸ readSensors).bind_error⟩
  | ok sensors =>
    rw [hs] at readSensors
    simp only
    rw [applications.bind_apply]
    cases ha : ((loadApplications settings project enums : TreeM _) tree).1 with
    | error e => exact ⟨_, readEnums.bind <| readSensors.bind (ha ▸ readApplications).bind_error⟩
    | ok applications =>
      rw [ha] at readApplications
      simp only
      rw [units.bind_apply]
      cases hu : ((loadUnits settings project enums : TreeM _) tree).1 with
      | error e =>
        exact ⟨_, readEnums.bind <| readSensors.bind <| readApplications.bind (hu ▸ readUnits).bind_error⟩
      | ok units =>
        rw [hu] at readUnits
        exact ⟨"", readEnums.bind <| readSensors.bind <| readApplications.bind <| readUnits.bind <|
          answers_pure _⟩

section

variable {settings : Settings} {path project : Path} {catalog : Catalog} {document : ConfigDocument}
  {tree : FileTree}

theorem answers_checkedDocument_unread {e : DocumentError}
    (h : ((ConfigDocument.load path : TreeM _) tree).1 = .error e) :
    ∃ message, Session.Answers (checkedDocument catalog path) tree (.error ⟨message, [e.message]⟩) := by
  have read := h ▸ answers_lift (ConfigDocument.readsOnly_load path tree)
  exact ⟨_, read.bind (answers_throw _).bind_error⟩

theorem answers_checkedDocument_faulty (h : ((ConfigDocument.load path : TreeM _) tree).1 = .ok document)
    (faulty : (catalog.validate ++ catalog.validateInputs document.inputs).isValid = false) :
    ∃ message, Session.Answers (checkedDocument catalog path) tree (.error ⟨message, []⟩) := by
  have read := h ▸ answers_lift (ConfigDocument.readsOnly_load path tree)
  let faults := (catalog.validate ++ catalog.validateInputs document.inputs).faults
  refine ⟨"Validation failed with " ++ Numeral.decimalText faults.length ++ " errors; nothing was generated",
    read.bind <| (answers_pure document).bind <| (answers_say _).bind <| (answers_sayReport _).bind ?_⟩
  rw [faulty]
  exact (answers_throw _).bind_error

theorem answers_checkedDocument (h : ((ConfigDocument.load path : TreeM _) tree).1 = .ok document)
    (valid : (catalog.validate ++ catalog.validateInputs document.inputs).isValid = true) :
    Session.Answers (checkedDocument catalog path) tree (.ok document) := by
  have read := h ▸ answers_lift (ConfigDocument.readsOnly_load path tree)
  refine read.bind <| (answers_pure document).bind <| (answers_say _).bind <| (answers_sayReport _).bind ?_
  rw [valid]
  exact answers_pure document

end

/-! ## Generations -/

/-- The checks that refuse a generation, each with the causes that the failure names. -/
inductive Refused (settings : Settings) (path project : Path) (context : ConfigDocument → GenerationContext)
    (thin : Bool) (tree : FileTree) : (causes : List String) → Prop
  | catalog {e : CompileError}
      (catalog : ((Catalog.load settings.registry project : TreeM _) tree).1 = .error e) :
      Refused settings path project context thin tree [e.message]
  | document {catalog : Catalog} {e : DocumentError}
      (loaded : ((Catalog.load settings.registry project : TreeM _) tree).1 = .ok catalog)
      (document : ((ConfigDocument.load path : TreeM _) tree).1 = .error e) :
      Refused settings path project context thin tree [e.message]
  | faults {catalog : Catalog} {document : ConfigDocument}
      (loaded : ((Catalog.load settings.registry project : TreeM _) tree).1 = .ok catalog)
      (read : ((ConfigDocument.load path : TreeM _) tree).1 = .ok document)
      (faulty : (catalog.validate ++ catalog.validateInputs document.inputs).isValid = false) :
      Refused settings path project context thin tree []
  | generator {catalog : Catalog} {document : ConfigDocument} {e : GenerateError}
      (loaded : ((Catalog.load settings.registry project : TreeM _) tree).1 = .ok catalog)
      (read : ((ConfigDocument.load path : TreeM _) tree).1 = .ok document)
      (valid : (catalog.validate ++ catalog.validateInputs document.inputs).isValid = true)
      (failed : ((generate settings.generator project catalog document.inputs (context document) thin : TreeM _)
        tree).1 = .error e)
      (refusal : e.IsRefusal) :
      Refused settings path project context thin tree [e.message]

structure Admitted (settings : Settings) (path project : Path) (context : ConfigDocument → GenerationContext)
    (thin : Bool) (tree : FileTree) (catalog : Catalog) (document : ConfigDocument) : Prop where
  loaded : ((Catalog.load settings.registry project : TreeM _) tree).1 = .ok catalog
  read : ((ConfigDocument.load path : TreeM _) tree).1 = .ok document
  valid : (catalog.validate ++ catalog.validateInputs document.inputs).isValid = true
  generates : ∀ e, ((generate settings.generator project catalog document.inputs (context document) thin : TreeM _)
    tree).1 = .error e → ¬ e.IsRefusal

theorem refused_or_admitted (settings : Settings) (path project : Path)
    (context : ConfigDocument → GenerationContext) (thin : Bool) (tree : FileTree) :
    (∃ causes, Refused settings path project context thin tree causes) ∨
      ∃ catalog document, Admitted settings path project context thin tree catalog document := by
  cases loaded : ((Catalog.load settings.registry project : TreeM _) tree).1 with
  | error e => exact .inl ⟨_, .catalog loaded⟩
  | ok catalog =>
    cases read : ((ConfigDocument.load path : TreeM _) tree).1 with
    | error e => exact .inl ⟨_, .document loaded read⟩
    | ok document =>
      cases valid : (catalog.validate ++ catalog.validateInputs document.inputs).isValid with
      | false => exact .inl ⟨_, .faults loaded read valid⟩
      | true =>
        cases failed : ((generate settings.generator project catalog document.inputs (context document) thin :
            TreeM _) tree).1 with
        | ok generated =>
          refine .inr ⟨catalog, document, loaded, read, valid, fun e he => ?_⟩
          rw [failed] at he
          cases he
        | error e =>
          by_cases refusal : e.IsRefusal
          · exact .inl ⟨_, .generator loaded read valid failed refusal⟩
          · refine .inr ⟨catalog, document, loaded, read, valid, fun e he => ?_⟩
            rw [failed] at he
            cases he
            exact refusal

section

variable (toolVersion : String) (now : Timestamp) (settings : Settings) (path project : Path)
  (platform : Option String) (thin : Bool) (save : Option Path)

def contextOf (document : ConfigDocument) : GenerationContext :=
  { toolVersion, platform := platformOf platform document settings.generator, timestamp := now }

theorem answers_runGenerate {tree : FileTree} {causes : List String}
    (h : Refused settings path project (contextOf toolVersion now settings platform) thin tree causes) :
    ∃ message, Session.Answers (runGenerate toolVersion now settings path project platform thin save) tree
      (.error ⟨message, causes⟩) := by
  obtain ⟨failed, loading⟩ := answers_loadCatalog settings.registry project tree
  cases h with
  | catalog catalog =>
    rw [catalog] at loading
    exact ⟨failed, (answers_say _).bind loading.bind_error⟩
  | document loaded document =>
    rw [loaded] at loading
    obtain ⟨message, checking⟩ := answers_checkedDocument_unread document
    exact ⟨message, (answers_say _).bind <| loading.bind checking.bind_error⟩
  | faults loaded read faulty =>
    rw [loaded] at loading
    obtain ⟨message, checking⟩ := answers_checkedDocument_faulty read faulty
    exact ⟨message, (answers_say _).bind <| loading.bind checking.bind_error⟩
  | @generator catalog document e loaded read valid failed refusal =>
    rw [loaded] at loading
    have checking := answers_checkedDocument read valid
    have generating := failed ▸ answers_lift (refusesUntouched_generate _ _ _ _ _ _ tree e failed refusal)
    exact ⟨_, (answers_say _).bind <| loading.bind <| checking.bind <| generating.bind <|
      (answers_throw _).bind_error⟩

/-- A refused generation fails, names what refused it and leaves every file and directory as it was; a generation
that changes the tree has passed all checks. -/
theorem refused_generation_keeps_tree (tree : FileTree) :
    let context := contextOf toolVersion now settings platform
    let session : Session TreeM Bool := runGenerate toolVersion now settings path project platform thin save
    let ending := session.outcome tree
    (∀ causes, Refused settings path project context thin tree causes →
      ending.1.exitCode = 1 ∧ (∃ message, ending.1.failure = some ⟨message, causes⟩) ∧ ending.2 = tree) ∧
    (ending.2 ≠ tree →
      ∃ catalog document, Admitted settings path project context thin tree catalog document) := by
  intro context session ending
  have kept : ∀ causes, Refused settings path project context thin tree causes →
      ending.1.exitCode = 1 ∧ (∃ message, ending.1.failure = some ⟨message, causes⟩) ∧ ending.2 = tree := by
    intro causes refused
    obtain ⟨message, answers⟩ :=
      answers_runGenerate toolVersion now settings path project platform thin save refused
    obtain ⟨output, ended⟩ := answers.outcome
    rw [show ending = _ from ended]
    exact ⟨rfl, ⟨message, rfl⟩, rfl⟩
  refine ⟨kept, fun changed => ?_⟩
  obtain ⟨causes, refused⟩ | admitted := refused_or_admitted settings path project context thin tree
  · exact absurd (kept causes refused).2.2 changed
  · exact admitted

end

/-! ## A run that is refused -/

theorem exists_compileRegistry {E : Type} [CatalogEntry E] {layout : RegistryLayout} {text : String}
    (h : layout.blocks? text.toList = some []) (enums : Table Int) (origin : Path) :
    ∃ registry, compileRegistry E layout enums origin text = .ok registry ∧ registry.entries = [] := by
  unfold compileRegistry RegistryLayout.registry?
  simp only [h, Option.map_some]
  exact ⟨_, rfl, rfl⟩

theorem exists_load (settings : RegistrySettings) (project : Path) {tree : FileTree} {e : FileError}
    {s a u : String} (constants : tree.read (settings.enumPath project) = .error e)
    (sensors : tree.read (settings.sensorPath project) = .ok (textBytes s))
    (applications : tree.read (settings.applicationPath project) = .ok (textBytes a))
    (units : tree.read (settings.unitPath project) = .ok (textBytes u))
    (alone : includeLocations (settings.sensorPath project) settings.includeSubdir s.toList = [])
    (bare : RegistryLayout.sensors.blocks? s.toList = some [] ∧
      RegistryLayout.applications.blocks? a.toList = some [] ∧ RegistryLayout.units.blocks? u.toList = some []) :
    ∃ catalog, (Catalog.load settings project : TreeM _) tree = (.ok catalog, tree) ∧
      catalog.sensors.entries = [] ∧ catalog.applications.entries = [] ∧ catalog.units.entries = [] := by
  obtain ⟨bareSensors, bareApplications, bareUnits⟩ := bare
  obtain ⟨_, compiled, noSensors⟩ :=
    exists_compileRegistry (E := Sensor) bareSensors .empty (settings.sensorPath project)
  obtain ⟨_, compiled', noApplications⟩ :=
    exists_compileRegistry (E := Application) bareApplications .empty (settings.applicationPath project)
  obtain ⟨_, compiled'', noUnits⟩ :=
    exists_compileRegistry (E := DisplayUnit) bareUnits .empty (settings.unitPath project)
  refine ⟨_, Catalog.load_of_loaded (loadEnumConstants_of_error constants) ?_ ?_ ?_, noSensors, noApplications,
    noUnits⟩
  · rw [loadSensors_of_read sensors alone, compiled]
  · rw [loadApplications, loadRegistry_of_read applications, compiled']
  · rw [loadUnits, loadRegistry_of_read units, compiled'']

theorem validate_of_noEntries {catalog : Catalog} (sensors : catalog.sensors.entries = [])
    (applications : catalog.applications.entries = []) (units : catalog.units.entries = []) :
    (catalog.validate ++ catalog.validateInputs []).isValid = true := by
  obtain ⟨⟨_, _, _, _⟩, ⟨_, _, _, _⟩, ⟨_, _, _, _⟩⟩ := catalog
  subst sensors applications units
  rfl

theorem refused_generation_keeps_tree_unterminated :
    let settings : Settings :=
      { registry := ⟨⟨""⟩, "s", "a", "u", "", "e"⟩
        generator := ⟨⟨"c"⟩, ⟨""⟩, "[", "]", "~", "k", "t", "v", ""⟩
        logging := ⟨""⟩ }
    let tree : FileTree := Table.ofList
      [("a", .file (textBytes "static const A APPLICATION_PRESETS[]=\x7b\x7d")), ("c", .file (textBytes "[\n")),
        ("d", .file (textBytes "\x7b\"schemaVersion\":1,\"mode\":\"static\",\"metadata\":[\"\",\"\",0]\x7d")),
        ("s", .file (textBytes "static const S SENSOR_LIBRARY[]=\x7b\x7d")),
        ("u", .file (textBytes "static const U UNITS_REGISTRY[]=\x7b\x7d"))]
    ∃ ending, Session.outcome (m := TreeM)
      (runGenerate "" ⟨0⟩ settings ⟨"d"⟩ ⟨""⟩ none true (some ⟨"b"⟩)) tree =
      ending ∧ ending.1.exitCode = 1 ∧ ending.2 = tree := by
  intro settings tree
  have find (place : String) : tree.find? place = _ := Table.find?_ofList _ _
  have file {place : String} {content : Bytes} (h : tree.find? place = some (.file content)) :
      tree.file? place = some content := FileTree.file?_eq_some_iff.mpr h
  have placed : settings.registry.enumPath ⟨""⟩ = ⟨"e"⟩ ∧
      settings.registry.sensorPath ⟨""⟩ = ⟨"s"⟩ ∧ settings.registry.applicationPath ⟨""⟩ = ⟨"a"⟩ ∧
      settings.registry.unitPath ⟨""⟩ = ⟨"u"⟩ := by decide
  obtain ⟨enumPath, sensorPath, applicationPath, unitPath⟩ := placed
  have leads {place : String} (h : place ∈ ["a", "c", "d", "s", "u"]) :
      FileTree.LeadsTo tree ⟨place⟩ place false := by
    simp only [List.mem_cons, List.not_mem_nil, or_false] at h
    obtain rfl | rfl | rfl | rfl | rfl := h
    all_goals exact ⟨by decide, .last (by decide) (by decide) rfl⟩
  have noFile : tree.file? "e" = none := by rw [FileTree.file?, find]; rfl
  obtain ⟨e, constants⟩ := FileTree.exists_read_eq_error (show Path.place? ⟨"e"⟩ = some "e" by decide) noFile
  obtain ⟨catalog, loaded, noSensors, noApplications, noUnits⟩ :=
    exists_load settings.registry ⟨""⟩ (by rw [enumPath]; exact constants)
      (by rw [sensorPath]; exact (leads (by simp)).read (file (find "s")))
      (by rw [applicationPath]; exact (leads (by simp)).read (file (find "a")))
      (by rw [unitPath]; exact (leads (by simp)).read (file (find "u"))) (by decide +kernel) (by decide +kernel)
  have read : ((ConfigDocument.load ⟨"d"⟩ : TreeM _) tree).1 = .ok ⟨⟨"", "", Int64.ofInt 0⟩, []⟩ := by
    rw [ConfigDocument.load_of_read ((leads (by simp)).read (file (find "d")))]
    unfold ConfigDocument.parse Json.parse?
    simp only [String.reduceToList]
    rfl
  have header : FileTree.LeadsTo tree ⟨"c"⟩ "c" false := leads (by simp)
  have joined : (⟨""⟩ : Path).join ⟨"c"⟩ = ⟨"c"⟩ := by decide
  have located : MarkedBlock.locate ⟨"[", "]"⟩ (textBytes "[\n") = .unterminated [] := rfl
  have failed (ctx : GenerationContext) := generate_of_unterminated settings.generator ⟨""⟩ catalog [] ctx true rfl
    joined (header.isFile (file (find "c"))) (header.read (file (find "c"))) located
  have refused := Refused.generator (congrArg Prod.fst loaded) read
    (validate_of_noEntries noSensors noApplications noUnits) (failed (contextOf "" ⟨0⟩ settings none _)) trivial
  have kept :=
    (refused_generation_keeps_tree "" ⟨0⟩ settings ⟨"d"⟩ ⟨""⟩ none true (some ⟨"b"⟩) tree).1 _ refused
  exact ⟨_, rfl, kept.1, kept.2.2⟩

end FirmwareCatalog.CommandLine
