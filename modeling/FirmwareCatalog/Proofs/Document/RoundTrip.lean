import FirmwareCatalog.Document
import FirmwareCatalog.Proofs.Json.RoundTrip
import FirmwareCatalog.Proofs.Table
import Mathlib.Data.List.Forall2

/-!
# Documents round trip

What is written for a document reads as the document. So the text that is written
for a document that was read is a normal form of the text it was read from.
-/

namespace FirmwareCatalog

open Json

/-! ## Numbers -/

/-- The numbers of a document that are not integers of its own: the parameters of its calibrations. -/
def ConfigDocument.numbers (document : ConfigDocument) : List JsonNumber :=
  document.inputs.flatMap fun input => input.calibration.toList.flatMap fun c => c.params.entries.map (·.2)

theorem natural?_natJson {bits n : Nat} (h : n < 2 ^ bits) : (natJson n).natural? bits = some n := by
  have fits : (0 : Int) ≤ n ∧ (n : Int) < Nat.pow 2 bits := ⟨Int.natCast_nonneg _, Int.ofNat_lt.mpr h⟩
  simp only [natural?, natJson, int?, Option.bind_some]
  rw [if_pos fits, Int.toNat_natCast]

theorem uint32?_natJson (x : UInt32) : uint32? (natJson x.toNat) = some x := by
  rw [uint32?, natural?_natJson x.toNat_lt, Option.map_some, UInt32.ofNat_toNat]

theorem int64?_number (x : Int64) : int64? (.number (.integer x.toInt)) = some x := by
  have low := x.le_toInt
  have high := x.toInt_lt
  simp only [int64?, int?, Option.bind_some]
  rw [if_pos ⟨by omega, by omega⟩, Int64.ofInt_toInt]

theorem readable_natJson {n depth : Nat} (h : n < 2 ^ 32) : Readable depth (natJson n) :=
  .number (JsonNumber.readsBack_integer (by omega) (by omega))

/-! ## Objects -/

theorem lookup_ofList (members : List (String × Json)) (name : String) :
    (Table.ofList members).entries.lookup name = members.reverse.lookup name :=
  Table.find?_ofList members name

def recordOf (members : List (String × Json)) : Json := .object (Table.ofList members).entries

theorem recordMembers?_recordOf (names : List String) (members : List (String × Json)) :
    recordMembers? names (recordOf members) = some (Table.ofList members).entries := rfl

theorem member?_recordOf (members : List (String × Json)) (name : String) :
    (recordOf members).member? name = members.reverse.lookup name := lookup_ofList members name

theorem sorted_object (members : List (String × Json)) :
    sorted (.object members) = recordOf (members.map fun m => (m.1, sorted m.2)) := by
  rw [sorted, sortedMembers_eq_map, recordOf]

theorem sorted_array (items : List Json) : sorted (.array items) = .array (items.map sorted) := by
  rw [sorted, sortedItems_eq_map]

theorem sorted_string (text : String) : sorted (.string text) = .string text := by rw [sorted]

theorem sorted_natJson (n : Nat) : sorted (natJson n) = natJson n := by rw [natJson, sorted]

/-! ## Writing and reading -/

theorem CalibrationSource.ofJson?_render (source : CalibrationSource) :
    CalibrationSource.ofJson? (.string source.render) = some source := by
  cases source <;> decide

theorem mapM_paramOfMember? (params : List (String × JsonNumber)) :
    (params.map fun p => (p.1, Json.number p.2)).mapM paramOfMember? = some params := by
  induction params with
  | nil => rfl
  | cons p params ih => simp [List.mapM_cons, paramOfMember?, ih]

theorem paramsOfJson?_sorted (params : Table JsonNumber) :
    paramsOfJson? (sorted (.object (params.entries.map fun p => (p.1, .number p.2)))) = some params := by
  have keys : SortedKeys (params.entries.map fun p => (p.1, Json.number p.2)) :=
    List.pairwise_map.mpr params.sorted
  have numbers : (params.entries.map fun p => (p.1, Json.number p.2)).map (fun m => (m.1, sorted m.2)) =
      params.entries.map fun p => (p.1, .number p.2) := by
    rw [List.map_map]
    exact List.map_congr_left fun p _ => by simp [sorted]
  rw [sorted_object, numbers, recordOf, Table.entries_ofList keys, paramsOfJson?, mapM_paramOfMember?,
    Option.map_some, Table.ofList_entries]

theorem Calibration.ofJson?_toJson (c : Calibration) : Calibration.ofJson? (sorted c.toJson) = some c := by
  rw [Calibration.toJson, sorted_object, Calibration.ofJson?, recordMembers?_recordOf]
  simp only [Option.bind_eq_bind, Option.bind_some, lookup_ofList]
  simp [lookup_cons_eq_ite, sorted_string, text?, CalibrationSource.ofJson?_render, paramsOfJson?_sorted]

theorem optionalCalibration?_toJson (c : Calibration) :
    optionalCalibration? (some (sorted c.toJson)) = some (some c) := by
  have back := Calibration.ofJson?_toJson c
  unfold optionalCalibration?
  split
  case h_1 none => cases none
  case h_2 null =>
    rw [Option.some.inj null] at back
    cases back
  case h_3 json same =>
    rw [← Option.some.inj same, back]
    rfl

theorem InputAssignment.ofJson?_toJson (input : InputAssignment) :
    InputAssignment.ofJson? (sorted input.toJson) = some input := by
  obtain ⟨idx, pin, application, applicationIndex, sensor, sensorIndex, calibration⟩ := input
  rw [InputAssignment.toJson, sorted_object]
  unfold InputAssignment.ofJson?
  simp only [Option.bind_eq_bind, Option.bind_eq_some_iff]
  refine ⟨_, recordMembers?_recordOf _ _, _, ?_, _, uint32?_natJson idx, .string pin, ?_, _, rfl,
    .string application, ?_, _, rfl, _, ?_, _, uint32?_natJson applicationIndex, .string sensor, ?_, _, rfl,
    _, ?_, _, uint32?_natJson sensorIndex, calibration, ?_, rfl⟩
  all_goals
    rw [lookup_ofList]
    cases calibration <;>
      simp [lookup_cons_eq_ite, sorted_string, sorted_natJson, optionalCalibration?_toJson]
  rfl

theorem Metadata.ofJson?_toJson (metadata : Metadata) :
    Metadata.ofJson? (sorted metadata.toJson) = some metadata := by
  rw [Metadata.toJson, sorted_object, Metadata.ofJson?, recordMembers?_recordOf]
  simp only [Option.bind_eq_bind, Option.bind_some, lookup_ofList]
  simp [lookup_cons_eq_ite, sorted, text?, int64?_number]

theorem mapM_ofJson? (inputs : List InputAssignment) :
    ((inputs.map InputAssignment.toJson).map sorted).mapM InputAssignment.ofJson? = some inputs := by
  induction inputs with
  | nil => rfl
  | cons input inputs ih => simp only [List.map_cons, List.mapM_cons, InputAssignment.ofJson?_toJson, ih]; rfl

theorem sorted_toJson (document : ConfigDocument) :
    sorted document.toJson = recordOf [("schemaVersion", natJson 1), ("mode", .string "static"),
      ("metadata", sorted document.metadata.toJson),
      ("inputs", .array ((document.inputs.map InputAssignment.toJson).map sorted))] := by
  rw [ConfigDocument.toJson, sorted_object]
  simp only [List.map_cons, List.map_nil, sorted_natJson, sorted_string, sorted_array]

theorem ConfigDocument.ofJson?_toJson (document : ConfigDocument) :
    ConfigDocument.ofJson? (sorted document.toJson) = some document := by
  have inputs : inputsOfJson? (.array ((document.inputs.map InputAssignment.toJson).map sorted)) =
      some document.inputs := mapM_ofJson? document.inputs
  rw [sorted_toJson, ConfigDocument.ofJson?]
  simp only [Option.bind_eq_bind, Option.bind_some, member?_recordOf]
  simp [lookup_cons_eq_ite, Metadata.ofJson?_toJson, -List.map_map, inputs]

/-! ## Documents -/

section

variable {depth : Nat}

theorem Calibration.readable_toJson {c : Calibration} (h : ∀ p ∈ c.params.entries, p.2.ReadsBack) :
    Readable (depth + 2) c.toJson := by
  apply Readable.object
  intro m hm
  simp only [List.mem_cons, List.not_mem_nil, or_false] at hm
  rcases hm with rfl | rfl | rfl
  · exact .string _
  · exact .string _
  · apply Readable.object
    intro m hm
    obtain ⟨p, hp, rfl⟩ := List.mem_map.mp hm
    exact .number (h p hp)

theorem InputAssignment.readable_toJson {input : InputAssignment}
    (h : ∀ c ∈ input.calibration, ∀ p ∈ c.params.entries, p.2.ReadsBack) :
    Readable (depth + 3) input.toJson := by
  apply Readable.object
  intro m hm
  rcases List.mem_append.mp hm with hm | hm
  · simp only [List.mem_cons, List.not_mem_nil, or_false] at hm
    rcases hm with rfl | rfl | rfl | rfl | rfl | rfl
    · exact readable_natJson input.idx.toNat_lt
    · exact .string _
    · exact .string _
    · exact readable_natJson input.applicationIndex.toNat_lt
    · exact .string _
    · exact readable_natJson input.sensorIndex.toNat_lt
  · cases hc : input.calibration with
    | none =>
      rw [hc] at hm
      cases hm
    | some c =>
      rw [hc] at hm
      cases List.mem_singleton.mp hm
      exact Calibration.readable_toJson (h c (by rw [hc]; rfl))

theorem Metadata.readable_toJson (metadata : Metadata) : Readable (depth + 1) metadata.toJson := by
  have low := metadata.timestamp.le_toInt
  have high := metadata.timestamp.toInt_lt
  apply Readable.object
  intro m hm
  simp only [List.mem_cons, List.not_mem_nil, or_false] at hm
  rcases hm with rfl | rfl | rfl
  · exact .string _
  · exact .string _
  · exact .number (JsonNumber.readsBack_integer (by omega) (by omega))

theorem ConfigDocument.readable_toJson {document : ConfigDocument} (h : ∀ n ∈ document.numbers, n.ReadsBack) :
    Readable (depth + 5) document.toJson := by
  apply Readable.object
  intro m hm
  simp only [List.mem_cons, List.not_mem_nil, or_false] at hm
  rcases hm with rfl | rfl | rfl | rfl
  · exact readable_natJson (by decide)
  · exact .string _
  · exact document.metadata.readable_toJson
  · apply Readable.array
    intro item hitem
    obtain ⟨input, hinput, rfl⟩ := List.mem_map.mp hitem
    apply InputAssignment.readable_toJson
    intro c hc p hp
    apply h
    refine List.mem_flatMap.mpr ⟨input, hinput, List.mem_flatMap.mpr ⟨c, Option.mem_toList.mpr hc, ?_⟩⟩
    exact List.mem_map_of_mem hp

end

namespace ConfigDocument

theorem parse?_render {document : ConfigDocument} (h : ∀ n ∈ document.numbers, n.ReadsBack) :
    Json.parse? document.render = some (sorted document.toJson) :=
  parse?_pretty (show Readable (122 + 5) document.toJson from readable_toJson h)

theorem parse_render {document : ConfigDocument} (h : ∀ n ∈ document.numbers, n.ReadsBack) :
    parse document.render = .ok document := by
  have version : (sorted document.toJson).member? "schemaVersion" = some (natJson 1) := by
    rw [sorted_toJson, member?_recordOf]
    simp [lookup_cons_eq_ite]
  have mode : (sorted document.toJson).member? "mode" = some (.string "static") := by
    rw [sorted_toJson, member?_recordOf]
    simp [lookup_cons_eq_ite]
  unfold parse
  rw [parse?_render h]
  simp only [version, mode]
  rw [if_neg (by simp [natJson, int?]), if_neg (by simp [text?]), ofJson?_toJson]

/-! ## The normal form -/

def inputItems? (text : String) : Option (List Json) :=
  (Json.parse? text).bind fun json =>
    match json.member? "inputs" with
    | some inputs => inputs.items?
    | none => some []

def calibrationIn? (item : Json) : Option Json :=
  let names := ["idx", "pin", "application", "applicationIndex", "sensor", "sensorIndex", "calibration"]
  match (recordMembers? names item).bind (·.lookup "calibration") with
  | none | some .null => none
  | some calibration => some calibration

def sourceIn? (item : Json) : Option Json :=
  (calibrationIn? item).bind fun calibration =>
    (recordMembers? ["type", "source", "params"] calibration).bind (·.lookup "source")

/-- An input is written without a calibration when it was read without one, and else with the name of the source
that was read. -/
inductive KeepsCalibration (item written : Json) : Prop
  | absent (read : calibrationIn? item = none) (kept : written.member? "calibration" = none)
  | present (source : CalibrationSource) (read : (sourceIn? item).bind CalibrationSource.ofJson? = some source)
      (kept : sourceIn? written = some (.string source.render))

theorem calibrationMember_of_ofJson? {item : Json} {input : InputAssignment}
    (h : InputAssignment.ofJson? item = some input) :
    ∃ members, recordMembers?
      ["idx", "pin", "application", "applicationIndex", "sensor", "sensorIndex", "calibration"]
        item = some members ∧
      optionalCalibration? (members.lookup "calibration") = some input.calibration := by
  unfold InputAssignment.ofJson? at h
  simp only [Option.bind_eq_bind, Option.bind_eq_some_iff] at h
  obtain ⟨members, record, h⟩ := h
  iterate 12 obtain ⟨_, _, h⟩ := h
  obtain ⟨calibration, read, h⟩ := h
  cases h
  exact ⟨members, record, read⟩

theorem source_of_ofJson? {json : Json} {c : Calibration} (h : Calibration.ofJson? json = some c) :
    ∃ source, (recordMembers? ["type", "source", "params"] json).bind (·.lookup "source") = some source ∧
      CalibrationSource.ofJson? source = some c.source := by
  unfold Calibration.ofJson? at h
  simp only [Option.bind_eq_bind, Option.bind_eq_some_iff] at h
  obtain ⟨members, record, _, _, _, _, json, member, source, read, h⟩ := h
  have same : source = c.source := by
    split at h
    all_goals
      obtain ⟨_, _, h⟩ := Option.bind_eq_some_iff.mp h
      cases h
      rfl
  exact ⟨json, by rw [record]; exact member, same ▸ read⟩

theorem member?_calibration (input : InputAssignment) :
    (sorted input.toJson).member? "calibration" = input.calibration.map fun c => sorted c.toJson := by
  rw [InputAssignment.toJson, sorted_object, member?_recordOf]
  cases input.calibration <;> simp [lookup_cons_eq_ite]

theorem sourceIn?_toJson {input : InputAssignment} {c : Calibration} (h : input.calibration = some c) :
    sourceIn? (sorted input.toJson) = some (.string c.source.render) := by
  have object : sorted c.toJson = recordOf [("type", .string c.type), ("source", .string c.source.render),
      ("params", sorted (.object (c.params.entries.map fun p => (p.1, .number p.2))))] := by
    rw [Calibration.toJson, sorted_object]
    simp only [List.map_cons, List.map_nil, sorted_string]
  have member : calibrationIn? (sorted input.toJson) = some (sorted c.toJson) := by
    have kept := member?_calibration input
    rw [h, Option.map_some, InputAssignment.toJson, sorted_object, member?_recordOf] at kept
    rw [calibrationIn?, InputAssignment.toJson, sorted_object, recordMembers?_recordOf]
    simp only [Option.bind_some, lookup_ofList, kept, object]
    rfl
  rw [sourceIn?, member, object]
  simp only [Option.bind_some, recordMembers?_recordOf, lookup_ofList]
  simp [lookup_cons_eq_ite]

theorem keepsCalibration_of_ofJson? {item : Json} {input : InputAssignment}
    (h : InputAssignment.ofJson? item = some input) : KeepsCalibration item (sorted input.toJson) := by
  obtain ⟨members, record, read⟩ := calibrationMember_of_ofJson? h
  have kept := member?_calibration input
  unfold optionalCalibration? at read
  split at read
  case h_1 missing =>
    refine .absent ?_ ?_
    · simp only [calibrationIn?, record, Option.bind_some, missing]
    · rw [kept, ← Option.some.inj read]
      rfl
  case h_2 null =>
    refine .absent ?_ ?_
    · simp only [calibrationIn?, record, Option.bind_some, null]
    · rw [kept, ← Option.some.inj read]
      rfl
  case h_3 json notNull found =>
    obtain ⟨c, readCalibration, same⟩ := Option.map_eq_some_iff.mp read
    obtain ⟨source, member, readSource⟩ := source_of_ofJson? readCalibration
    refine .present c.source ?_ (sourceIn?_toJson same.symm)
    have standing : calibrationIn? item = some json := by
      simp only [calibrationIn?, record, Option.bind_some, found]
    rw [sourceIn?, standing, Option.bind_some, member, Option.bind_some, readSource]

theorem forall₂_of_mapM {α β : Type} {f : α → Option β} {items : List α} {values : List β}
    (h : items.mapM f = some values) : List.Forall₂ (fun item value => f item = some value) items values := by
  induction items generalizing values with
  | nil =>
    cases h
    exact .nil
  | cons item items ih =>
    rw [List.mapM_cons] at h
    obtain ⟨value, first, h⟩ := Option.bind_eq_some_iff.mp h
    obtain ⟨rest, others, h⟩ := Option.bind_eq_some_iff.mp h
    cases h
    exact .cons first (ih others)

theorem inputItems?_render {document : ConfigDocument} (h : ∀ n ∈ document.numbers, n.ReadsBack) :
    inputItems? document.render = some (document.inputs.map fun input => sorted input.toJson) := by
  have inputs : (sorted document.toJson).member? "inputs" =
      some (.array ((document.inputs.map InputAssignment.toJson).map sorted)) := by
    rw [sorted_toJson, member?_recordOf]
    rfl
  rw [inputItems?, parse?_render h, Option.bind_some, inputs]
  simp [items?]

theorem exists_inputItems?_of_parse {text : String} {document : ConfigDocument}
    (h : parse text = .ok document) :
    ∃ items, inputItems? text = some items ∧
      List.Forall₂ (fun item input => InputAssignment.ofJson? item = some input) items document.inputs := by
  unfold parse at h
  split at h
  · cases h
  · rename_i json read
    have shape : ofJson? json = some document := by
      dsimp only at h
      repeat' split at h
      all_goals cases h
      assumption
    unfold ofJson? at shape
    simp only [Option.bind_eq_bind, Option.bind_eq_some_iff] at shape
    obtain ⟨_, _, _, _, shape⟩ := shape
    cases inputs : json.member? "inputs" with
    | none =>
      rw [inputs] at shape
      cases shape
      exact ⟨[], by rw [inputItems?, read, Option.bind_some, inputs], .nil⟩
    | some value =>
      rw [inputs] at shape
      obtain ⟨values, readInputs, shape⟩ := Option.bind_eq_some_iff.mp shape
      cases shape
      obtain ⟨items, standing, each⟩ := Option.bind_eq_some_iff.mp readInputs
      exact ⟨items, by rw [inputItems?, read, Option.bind_some, inputs]; exact standing, forall₂_of_mapM each⟩

/-- A document is read back from its text, if the numbers of its parameters are. The text that is written for a
document that was read is a normal form: it is written again as it is, and tells of each input what was read. -/
theorem document_round_trip :
    (∀ document : ConfigDocument, (∀ n ∈ document.numbers, n.ReadsBack) →
      parse document.render = .ok document) ∧
    ∀ text document, parse text = .ok document → (∀ n ∈ document.numbers, n.ReadsBack) →
      (parse document.render).map render = .ok document.render ∧
      ∃ items written, inputItems? text = some items ∧ inputItems? document.render = some written ∧
        List.Forall₂ KeepsCalibration items written := by
  refine ⟨fun document => parse_render, ?_⟩
  intro text document read numbers
  obtain ⟨items, standing, each⟩ := exists_inputItems?_of_parse read
  refine ⟨by rw [parse_render numbers]; rfl, items, _, standing, inputItems?_render numbers, ?_⟩
  exact List.forall₂_map_right_iff.mpr (each.imp fun _ _ h => keepsCalibration_of_ofJson? h)

set_option maxRecDepth 2000 in
theorem document_round_trip_spellings :
    let text := "\x7b\"inputs\":[[0,\"A0\",\"\\u00e9\",1,\"\",2,\x7b\"source\":\x7b\"custom\":null\x7d," ++
      "\"type\":\"RPM\",\"params\":\x7b\"poles\":0.5\x7d\x7d],[1,\"A1\",\"\",1,\"\",2]]," ++
      "\"schemaVersion\":1,\"mode\":\"static\",\"metadata\":[\"\",\"\",-1]\x7d"
    ∃ document, parse text = .ok document ∧ parse document.render = .ok document ∧
      ∃ items written, inputItems? text = some items ∧ inputItems? document.render = some written ∧
        items.length = 2 ∧ List.Forall₂ KeepsCalibration items written := by
  intro text
  let c : Calibration := ⟨"RPM", .custom, Table.ofList [("poles", .real 0.5)]⟩
  let document : ConfigDocument :=
    ⟨⟨"", "", Int64.ofInt (-1)⟩, [⟨0, "A0", "é", 1, "", 2, some c⟩, ⟨1, "A1", "", 1, "", 2, none⟩]⟩
  have json : Json.parse? text = some (.object
      [("inputs", .array [.array [natJson 0, .string "A0", .string "é", natJson 1, .string "", natJson 2,
          .object [("params", .object [("poles", .number (.real 0.5))]), ("source", .object [("custom", .null)]),
            ("type", .string "RPM")]],
          .array [natJson 1, .string "A1", .string "", natJson 1, .string "", natJson 2]]),
        ("metadata", .array [.string "", .string "", .number (.integer (-1))]), ("mode", .string "static"),
        ("schemaVersion", natJson 1)]) := by
    unfold Json.parse?
    simp only [text, String.reduceAppend, String.reduceToList]
    rfl
  have read : parse text = .ok document := by
    unfold parse
    rw [json]
    rfl
  have back : ∀ n ∈ document.numbers, n.ReadsBack := by
    have half : (JsonNumber.real 0.5).render = "0.5" := by decide +kernel
    intro n hn
    cases List.mem_singleton.mp (show n ∈ [JsonNumber.real 0.5] from hn)
    unfold JsonNumber.ReadsBack
    rw [half]
    rfl
  obtain ⟨-, items, written, standing, rest⟩ := document_round_trip.2 text document read back
  have two : items.length = 2 := by
    rw [inputItems?, json] at standing
    cases standing
    rfl
  exact ⟨document, read, document_round_trip.1 document back, items, written, standing, rest.1, two, rest.2⟩

end ConfigDocument

end FirmwareCatalog
