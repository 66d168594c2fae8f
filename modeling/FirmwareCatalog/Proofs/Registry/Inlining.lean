import FirmwareCatalog.Proofs.Files.Writing
import FirmwareCatalog.Proofs.Header.Include
import FirmwareCatalog.Proofs.Path.Normal
import FirmwareCatalog.Registry.Inlining

/-!
# What inlining adds

Behind a header stand the contents of the files that its includes name below the
root, each file once, in the order of the directives that name them first.
Nothing else of the project is read, and where every directive closes its quote
on its own line, the directives are those of the single lines.
-/

namespace FirmwareCatalog

open TreeM

/-! ## Places of normal forms -/

namespace Path

theorem exists_pushPart_root (front : List Part) {part : Part} (h : part.IsStep) :
    ∃ front', pushPart (front ++ [.root]) part = front' ++ [.root] := by
  cases part with
  | root => cases h
  | current => cases h
  | name segment =>
    refine ⟨.name segment :: front, ?_⟩
    cases front <;> simp [pushPart]
  | up =>
    cases front with
    -- a way up is kept behind the root, so the root is never taken back
    | nil => exact ⟨[.up], rfl⟩
    | cons p front => exact ⟨front, by simp [pushPart]⟩

theorem exists_foldl_pushPart_root : ∀ (steps front : List Part), (∀ part ∈ steps, part.IsStep) →
    ∃ front', steps.foldl pushPart (front ++ [.root]) = front' ++ [.root]
  | [], front, _ => ⟨front, rfl⟩
  | part :: steps, front, h => by
    rw [List.forall_mem_cons] at h
    obtain ⟨front', hpush⟩ := exists_pushPart_root front h.1
    rw [List.foldl_cons, hpush]
    exact exists_foldl_pushPart_root steps front' h.2

theorem isAbsolute_normalized_of_absolute {path : Path} (h : path.isAbsolute = true) :
    path.normalized.isAbsolute = true := by
  obtain ⟨front, hfront⟩ := exists_foldl_pushPart_root path.steps [] fun part => isStep_of_mem_steps
  have hroot : normalize path.parts = .root :: front.reverse := by
    rw [normalize, parts_of_absolute h, List.foldl_cons]
    have hpush : path.steps.foldl pushPart (pushPart [] .root) = front ++ [.root] := hfront
    rw [hpush, List.reverse_append]
    rfl
  rw [normalized, hroot]
  cases front.reverse with
  | nil => rfl
  | cons part rest => simp [ofParts, isAbsolute, joinSegments, Part.text]

theorem place?_normalized {path : Path} (h : path.isAbsolute = false) {place : String}
    (hplace : path.normalized.place? = some place) :
    normalize path.parts = path.course.names.reverse.map .name ∧
      place = FileTree.placeOf path.course.names := by
  have hparts := normalize_parts h
  rw [place?, isAbsolute_normalized h, if_neg Bool.false_ne_true, normalized] at hplace
  obtain heven | hodd := Nat.mod_two_eq_zero_or_one path.course.climb
  · rw [heven, List.replicate_zero, List.nil_append] at hparts
    refine ⟨hparts, ?_⟩
    by_cases hempty : path.course.names = []
    · rw [hparts, hempty] at hplace
      simpa [ofParts, joinSegments, segments, placeFrom, isIdle, hempty, eq_comm] using hplace
    · have htext : (normalize path.parts).map Part.text = path.course.names.reverse := by
        rw [hparts, List.map_map]
        exact List.map_id' _
      rw [segments_ofParts (isStep_normalize h) (by simpa [hparts] using hempty), htext,
        ← FileTree.placeOf_nil, FileTree.placeFrom_names _ _ fun n hn => isName_course h n (List.mem_reverse.mp hn),
        List.reverse_reverse, List.append_nil] at hplace
      exact (Option.some.inj hplace).symm
  · rw [hodd] at hparts
    have hup : (normalize path.parts).map Part.text = ['.', '.'] :: path.course.names.reverse := by
      rw [hparts, List.map_append, List.map_map]
      exact congrArg (_ :: ·) (List.map_id' _)
    rw [segments_ofParts (isStep_normalize h) (by simp [hparts]), hup] at hplace
    cases hplace

theorem normalize_injective {p q : Path} {place : String} (hp : p.normalized.place? = some place)
    (hq : q.normalized.place? = some place) : normalize p.parts = normalize q.parts := by
  have relative {path : Path} (h : path.normalized.place? = some place) : path.isAbsolute = false := by
    by_contra habsolute
    rw [place?, isAbsolute_normalized_of_absolute (by simpa using habsolute), if_pos rfl] at h
    cases h
  obtain ⟨hpnames, rfl⟩ := place?_normalized (relative hp) hp
  obtain ⟨hqnames, hplace⟩ := place?_normalized (relative hq) hq
  rw [hpnames, hqnames, FileTree.placeOf_injective (isName_course (relative hp)) (isName_course (relative hq)) hplace]

end Path

/-! ## Locations -/

theorem distinctFrom_eq (seen ls : List (List Path.Part)) :
    distinctFrom seen ls = (ls.filter fun l => !seen.contains l).eraseDups := by
  induction ls generalizing seen with
  | nil => rfl
  | cons l ls ih =>
    rw [distinctFrom, List.filter_cons]
    cases hseen : seen.contains l with
    | true => simpa using ih seen
    | false =>
      rw [if_neg Bool.false_ne_true, Bool.not_false, if_pos rfl, List.eraseDups_cons, ih, List.filter_filter]
      congr 3
      funext x
      rw [List.contains_cons, Bool.not_or]

theorem mem_distinctFrom {seen ls : List (List Path.Part)} {l : List Path.Part} :
    l ∈ distinctFrom seen ls ↔ l ∈ ls ∧ l ∉ seen := by
  simp [distinctFrom_eq]

theorem nodup_distinctFrom (seen ls : List (List Path.Part)) : (distinctFrom seen ls).Nodup := by
  induction ls generalizing seen with
  | nil => exact List.nodup_nil
  | cons l ls ih =>
    rw [distinctFrom]
    split
    · exact ih seen
    · rw [List.nodup_cons]
      exact ⟨fun hmem => (mem_distinctFrom.mp hmem).2 (List.mem_cons_self ..), ih _⟩

theorem includeLocations_eq (header : Path) (subdir : String) (text : List Char) :
    includeLocations header subdir text =
      (((Header.includeTargets text).map (includeLocation header)).filter fun l =>
        (includeRoot header subdir).isPrefixOf l && l ≠ Path.normalize header.parts).eraseDups := by
  have hfilter (ls : List (List Path.Part)) :
      (ls.filter (includeRoot header subdir).isPrefixOf).filter
          (fun l => !List.contains [Path.normalize header.parts] l) =
        ls.filter fun l => (includeRoot header subdir).isPrefixOf l && l ≠ Path.normalize header.parts := by
    rw [List.filter_filter]
    apply List.filter_congr
    intro l _
    simp [Bool.and_comm]
  simp only [includeLocations, distinctFrom_eq, hfilter]

theorem exists_of_mem_includeLocations {header : Path} {subdir : String} {text : List Char} {l : List Path.Part}
    (h : l ∈ includeLocations header subdir text) :
    ∃ path : Path, l = Path.normalize path.parts ∧ includeRoot header subdir <+: Path.normalize path.parts := by
  obtain ⟨hmem, hroot⟩ := List.mem_filter.mp (mem_distinctFrom.mp h).1
  obtain ⟨target, -, rfl⟩ := List.mem_map.mp hmem
  exact ⟨(headerDirectory header).join ⟨String.ofList target⟩, rfl, List.isPrefixOf_iff_prefix.mp hroot⟩

theorem pairwise_apart_includeLocations (header : Path) (subdir : String) (text : List Char) :
    ((includeLocations header subdir text).map Path.ofParts).Pairwise FileTree.Apart := by
  rw [List.pairwise_map]
  refine (nodup_distinctFrom _ _).imp_of_mem ?_
  intro l l' hl hl' hne place hplace hplace'
  obtain ⟨path, rfl, -⟩ := exists_of_mem_includeLocations hl
  obtain ⟨path', rfl, -⟩ := exists_of_mem_includeLocations hl'
  exact hne (Path.normalize_injective hplace hplace')

/-! ## Contents -/

/-- What the file at a location adds: nothing if it cannot be read as text. -/
def addedAt (tree : FileTree) (location : List Path.Part) : List Char :=
  match tree.read (Path.ofParts location) with
  | .error _ => []
  | .ok bytes => ((Utf8.decode? bytes).map ('\n' :: ·)).getD []

theorem inlinedContents_apply (tree : FileTree) : ∀ locations : List (List Path.Part),
    (inlinedContents locations : TreeM String) tree = (String.ofList (locations.flatMap (addedAt tree)), tree)
  | [] => rfl
  | location :: locations => by
    have ih := inlinedContents_apply tree locations
    unfold inlinedContents
    rw [bind_apply, Files.readText_apply, List.flatMap_cons, addedAt]
    cases tree.read (Path.ofParts location) with
    | error e => exact ih
    | ok bytes =>
      cases hdecoded : Utf8.decode? bytes with
      | none => simpa [hdecoded] using ih
      | some cs =>
        simp only [hdecoded]
        rw [bind_apply, ih, pure_apply]
        simp [String.ofList_append, String.append_assoc]

theorem inlineIncludes_apply (header : Path) (subdir text : String) (tree : FileTree) :
    (inlineIncludes header subdir text : TreeM String) tree =
      (String.ofList (text.toList ++ (includeLocations header subdir text.toList).flatMap (addedAt tree)), tree) := by
  unfold inlineIncludes
  rw [bind_apply, inlinedContents_apply, pure_apply]
  simp [String.ofList_append]

theorem addedAt_congr {tree tree' : FileTree} {l : List Path.Part}
    (h : ∀ content, tree.read (Path.ofParts l) = .ok content ↔ tree'.read (Path.ofParts l) = .ok content) :
    addedAt tree l = addedAt tree' l := by
  unfold addedAt
  cases hread : tree.read (Path.ofParts l) with
  | ok bytes => rw [(h bytes).mp hread]
  | error e =>
    cases hread' : tree'.read (Path.ofParts l) with
    | error e' => rfl
    | ok bytes =>
      rw [(h bytes).mpr hread'] at hread
      cases hread

def sensorFileTree : FileTree :=
  Table.ofList [("lib", .directory), ("lib/sensor_library", .directory),
    ("lib/sensor_library/x.h", .file (textBytes "X\n"))]

theorem addedAt_sensorFileTree :
    addedAt sensorFileTree (includeLocation ⟨"lib/s.h"⟩ "sensor_library/x.h".toList) = "\nX\n".toList := by
  decide +kernel

/-- **What inlining adds.** Behind the text stand the files that its directives name, below the root and without the
header itself, in the order in which they are first named and each behind a line feed; what cannot be read as text adds
nothing. No place is read twice, and trees with the same files below the root give the same text. If every directive
closes its quote on its own line, the directives that count are those of the single lines. -/
theorem inlineIncludes_adds (header : Path) (subdir text : String) :
    let inlined := includeLocations header subdir text.toList
    inlined = (((Header.includeTargets text.toList).map (includeLocation header)).filter fun l =>
        (includeRoot header subdir).isPrefixOf l && l ≠ Path.normalize header.parts).eraseDups ∧
      (∀ tree : FileTree, (inlineIncludes header subdir text : TreeM String) tree =
        (String.ofList (text.toList ++ inlined.flatMap (addedAt tree)), tree)) ∧
      (inlined.map Path.ofParts).Pairwise FileTree.Apart ∧
      (∀ tree tree' : FileTree,
        (∀ (path : Path) (content : Bytes), includeRoot header subdir <+: Path.normalize path.parts →
          (tree.read path.normalized = .ok content ↔ tree'.read path.normalized = .ok content)) →
        ((inlineIncludes header subdir text : TreeM String) tree).1 =
          ((inlineIncludes header subdir text : TreeM String) tree').1) ∧
      (Header.includesOnLines none text.toList = true →
        Header.includeTargets text.toList = Header.lineTargets text.toList) := by
  intro inlined
  refine ⟨includeLocations_eq header subdir text.toList, inlineIncludes_apply header subdir text,
    pairwise_apart_includeLocations header subdir text.toList, ?_, Header.includeTargets_eq_lineTargets⟩
  intro tree tree' same
  have hadded : inlined.map (addedAt tree) = inlined.map (addedAt tree') := by
    apply List.map_congr_left
    intro l hl
    obtain ⟨path, rfl, hroot⟩ := exists_of_mem_includeLocations hl
    exact addedAt_congr fun content => same path content hroot
  rw [inlineIncludes_apply, inlineIncludes_apply, List.flatMap_def, List.flatMap_def]
  simp only [inlined] at hadded
  rw [hadded]

/-- Neither a directive in a comment nor a file outside the root adds anything. -/
theorem inlineIncludes_adds_commented :
    let header : Path := ⟨"lib/s.h"⟩
    let text := "#include \"sensor_library/x.h\"\n//#include \"sensor_library/y.h\"\n"
    let tree' : FileTree := sensorFileTree.insert "lib/y.h" (.file (textBytes "Y\n"))
    Header.includesOnLines none text.toList = true ∧
      Header.includeTargets text.toList = ["sensor_library/x.h".toList] ∧
      (∀ (path : Path) (content : Bytes), includeRoot header "sensor_library/" <+: Path.normalize path.parts →
        (sensorFileTree.read path.normalized = .ok content ↔ tree'.read path.normalized = .ok content)) ∧
      ((inlineIncludes header "sensor_library/" text : TreeM String) tree').1 = text ++ "\nX\n" := by
  intro header text tree'
  obtain ⟨-, added, -, contained, onLines⟩ := inlineIncludes_adds header "sensor_library/" text
  have hlines : Header.includesOnLines none text.toList = true := by decide +kernel
  have htargets : Header.lineTargets text.toList = ["sensor_library/x.h".toList] := by decide +kernel
  have outside {path : Path} (h : includeRoot header "sensor_library/" <+: Path.normalize path.parts) :
      ∀ p ∈ [(⟨"lib/y.h"⟩ : Path)], FileTree.Apart p path.normalized := by
    intro p hp place hplace hplace'
    obtain rfl := List.mem_singleton.mp hp
    rw [← Path.normalize_injective (p := ⟨"lib/y.h"⟩) hplace hplace'] at h
    revert h
    decide
  have outer : sensorFileTree.find? "lib" = some .directory := by decide +kernel
  have free : sensorFileTree.find? "lib/y.h" = none := by decide +kernel
  have kept {l : String} (h : l ≠ "lib/y.h") : tree'.find? l = sensorFileTree.find? l := by
    rw [Table.find?_insert, if_neg h]
  have leads : FileTree.LeadsTo sensorFileTree ⟨"lib/y.h"⟩ "lib/y.h" false :=
    ⟨by decide, .down (by decide) (by decide) outer (.last (by decide) (by decide) rfl)⟩
  have leads' : FileTree.LeadsTo tree' ⟨"lib/y.h"⟩ "lib/y.h" false :=
    ⟨by decide, .down (by decide) (by decide) ((kept (by decide)).trans outer) (.last (by decide) (by decide) rfl)⟩
  -- a file outside the root changes no file below it, whether it is added or taken away
  have forth : FileTree.ChangesOnly [⟨"lib/y.h"⟩] sensorFileTree tree' :=
    FileTree.changesOnly_of_find? leads (by simp [free]) (fun l hl => kept hl) (.inl (by simp))
  have back : FileTree.ChangesOnly [⟨"lib/y.h"⟩] tree' sensorFileTree :=
    FileTree.changesOnly_of_find? leads' (by simp [tree', Table.find?_insert]) (fun l hl => (kept hl).symm)
      (.inl (by simp))
  have same (path : Path) (content : Bytes) (h : includeRoot header "sensor_library/" <+: Path.normalize path.parts) :
      sensorFileTree.read path.normalized = .ok content ↔ tree'.read path.normalized = .ok content :=
    ⟨forth.read (outside h), back.read (outside h)⟩
  have locations : includeLocations header "sensor_library/" text.toList =
      [includeLocation header "sensor_library/x.h".toList] := by decide +kernel
  refine ⟨hlines, (onLines hlines).trans htargets, same, ?_⟩
  rw [← contained _ _ same, added, locations, List.flatMap_singleton, addedAt_sensorFileTree]
  decide

/-- A directive left open in a comment takes the next one with it. -/
theorem include_may_be_lost :
    let header : Path := ⟨"lib/s.h"⟩
    let text := "/* was:\n#include \"sensor_library/old.h\n*/\n#include \"sensor_library/x.h\"\n"
    let location := includeLocation header "sensor_library/x.h".toList
    Header.lineTargets text.toList = ["sensor_library/x.h".toList] ∧
      includeRoot header "sensor_library/" <+: location ∧ location ≠ Path.normalize header.parts ∧
      addedAt sensorFileTree location = "\nX\n".toList ∧
      ((inlineIncludes header "sensor_library/" text : TreeM String) sensorFileTree).1 = text := by
  intro header text location
  have locations : (includeLocations header "sensor_library/" text.toList).flatMap (addedAt sensorFileTree) = [] := by
    decide +kernel
  refine ⟨by decide +kernel, by decide, by decide, addedAt_sensorFileTree, ?_⟩
  rw [inlineIncludes_apply, locations]
  simp

end FirmwareCatalog
