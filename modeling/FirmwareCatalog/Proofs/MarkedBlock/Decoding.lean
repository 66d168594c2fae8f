import FirmwareCatalog.Proofs.MarkedBlock.Location
import FirmwareCatalog.Proofs.Text.Lossy
import FirmwareCatalog.Validation.Defines

/-!
# Marked blocks in bytes that are no text

A block is spliced into the bytes of a file, but checked in the text that they
decode to, with U+FFFD for what is invalid. Both find the same block: no marker
is made or broken by a replacement, and decoding starts afresh at every marker
and every line.
-/

namespace FirmwareCatalog.MarkedBlock

open Utf8

/-- The bytes of the text that bytes decode to. -/
def repaired (bytes : Bytes) : Bytes := encode (decodeLossy bytes)

def Location.repaired : Location → Location
  | .found before block after =>
    .found (MarkedBlock.repaired before) (MarkedBlock.repaired block) (MarkedBlock.repaired after)
  | .unterminated before => .unterminated (MarkedBlock.repaired before)
  | .absent => .absent

@[simp] theorem repaired_nil : repaired [] = [] := rfl

theorem repaired_eq_nil_iff (bytes : Bytes) : repaired bytes = [] ↔ bytes = [] := by
  constructor
  · intro h
    apply decodeLossy_eq_nil
    by_contra hne
    exact encode_ne_nil hne h
  · rintro rfl
    rfl

theorem repaired_append {tail : Bytes} (htail : ∀ b ∈ tail.head?, ¬ IsContinuation b) (bytes : Bytes) :
    repaired (bytes ++ tail) = repaired bytes ++ repaired tail := by
  unfold repaired
  rw [decodeLossy_append htail, encode_append]

theorem repaired_encode_append (cs : List Char) (bytes : Bytes) :
    repaired (encode cs ++ bytes) = encode cs ++ repaired bytes := by
  unfold repaired
  rw [decodeLossy_encode_append, encode_append]

theorem repaired_encode (cs : List Char) : repaired (encode cs) = encode cs := by
  unfold repaired
  rw [decodeLossy_encode]

theorem head?_encode_append {cs : List Char} (hne : cs ≠ []) (bytes : Bytes) :
    ∀ b ∈ (encode cs ++ bytes).head?, ¬ IsContinuation b := by
  intro b hb
  rw [List.head?_append_of_ne_nil _ (encode_ne_nil hne)] at hb
  exact head?_encode_not_continuation cs b hb

/-! ## Needles -/

section
variable {needle : List Char} (hneedle : Char.ofNat 0xFFFD ∉ needle)
include hneedle

theorem exists_of_prefix_repaired (hne : needle ≠ []) {bytes : Bytes} {k : Nat}
    (h : encode needle <+: (repaired bytes).drop k) :
    ∃ a b, bytes = a ++ (encode needle ++ b) ∧ repaired a = (repaired bytes).take k := by
  obtain ⟨rest, hrest⟩ := h
  have hcut : encode (decodeLossy bytes) = (repaired bytes).take k ++ (encode needle ++ rest) := by
    rw [hrest, List.take_append_drop]
    rfl
  obtain ⟨left, behind, hleft, htake, hbehind⟩ :=
    exists_split_of_encode_eq hcut (head?_encode_append hne rest)
  obtain ⟨right, rfl, -⟩ := eq_append_of_encode_eq hbehind.symm
  obtain ⟨a, b, hbytes, ha, -⟩ := exists_of_decodeLossy hneedle hleft
  exact ⟨a, b, hbytes, by rw [htake, repaired, ha]⟩

theorem prefix_repaired_iff (bytes : Bytes) : encode needle <+: repaired bytes ↔ encode needle <+: bytes := by
  constructor
  · rintro ⟨rest, hrest⟩
    obtain ⟨right, htext, -⟩ := eq_append_of_encode_eq hrest.symm
    have hsplit : decodeLossy bytes = [] ++ (needle ++ right) := htext
    obtain ⟨a, b, rfl, ha, -⟩ := exists_of_decodeLossy hneedle hsplit
    rw [decodeLossy_eq_nil ha]
    exact List.prefix_append _ _
  · rintro ⟨rest, rfl⟩
    rw [repaired_encode_append]
    exact List.prefix_append _ _

theorem splitAt?_repaired (bytes : Bytes) :
    splitAt? (encode needle) (repaired bytes) =
      (splitAt? (encode needle) bytes).map fun p => (repaired p.1, repaired p.2) := by
  by_cases hne : needle = []
  · subst hne
    have hempty (bytes : Bytes) : splitAt? (encode []) bytes = some ([], bytes) := by
      rw [splitAt?_eq_some_iff]
      exact ⟨rfl, List.nil_prefix, fun k hk => absurd hk (Nat.not_lt_zero k)⟩
    rw [hempty, hempty]
    rfl
  cases hsplit : splitAt? (encode needle) bytes with
  | none =>
    rw [Option.map_none, splitAt?_eq_none_iff]
    intro k hk
    obtain ⟨a, b, rfl, -⟩ := exists_of_prefix_repaired hneedle hne hk
    apply (splitAt?_eq_none_iff _).mp hsplit a.length
    rw [List.drop_left]
    exact List.prefix_append _ _
  | some p =>
    obtain ⟨before, rest⟩ := p
    obtain ⟨rfl, ⟨behind, rfl⟩, hfirst⟩ := (splitAt?_eq_some_iff _).mp hsplit
    have hrepaired := repaired_append (head?_encode_append hne behind) before
    rw [Option.map_some, splitAt?_eq_some_iff]
    refine ⟨hrepaired, ?_, ?_⟩
    · rw [repaired_encode_append]
      exact List.prefix_append _ _
    · intro k hk hp
      obtain ⟨a, b, hab, ha⟩ := exists_of_prefix_repaired hneedle hne hp
      -- the needle stands in the bytes too, so not before the first place
      have hle : before.length ≤ a.length := by
        by_contra hlt
        apply hfirst a.length (by omega)
        rw [hab, List.drop_left]
        exact List.prefix_append _ _
      obtain ⟨gap, rfl⟩ : before <+: a :=
        List.prefix_of_prefix_length_le (List.prefix_append _ _) (hab.symm ▸ List.prefix_append _ _) hle
      have hgap : ∀ b ∈ gap.head?, ¬ IsContinuation b := by
        rw [List.append_assoc, List.append_cancel_left_eq] at hab
        intro c hc
        cases gap with
        | nil => cases hc
        | cons d gap => exact head?_encode_append hne behind c (by rw [hab]; exact hc)
      have hlength := congrArg List.length ha
      rw [repaired_append hgap, List.length_append, List.length_take] at hlength
      simp only at hk
      omega

end

/-! ## Lines -/

theorem firstLine_of_notMem : ∀ {line : Bytes}, newline ∉ line → firstLine line = line
  | [], _ => rfl
  | b :: line, h => by
    rw [List.mem_cons, not_or] at h
    rw [firstLine, if_neg (Ne.symm h.1), firstLine_of_notMem h.2]

theorem firstLine_append_newline (rest : Bytes) : ∀ {line : Bytes}, newline ∉ line →
    firstLine (line ++ newline :: rest) = line ++ [newline]
  | [], _ => by rw [List.nil_append, firstLine, if_pos rfl, List.nil_append]
  | b :: line, h => by
    rw [List.mem_cons, not_or] at h
    rw [List.cons_append, firstLine, if_neg (Ne.symm h.1), firstLine_append_newline rest h.2,
      List.cons_append]

def behindFirstLine (bytes : Bytes) : Bytes := bytes.drop (firstLine bytes).length

theorem length_behindFirstLine {bytes : Bytes} (hne : bytes ≠ []) :
    (behindFirstLine bytes).length < bytes.length := by
  obtain ⟨b, bytes, rfl⟩ := List.exists_cons_of_ne_nil hne
  unfold behindFirstLine
  rw [List.length_drop, firstLine]
  split <;> simp only [List.length_cons, List.length_nil] <;> omega

theorem newline_notMem_repaired {bytes : Bytes} (h : newline ∉ bytes) : newline ∉ repaired bytes := by
  intro hmem
  obtain ⟨left, right, htext⟩ := List.append_of_mem (mem_encode_of_lt hmem (by decide))
  have hsplit : decodeLossy bytes = left ++ (['\n'] ++ right) := htext
  obtain ⟨a, b, rfl, -, -⟩ := exists_of_decodeLossy (by decide) hsplit
  apply h
  have hmem : newline ∈ encode ['\n'] := by decide
  simp [hmem]

theorem repaired_newline (bytes rest : Bytes) :
    repaired (bytes ++ newline :: rest) = repaired bytes ++ newline :: repaired rest := by
  rw [show newline :: rest = encode ['\n'] ++ rest from rfl,
    repaired_append (head?_encode_append (by decide) rest), repaired_encode_append]
  rfl

theorem firstLine_cases (bytes : Bytes) :
    (newline ∉ bytes ∧ firstLine bytes = bytes ∧ behindFirstLine bytes = []) ∨
      ∃ line rest, newline ∉ line ∧ bytes = line ++ newline :: rest ∧
        firstLine bytes = line ++ [newline] ∧ behindFirstLine bytes = rest := by
  unfold behindFirstLine
  by_cases hmem : newline ∈ bytes
  · obtain ⟨line, rest, rfl, hline⟩ := List.eq_append_cons_of_mem hmem
    refine .inr ⟨line, rest, hline, rfl, firstLine_append_newline rest hline, ?_⟩
    rw [firstLine_append_newline rest hline, List.append_cons line newline rest, List.drop_left]
  · refine .inl ⟨hmem, firstLine_of_notMem hmem, ?_⟩
    rw [firstLine_of_notMem hmem, List.drop_length]

theorem behindFirstLine_append_newline {line : Bytes} (hline : newline ∉ line) (rest : Bytes) :
    behindFirstLine (line ++ newline :: rest) = rest := by
  unfold behindFirstLine
  rw [firstLine_append_newline rest hline, List.append_cons line newline rest, List.drop_left]

theorem firstLine_repaired (bytes : Bytes) :
    firstLine (repaired bytes) = repaired (firstLine bytes) ∧
      behindFirstLine (repaired bytes) = repaired (behindFirstLine bytes) := by
  rcases firstLine_cases bytes with ⟨hmem, hfirst, hbehind⟩ | ⟨line, rest, hline, rfl, hfirst, hbehind⟩
  · have hmem' := newline_notMem_repaired hmem
    rw [hfirst, hbehind, behindFirstLine, firstLine_of_notMem hmem', List.drop_length]
    exact ⟨rfl, rfl⟩
  · have hline' := newline_notMem_repaired hline
    rw [hfirst, hbehind, repaired_newline, repaired_newline, firstLine_append_newline _ hline',
      behindFirstLine_append_newline hline']
    exact ⟨rfl, rfl⟩

theorem splitAtLine?_false (marker : Bytes) : ∀ bytes : Bytes,
    splitAtLine? marker false bytes =
      (splitAtLine? marker true (behindFirstLine bytes)).map fun p => (firstLine bytes ++ p.1, p.2)
  | [] => rfl
  | b :: bytes => by
    rw [splitAtLine?, Bool.false_and, if_neg (by decide)]
    unfold behindFirstLine
    rw [firstLine]
    by_cases hb : b = newline
    · simp [hb]
    · rw [if_neg hb, decide_eq_false hb, splitAtLine?_false marker bytes, Option.map_map]
      rfl

theorem splitAtLine?_line (marker : Bytes) {bytes : Bytes} (hne : bytes ≠ []) :
    splitAtLine? marker true bytes =
      if marker.isPrefixOf (firstLine bytes) then some ([], bytes)
      else (splitAtLine? marker true (behindFirstLine bytes)).map fun p =>
        (firstLine bytes ++ p.1, p.2) := by
  obtain ⟨b, bytes, rfl⟩ := List.exists_cons_of_ne_nil hne
  rw [splitAtLine?, Bool.true_and]
  split
  · rfl
  · have hfalse := splitAtLine?_false marker (b :: bytes)
    rw [splitAtLine?, Bool.false_and, if_neg (by decide)] at hfalse
    exact hfalse

/-- What follows whole lines has no part in their decoding. -/
theorem repaired_firstLine_append {bytes : Bytes} (hne : behindFirstLine bytes ≠ []) (rest : Bytes) :
    repaired (firstLine bytes ++ rest) = repaired (firstLine bytes) ++ repaired rest := by
  rcases firstLine_cases bytes with ⟨-, -, hbehind⟩ | ⟨line, _, -, -, hfirst, -⟩
  · exact absurd hbehind hne
  · rw [hfirst, List.append_assoc, List.singleton_append, repaired_newline, repaired_newline,
      List.append_assoc]
    rfl

theorem splitAtLine?_repaired {marker : List Char} (hmarker : Char.ofNat 0xFFFD ∉ marker) (bytes : Bytes) :
    splitAtLine? (encode marker) true (repaired bytes) =
      (splitAtLine? (encode marker) true bytes).map fun p => (repaired p.1, repaired p.2) := by
  by_cases hne : bytes = []
  · subst hne
    rfl
  have hne' : repaired bytes ≠ [] := fun h => hne ((repaired_eq_nil_iff bytes).mp h)
  have hlength := length_behindFirstLine hne
  obtain ⟨hfirst, hbehind⟩ := firstLine_repaired bytes
  rw [splitAtLine?_line _ hne, splitAtLine?_line _ hne', hfirst, hbehind,
    splitAtLine?_repaired hmarker (behindFirstLine bytes)]
  simp only [List.isPrefixOf_iff_prefix, prefix_repaired_iff hmarker]
  by_cases hprefix : encode marker <+: firstLine bytes
  · rw [if_pos hprefix, if_pos hprefix]
    rfl
  · rw [if_neg hprefix, if_neg hprefix, Option.map_map, Option.map_map]
    by_cases hnil : behindFirstLine bytes = []
    · rw [hnil]
      rfl
    · apply Option.map_congr
      intro p _
      simp only [Function.comp_apply, repaired_firstLine_append hnil]
termination_by bytes.length

theorem splitAtLine?_eq_append {marker : Bytes} : ∀ {bytes before rest : Bytes} {atStart : Bool},
    splitAtLine? marker atStart bytes = some (before, rest) → bytes = before ++ rest ∧ marker <+: rest
  | [], _, _, _, h => by simp [splitAtLine?] at h
  | b :: bytes, before, rest, atStart, h => by
    rw [splitAtLine?] at h
    split at h
    · rename_i hprefix
      simp only [Option.some.injEq, Prod.mk.injEq] at h
      obtain ⟨rfl, rfl⟩ := h
      rw [Bool.and_eq_true, List.isPrefixOf_iff_prefix] at hprefix
      rcases firstLine_cases (b :: bytes) with ⟨-, hfirst, -⟩ | ⟨line, rest, -, heq, hfirst, -⟩
      · exact ⟨rfl, hfirst ▸ hprefix.2⟩
      · refine ⟨rfl, hprefix.2.trans ?_⟩
        rw [hfirst, heq, List.append_cons line newline rest]
        exact List.prefix_append _ _
    · obtain ⟨p, hp, heq⟩ := Option.map_eq_some_iff.mp h
      simp only [Prod.mk.injEq] at heq
      obtain ⟨rfl, rfl⟩ := heq
      obtain ⟨rfl, hprefix⟩ := splitAtLine?_eq_append hp
      exact ⟨rfl, hprefix⟩

/-! ## Blocks -/

theorem splitLineEnd_repaired (bytes : Bytes) :
    splitLineEnd (repaired bytes) = ((splitLineEnd bytes).1, repaired (splitLineEnd bytes).2) := by
  by_cases hcrlf : encode ['\r', '\n'] <+: bytes
  · obtain ⟨rest, rfl⟩ := hcrlf
    rw [repaired_encode_append]
    rfl
  by_cases hlf : encode ['\n'] <+: bytes
  · obtain ⟨rest, rfl⟩ := hlf
    rw [repaired_encode_append]
    rfl
  have hnone {bytes : Bytes} (hcrlf : ¬ encode ['\r', '\n'] <+: bytes) (hlf : ¬ encode ['\n'] <+: bytes) :
      splitLineEnd bytes = ([], bytes) := by
    unfold splitLineEnd
    split
    · exact absurd (List.prefix_append [13, 10] _) hcrlf
    · exact absurd (List.prefix_append [10] _) hlf
    · rfl
  rw [hnone hcrlf hlf, hnone]
  · rwa [prefix_repaired_iff (by decide)]
  · rwa [prefix_repaired_iff (by decide)]

theorem exists_encode_lineEnd (bytes : Bytes) : ∃ lineEnd, (splitLineEnd bytes).1 = encode lineEnd := by
  unfold splitLineEnd
  split
  · exact ⟨['\r', '\n'], rfl⟩
  · exact ⟨['\n'], rfl⟩
  · exact ⟨[], rfl⟩

theorem locate_repaired {markers : BlockMarkers} (hstart : Char.ofNat 0xFFFD ∉ markers.start.toList)
    (hstop : Char.ofNat 0xFFFD ∉ markers.stop.toList) (bytes : Bytes) :
    locate markers (repaired bytes) = (locate markers bytes).repaired := by
  unfold locate textBytes
  simp only [splitAtLine?_repaired hstart]
  cases hline : splitAtLine? (encode markers.start.toList) true bytes with
  | none => rfl
  | some p =>
    obtain ⟨before, rest⟩ := p
    obtain ⟨-, ⟨rest, rfl⟩⟩ := splitAtLine?_eq_append hline
    simp only [Option.map_some, repaired_encode_append, List.drop_left, List.take_left,
      splitAt?_repaired hstop]
    cases hend : splitAt? (encode markers.stop.toList) rest with
    | none => rfl
    | some p =>
      obtain ⟨inner, atStop⟩ := p
      obtain ⟨rfl, ⟨behind, rfl⟩, -⟩ := (splitAt?_eq_some_iff _).mp hend
      obtain ⟨lineEnd, hlineEnd⟩ := exists_encode_lineEnd behind
      have hblock : repaired (encode markers.start.toList ++ inner ++ encode markers.stop.toList ++
          encode lineEnd) = encode markers.start.toList ++ repaired inner ++
            encode markers.stop.toList ++ encode lineEnd := by
        rw [List.append_assoc, List.append_assoc, ← encode_append, repaired_encode_append,
          repaired_append (head?_encode_not_continuation _), repaired_encode, encode_append]
        simp only [List.append_assoc]
      simp only [Option.map_some, repaired_encode_append, List.drop_left, List.take_left,
        splitLineEnd_repaired, Location.repaired, hlineEnd, hblock]

theorem locate_eq_append {markers : BlockMarkers} {bytes before block after : Bytes}
    (h : locate markers bytes = .found before block after) : bytes = before ++ block ++ after := by
  unfold locate at h
  simp only at h
  split at h
  · cases h
  · rename_i before' rest hline
    obtain ⟨rfl, ⟨rest, rfl⟩⟩ := splitAtLine?_eq_append hline
    rw [List.drop_left, List.take_left] at h
    split at h
    · cases h
    · rename_i inner atStop hend
      obtain ⟨rfl, ⟨behind, rfl⟩, -⟩ := (splitAt?_eq_some_iff _).mp hend
      rw [List.drop_left, List.take_left] at h
      cases h
      simp only [List.append_assoc, splitLineEnd_append]

theorem count_newline_repaired (bytes : Bytes) : (repaired bytes).count newline = bytes.count newline := by
  rcases firstLine_cases bytes with ⟨hmem, -, -⟩ | ⟨line, rest, hline, hbytes, -, -⟩
  · rw [List.count_eq_zero.mpr hmem, List.count_eq_zero.mpr (newline_notMem_repaired hmem)]
  · have hlength : rest.length < bytes.length := by
      rw [hbytes, List.length_append, List.length_cons]
      omega
    rw [hbytes, repaired_newline, List.count_append, List.count_append, List.count_cons_self,
      List.count_cons_self, List.count_eq_zero.mpr hline,
      List.count_eq_zero.mpr (newline_notMem_repaired hline), count_newline_repaired rest]
termination_by bytes.length

theorem lineBehind_repaired (before : Bytes) : lineBehind (repaired before) = lineBehind before := by
  rw [lineBehind, lineBehind, count_newline_repaired]

end FirmwareCatalog.MarkedBlock

namespace FirmwareCatalog.Validation

open MarkedBlock Utf8

/-! ## Checking and splicing -/

/-- What is found in a block says nothing about where the block stands. -/
def AboutInputs : Fault → Prop
  | .missingInputCount | .missingDefine .. | .malformedDefine .. | .duplicatePin ..
  | .unknownApplication .. | .unknownSensor .. => True
  | _ => False

theorem aboutInputs_of_mem_inputFaults {catalog : Catalog} {table : DefineTable}
    {pins : List (String × Nat)} {input : Nat} :
    ∀ fault ∈ inputFaults catalog table pins input, AboutInputs fault := by
  intro fault h
  unfold inputFaults at h
  simp only [List.mem_append] at h
  rcases h with (((h | h) | h) | h) | h
  · obtain ⟨field, -, h⟩ := List.mem_filterMap.mp h
    split at h
    · cases h
    · cases h
      trivial
  · obtain ⟨pin, -, h⟩ := Option.bind_eq_some_iff.mp (Option.mem_toList.mp h)
    obtain ⟨first, -, h⟩ := Option.bind_eq_some_iff.mp h
    split at h
    · cases h
      trivial
    · cases h
  · obtain ⟨field, -, h⟩ := List.mem_filterMap.mp h
    obtain ⟨value, -, h⟩ := Option.bind_eq_some_iff.mp h
    split at h
    · cases h
    · cases h
      trivial
  · obtain ⟨index, -, rfl⟩ := Option.map_eq_some_iff.mp (Option.mem_toList.mp h)
    trivial
  · obtain ⟨index, -, rfl⟩ := Option.map_eq_some_iff.mp (Option.mem_toList.mp h)
    trivial

theorem aboutInputs_of_mem_blockFaults {catalog : Catalog} {block : List Char} :
    ∀ fault ∈ blockFaults catalog block, AboutInputs fault := by
  intro fault h
  unfold blockFaults at h
  split at h
  · rw [List.mem_singleton.mp h]
    trivial
  · obtain ⟨input, -, h⟩ := List.mem_flatMap.mp h
    exact aboutInputs_of_mem_inputFaults fault h

/-- What the check says about the text that a file decodes to, by what a splice would find in the file. -/
theorem configFaults_repaired (catalog : Catalog) {markers : BlockMarkers}
    (hstart : Char.ofNat 0xFFFD ∉ markers.start.toList)
    (hstop : Char.ofNat 0xFFFD ∉ markers.stop.toList) (content : Bytes) :
    configFaults catalog markers (String.ofList (decodeLossy content)) =
      match locate markers content with
      | .found _ block _ => blockFaults catalog (decodeLossy block)
      | .unterminated before => [.unterminatedBlock markers.start markers.stop (lineBehind before)]
      | .absent => [.missingBlock markers.start] := by
  have hlocate := locate_repaired hstart hstop content
  unfold configFaults textBytes
  rw [String.toList_ofList]
  unfold MarkedBlock.repaired at hlocate
  cases hcontent : locate markers content with
  | found before block after =>
    rw [hlocate, hcontent]
    simp only [Location.repaired, MarkedBlock.repaired, decodeLossy_encode]
  | unterminated before =>
    rw [hcontent] at hlocate
    rw [hlocate]
    simp only [Location.repaired]
    rw [length_lines_of_locate hlocate, lineBehind_repaired]
  | absent =>
    rw [hlocate, hcontent]
    rfl

/-- **The check sees the block that a splice replaces**, whatever bytes stand in the file. It misses a block where
a splice appends one and finds a block open at the line where a splice fails. Otherwise it looks at the text
of the bytes that a splice removes, cut from the decoded text between two characters. -/
theorem checked_block_is_spliced (catalog : Catalog) (markers : BlockMarkers)
    (hstart : Char.ofNat 0xFFFD ∉ markers.start.toList)
    (hstop : Char.ofNat 0xFFFD ∉ markers.stop.toList) (content block : Bytes) :
    let text := String.ofList (decodeLossy content)
    let faults := (checkConfigBlock catalog markers text).findings.faults
    (.missingBlock markers.start ∈ faults ↔
        ∃ spliced, splice markers block content = .ok spliced ∧ spliced.replaced = false) ∧
      (∀ line, .unterminatedBlock markers.start markers.stop line ∈ faults ↔
        splice markers block content = .error line) ∧
      ∀ spliced, splice markers block content = .ok spliced → spliced.replaced = true →
        ∃ before removed after,
          content = before ++ removed ++ after ∧ spliced.text = before ++ block ++ after ∧
          text.toList = decodeLossy before ++ decodeLossy removed ++ decodeLossy after ∧
          locate markers (textBytes text) = .found (encode (decodeLossy before))
            (encode (decodeLossy removed)) (encode (decodeLossy after)) ∧
          faults = blockFaults catalog (decodeLossy removed) := by
  intro text faults
  have hfaults : faults = _ := configFaults_repaired catalog hstart hstop content
  have hlocate : locate markers (textBytes text) = (locate markers content).repaired := by
    have h := locate_repaired hstart hstop content
    rwa [MarkedBlock.repaired, ← String.toList_ofList (l := decodeLossy content)] at h
  unfold splice
  cases hfound : locate markers content with
  | absent =>
    rw [hfound] at hfaults
    rw [hfaults]
    refine ⟨?_, ?_, ?_⟩
    · exact iff_of_true List.mem_cons_self ⟨_, rfl, rfl⟩
    · intro line
      refine iff_of_false ?_ nofun
      rw [List.mem_singleton]
      exact nofun
    · intro spliced hspliced hreplaced
      cases hspliced
      cases hreplaced
  | unterminated before =>
    rw [hfound] at hfaults
    rw [hfaults]
    refine ⟨?_, ?_, nofun⟩
    · refine iff_of_false ?_ nofun
      rw [List.mem_singleton]
      exact nofun
    · intro line
      rw [List.mem_singleton, Fault.unterminatedBlock.injEq, Except.error.injEq]
      exact ⟨fun h => h.2.2.symm, fun h => ⟨rfl, rfl, h.symm⟩⟩
  | found before removed after =>
    rw [hfound] at hfaults hlocate
    -- what is found in a block is never that it is missing or open
    have habout : ∀ fault ∈ faults, AboutInputs fault := by
      rw [hfaults]
      exact aboutInputs_of_mem_blockFaults
    refine ⟨?_, ?_, ?_⟩
    · refine iff_of_false (fun h => habout _ h) ?_
      rintro ⟨spliced, hspliced, hreplaced⟩
      cases hspliced
      cases hreplaced
    · intro line
      exact iff_of_false (fun h => habout _ h) nofun
    · intro spliced hspliced _
      cases hspliced
      refine ⟨before, removed, after, locate_eq_append hfound, rfl, ?_, hlocate, hfaults⟩
      have htext := locate_eq_append hlocate
      unfold MarkedBlock.repaired at htext
      rw [← encode_append, ← encode_append] at htext
      exact encode_injective htext

/-- Invalid bytes stand before, in and behind the block, two of them directly before the end marker. -/
theorem checked_block_is_spliced_invalid :
    let markers : BlockMarkers := ⟨"#if", "#end"⟩
    let catalog : Catalog := ⟨.empty Sensor, .empty Application, .empty DisplayUnit⟩
    let content : Bytes := [0xB0, 10] ++ textBytes "#if\n" ++ [0xE2, 0x82] ++ textBytes "#end\r\n" ++ [0xFF]
    let text := String.ofList (decodeLossy content)
    Char.ofNat 0xFFFD ∉ markers.start.toList ∧ Char.ofNat 0xFFFD ∉ markers.stop.toList ∧
      splice markers (textBytes "new") content = .ok ⟨[0xB0, 10] ++ textBytes "new" ++ [0xFF], true⟩ ∧
      ∃ before removed after, content = before ++ removed ++ after ∧
        [0xB0, 10] ++ textBytes "new" ++ [0xFF] = before ++ textBytes "new" ++ after ∧
        text.toList = decodeLossy before ++ decodeLossy removed ++ decodeLossy after ∧
        locate markers (textBytes text) = .found (encode (decodeLossy before))
          (encode (decodeLossy removed)) (encode (decodeLossy after)) ∧
        (checkConfigBlock catalog markers text).findings.faults =
          blockFaults catalog (decodeLossy removed) := by
  intro markers catalog content text
  have hstart : Char.ofNat 0xFFFD ∉ markers.start.toList := by decide
  have hstop : Char.ofNat 0xFFFD ∉ markers.stop.toList := by decide
  have hsplice : splice markers (textBytes "new") content =
      .ok ⟨[0xB0, 10] ++ textBytes "new" ++ [0xFF], true⟩ := by
    simp only [markers, content, textBytes]
    rfl
  refine ⟨hstart, hstop, hsplice, ?_⟩
  exact (checked_block_is_spliced catalog markers hstart hstop content (textBytes "new")).2.2 _ hsplice rfl

end FirmwareCatalog.Validation
