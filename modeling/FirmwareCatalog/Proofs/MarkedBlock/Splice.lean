import FirmwareCatalog.Proofs.MarkedBlock.Location

/-!
# The last block spliced stands

A block that is spliced into a text is found there again, with the text around
it as before; so of several blocks spliced one after the other only the last
one is left.
-/

namespace FirmwareCatalog.MarkedBlock

/-- A block between its markers, the end marker standing at its end only. -/
def Delimited (markers : BlockMarkers) (block : Bytes) : Prop :=
  ∃ inner, block = textBytes markers.start ++ inner ++ textBytes markers.stop ++ [newline] ∧
    ∀ k < inner.length, ¬ textBytes markers.stop <+: (inner ++ textBytes markers.stop ++
      [newline]).drop k

def spliceEach (markers : BlockMarkers) : List Bytes → Bytes → Except Nat Bytes
  | [], text => .ok text
  | block :: blocks, text =>
    match splice markers block text with
    | .error line => .error line
    | .ok spliced => spliceEach markers blocks spliced.text

/-- What a splice leaves before and behind its block. -/
def surroundings? (markers : BlockMarkers) (text : Bytes) : Option (Bytes × Bytes) :=
  match locate markers text with
  | .found before _ after => some (before, after)
  | .unterminated _ => none
  | .absent => some (text ++ separator text, [])

theorem notMem_newline_textBytes {s : String} (h : '\n' ∉ s.toList) : newline ∉ textBytes s :=
  fun hn => h (Utf8.mem_encode_of_lt hn (by decide))

/-! ## The separator -/

theorem mem_separator {text : Bytes} {b : UInt8} (hb : b ∈ separator text) : b = newline := by
  unfold separator at hb
  split at hb
  · cases hb
  · split at hb <;> simpa using hb

theorem atLineStart_separator (text : Bytes) : AtLineStart true (text ++ separator text) := by
  unfold separator
  split
  · rename_i h
    rw [List.isEmpty_iff.mp h]
    exact (atLineStart_nil true).mpr rfl
  · split
    · exact .inr (by simp)
    · exact .inr (by simp)

theorem separator_eq_nil_iff (text : Bytes) : separator text = [] ↔ text = [] := by
  unfold separator
  split
  · rename_i h; simpa using h
  · rename_i h
    refine iff_of_false ?_ (by simpa using h)
    split <;> simp

theorem drop_separator (text rest : Bytes) {k : Nat} (hk : k < (separator text).length) :
    ∃ rest', (separator text ++ rest).drop k = newline :: rest' := by
  have hget := List.drop_eq_getElem_cons (l := separator text ++ rest) (i := k)
    (by rw [List.length_append]; exact Nat.lt_add_right _ hk)
  rw [List.getElem_append_left hk] at hget
  exact ⟨_, hget.trans (by rw [mem_separator (List.getElem_mem hk)])⟩

variable {markers : BlockMarkers}

/-! ## Whole lines keep their starts -/

section
variable (hm : newline ∉ textBytes markers.start)
include hm

theorem noStartWithin_replace {before rest rest' : Bytes} (hline : AtLineStart true before)
    (h : NoStartWithin markers before.length (before ++ rest)) :
    NoStartWithin markers before.length (before ++ rest') := by
  intro k hk hline'
  refine notPrefix_of_wholeLines hm hline hk (h k hk ?_)
  rw [List.take_append_of_le_length (Nat.le_of_lt hk)] at hline' ⊢
  exact hline'

theorem noStartWithin_separator {text : Bytes} (h : NoStartWithin markers text.length text)
    (rest : Bytes) :
    NoStartWithin markers (text ++ separator text).length (text ++ separator text ++ rest) := by
  intro k hk hline hp
  rw [List.append_assoc] at hline hp
  rcases Nat.lt_or_ge k text.length with hlt | hge
  · rw [List.take_append_of_le_length (Nat.le_of_lt hlt)] at hline
    rw [List.drop_append_of_le_length (Nat.le_of_lt hlt)] at hp
    have hsep : separator text ≠ [] := fun he => by
      rw [(separator_eq_nil_iff text).mp he] at hlt
      exact absurd hlt (Nat.not_lt_zero k)
    obtain ⟨rest', hrest'⟩ := drop_separator text rest (List.length_pos_of_ne_nil hsep)
    rw [List.drop_zero] at hrest'
    rw [hrest'] at hp
    exact h k hlt hline (Text.prefix_of_prefix_append_cons hm hp)
  · -- only the empty marker stands at a line end, and it would stand at the start of the text
    have hk' : k - text.length < (separator text).length := by rw [List.length_append] at hk; omega
    rw [List.drop_append, List.drop_of_length_le hge, List.nil_append] at hp
    obtain ⟨rest', hrest'⟩ := drop_separator text rest hk'
    rw [hrest'] at hp
    have hempty := List.prefix_nil.mp (Text.prefix_of_prefix_append_cons hm (a := []) hp)
    have htext : text ≠ [] := fun he => by
      rw [(separator_eq_nil_iff text).mpr he] at hk'
      exact absurd hk' (Nat.not_lt_zero _)
    refine h 0 (List.length_pos_of_ne_nil htext) ((atLineStart_nil true).mpr rfl) ?_
    rw [hempty]
    exact List.nil_prefix

theorem surroundings?_lines {text before after : Bytes}
    (h : surroundings? markers text = some (before, after)) :
    AtLineStart true before ∧ ∀ rest, NoStartWithin markers before.length (before ++ rest) := by
  unfold surroundings? at h
  rcases locate_cases hm text with ⟨hloc, hfirst⟩ | ⟨before', rest, hloc, -⟩ |
      ⟨before', inner, rest, hloc, htext, hline, hfirst, -⟩
  · rw [hloc] at h
    simp only [Option.some.injEq, Prod.mk.injEq] at h
    obtain ⟨rfl, rfl⟩ := h
    exact ⟨atLineStart_separator text, noStartWithin_separator hm hfirst⟩
  · rw [hloc] at h
    cases h
  · rw [hloc] at h
    simp only [Option.some.injEq, Prod.mk.injEq] at h
    obtain ⟨rfl, rfl⟩ := h
    refine ⟨hline, fun rest' => ?_⟩
    rw [htext, List.append_assoc, List.append_assoc, List.append_assoc] at hfirst
    exact noStartWithin_replace hm hline hfirst

/-- A delimited block is found in the surroundings that a splice has left. -/
theorem locate_spliced {text before after block : Bytes}
    (h : surroundings? markers text = some (before, after))
    (hb : Delimited markers block) :
    locate markers (before ++ block ++ after) = .found before block after := by
  obtain ⟨hline, hfirst⟩ := surroundings?_lines hm h
  obtain ⟨inner, rfl, hstop⟩ := hb
  have hstop' : ∀ k < inner.length,
      ¬ textBytes markers.stop <+: (inner ++ textBytes markers.stop ++ newline :: after).drop k := by
    -- the end marker ends before the text behind the block begins
    intro k hk hp
    have hk' : k ≤ (inner ++ textBytes markers.stop).length := by rw [List.length_append]; omega
    refine hstop k hk ?_
    rw [List.drop_append_of_le_length hk'] at hp ⊢
    refine (List.prefix_of_prefix_length_le hp (List.prefix_append _ _) ?_).trans
      (List.prefix_append _ _)
    rw [List.length_drop, List.length_append]
    omega
  have hfirst' :=
    hfirst (textBytes markers.start ++ (inner ++ (textBytes markers.stop ++ newline :: after)))
  have hfound :=
    locate_eq_found hm hline (by simpa only [List.append_assoc] using hfirst') hstop' (by simp)
  simpa [splitLineEnd, newline] using hfound

end

/-! ## Splicing -/

theorem splice_of_surroundings? {text before after : Bytes}
    (h : surroundings? markers text = some (before, after))
    (block : Bytes) :
    ∃ replaced, splice markers block text = .ok ⟨before ++ block ++ after, replaced⟩ := by
  unfold surroundings? at h
  unfold splice
  cases hloc : locate markers text with
  | found before' old after' =>
    rw [hloc] at h
    cases h
    exact ⟨true, rfl⟩
  | unterminated before' =>
    rw [hloc] at h
    cases h
  | absent =>
    rw [hloc] at h
    cases h
    exact ⟨false, by simp⟩

theorem exists_surroundings?_of_splice {text block : Bytes} {spliced : Spliced}
    (h : splice markers block text = .ok spliced) :
    ∃ before after, surroundings? markers text = some (before, after) ∧ spliced.text = before ++
      block ++ after := by
  unfold splice at h
  unfold surroundings?
  cases hloc : locate markers text with
  | found before old after =>
    rw [hloc] at h
    cases h
    exact ⟨before, after, rfl, rfl⟩
  | unterminated before =>
    rw [hloc] at h
    cases h
  | absent =>
    rw [hloc] at h
    cases h
    exact ⟨_, _, rfl, (List.append_nil _).symm⟩

theorem splice_eq_error_iff (block text : Bytes) (line : Nat) :
    splice markers block text = .error line ↔
      ∃ before, locate markers text = .unterminated before ∧ line = lineBehind before := by
  unfold splice
  cases locate markers text <;> simp [eq_comm]

theorem splice_spliced (hm : newline ∉ textBytes markers.start) {text before after block : Bytes}
    (h : surroundings? markers text = some (before, after)) (hb : Delimited markers block)
    (block' : Bytes) :
    splice markers block' (before ++ block ++ after) = .ok ⟨before ++ block' ++ after, true⟩ := by
  rw [splice, locate_spliced hm h hb]

theorem exists_splice_spliced (hm : newline ∉ textBytes markers.start) {text block : Bytes}
    (hb : Delimited markers block)
    {spliced : Spliced} (h : splice markers block text = .ok spliced) (block' : Bytes) :
    ∃ spliced', splice markers block' spliced.text = .ok spliced' := by
  obtain ⟨before, after, hsurroundings, hspliced⟩ := exists_surroundings?_of_splice h
  exact ⟨_, hspliced ▸ splice_spliced hm hsurroundings hb block'⟩

theorem spliceEach_eq_splice_getLast (hm : newline ∉ textBytes markers.start) {blocks : List Bytes}
    (hb : ∀ b ∈ blocks, Delimited markers b) : ∀ (hne : blocks ≠ []) {text : Bytes},
    spliceEach markers blocks text = (splice markers (blocks.getLast hne) text).map Spliced.text := by
  induction blocks with
  | nil => exact fun hne => absurd rfl hne
  | cons block blocks ih =>
    intro hne text
    rw [spliceEach]
    cases hs : splice markers block text with
    | error line =>
      obtain ⟨before, hloc, rfl⟩ := (splice_eq_error_iff block text line).mp hs
      rw [(splice_eq_error_iff _ text _).mpr ⟨before, hloc, rfl⟩]
      rfl
    | ok spliced =>
      obtain ⟨before, after, hsur, hspliced⟩ := exists_surroundings?_of_splice hs
      simp only
      cases blocks with
      | nil =>
        rw [spliceEach, List.getLast_singleton, hs]
        rfl
      | cons block' blocks =>
        rw [ih (fun b hb' => hb b (List.mem_cons_of_mem _ hb')) (List.cons_ne_nil _ _), hspliced,
          List.getLast_cons (List.cons_ne_nil _ _),
            splice_spliced hm hsur (hb block List.mem_cons_self)]
        obtain ⟨replaced, hlast⟩ :=
          splice_of_surroundings? hsur ((block' :: blocks).getLast (List.cons_ne_nil _ _))
        rw [hlast]
        rfl

/-- What a splice leaves around its block is what stood around the old one, or the text and line feeds. -/
theorem surroundings?_cases (hm : newline ∉ textBytes markers.start) {text before after : Bytes}
    (h : surroundings? markers text = some (before, after)) :
    (∃ old, locate markers text = .found before old after ∧ text = before ++ old ++ after) ∨
      (locate markers text = .absent ∧ after = [] ∧
        ∃ gap, before = text ++ gap ∧ ∀ b ∈ gap, b = newline) := by
  unfold surroundings? at h
  rcases locate_cases hm text with ⟨hloc, -⟩ | ⟨before', rest, hloc, -⟩ | ⟨before', inner, rest,
    hloc, htext, -⟩
  · rw [hloc] at h
    cases h
    exact .inr ⟨hloc, rfl, separator text, rfl, fun _ => mem_separator⟩
  · rw [hloc] at h
    cases h
  · rw [hloc] at h
    cases h
    refine .inl ⟨_, hloc, ?_⟩
    simp only [htext, List.append_assoc, splitLineEnd_append]

/-- **The last block spliced stands.** Whether a splice fails depends on the text alone. A delimited block is found
where it was spliced, between what stood around the old one; a block spliced after it gives the text that this
block alone would have given, so of a run of blocks only the last counts, and the same block changes nothing. -/
theorem splice_last_stands (markers : BlockMarkers) (hstart : '\n' ∉ markers.start.toList)
    (text block : Bytes)
    (hblock : Delimited markers block) :
    (∀ block' line, splice markers block text = .error line ↔ splice markers block' text =
      .error line) ∧
      (∀ spliced, splice markers block text = .ok spliced → ∃ before after,
        locate markers spliced.text = .found before block after ∧ spliced.text = before ++
          block ++ after ∧
          ((∃ old, locate markers text = .found before old after ∧ text = before ++ old ++ after) ∨
            (locate markers text = .absent ∧ after = [] ∧ ∃ gap, before = text ++ gap ∧
              ∀ b ∈ gap, b = newline)) ∧
          (∀ block', Delimited markers block' → ∃ replaced,
            splice markers block' text = .ok ⟨before ++ block' ++ after, replaced⟩ ∧
              splice markers block' spliced.text = .ok ⟨before ++ block' ++ after, true⟩) ∧
          splice markers block spliced.text = .ok ⟨spliced.text, true⟩) ∧
      ∀ (blocks : List Bytes) (hne : blocks ≠ []), (∀ b ∈ blocks, Delimited markers b) →
        spliceEach markers blocks text =
          (splice markers (blocks.getLast hne) text).map Spliced.text := by
  have hm := notMem_newline_textBytes hstart
  refine ⟨fun block' line => ?_, fun spliced hs => ?_,
    fun blocks hne hb => spliceEach_eq_splice_getLast hm hb hne⟩
  · rw [splice_eq_error_iff, splice_eq_error_iff]
  · obtain ⟨before, after, hsur, hspliced⟩ := exists_surroundings?_of_splice hs
    rw [hspliced]
    refine ⟨before, after, locate_spliced hm hsur hblock, rfl, surroundings?_cases hm hsur,
      fun block' _ => ?_,
      splice_spliced hm hsur hblock block⟩
    obtain ⟨replaced, hok⟩ := splice_of_surroundings? hsur block'
    exact ⟨replaced, hok, splice_spliced hm hsur hblock block'⟩

/-- Two blocks in the place of an older one between lines that end in carriage return and line feed. -/
theorem splice_last_stands_crlf :
    let markers : BlockMarkers := ⟨"#if", "#end"⟩
    let text := textBytes "// a\r\n#if\r\nold\r\n#end\r\n// z"
    let first := textBytes "#if 1\n#end\n"
    let second := textBytes "#if 2\n#end\n"
    '\n' ∉ markers.start.toList ∧ Delimited markers first ∧ Delimited markers second ∧
      spliceEach markers [first, second] text = (splice markers second text).map Spliced.text := by
  intro markers text first second
  have hstart : '\n' ∉ markers.start.toList := by decide
  have hfirst : Delimited markers first := ⟨textBytes " 1\n", by decide, by decide⟩
  have hsecond : Delimited markers second := ⟨textBytes " 2\n", by decide, by decide⟩
  refine ⟨hstart, hfirst, hsecond, ?_⟩
  refine (splice_last_stands markers hstart text first hfirst).2.2 [first,
    second] (List.cons_ne_nil _ _) ?_
  simp only [List.mem_cons, List.not_mem_nil, or_false, forall_eq_or_imp, forall_eq]
  exact ⟨hfirst, hsecond⟩

end FirmwareCatalog.MarkedBlock
