import FirmwareCatalog.Json.Parser
import FirmwareCatalog.Proofs.Json.Number
import FirmwareCatalog.Proofs.Json.Text

/-!
# Written values read back

What is written for a value reads as the value again, except that the members of
objects come out in the order of a table. The induction is on the value; the fuel
that a value needs is twice the length of its text.
-/

namespace FirmwareCatalog.Json

open Text

mutual

/-- The value as it is read: the members of its objects in order, the last of those with one name. -/
def sorted : Json → Json
  | .null => .null
  | .bool value => .bool value
  | .number value => .number value
  | .string text => .string text
  | .array items => .array (sortedItems items)
  | .object members => .object (Table.ofList (sortedMembers members)).entries

def sortedItems : List Json → List Json
  | [] => []
  | item :: items => sorted item :: sortedItems items

def sortedMembers : List (String × Json) → List (String × Json)
  | [] => []
  | (name, value) :: members => (name, sorted value) :: sortedMembers members

end

theorem sortedItems_eq_map (items : List Json) : sortedItems items = items.map sorted := by
  induction items with
  | nil => rfl
  | cons item items ih => rw [sortedItems, ih, List.map_cons]

theorem sortedMembers_eq_map (members : List (String × Json)) :
    sortedMembers members = members.map fun m => (m.1, sorted m.2) := by
  induction members with
  | nil => rfl
  | cons m members ih => rw [sortedMembers, ih, List.map_cons]

/-- Values that nest at most `depth` levels, with numbers that read back. -/
inductive Readable : (depth : Nat) → Json → Prop
  | null {depth : Nat} : Readable depth .null
  | bool {depth : Nat} (value : Bool) : Readable depth (.bool value)
  | number {depth : Nat} {value : JsonNumber} (back : value.ReadsBack) : Readable depth (.number value)
  | string {depth : Nat} (text : String) : Readable depth (.string text)
  | array {depth : Nat} {items : List Json} (each : ∀ item ∈ items, Readable depth item) :
      Readable (depth + 1) (.array items)
  | object {depth : Nat} {members : List (String × Json)} (each : ∀ m ∈ members, Readable depth m.2) :
      Readable (depth + 1) (.object members)

/-! ## Spaces -/

theorem skipSpaces_cons {c : Char} (h : isSpace c = false) (cs : List Char) :
    skipSpaces (c :: cs) = c :: cs := by
  simp [skipSpaces, h]

theorem skipSpaces_append {ws : List Char} (h : ∀ c ∈ ws, isSpace c = true) (cs : List Char) :
    skipSpaces (ws ++ cs) = skipSpaces cs := by
  unfold skipSpaces
  rw [List.dropWhile_append_of_pos h]

theorem skipSpaces_skipSpaces (cs : List Char) : skipSpaces (skipSpaces cs) = skipSpaces cs := by
  induction cs with
  | nil => rfl
  | cons c cs ih =>
    by_cases hc : isSpace c = true
    · simpa [skipSpaces, hc] using ih
    · have plain : isSpace c = false := by simpa using hc
      rw [skipSpaces_cons plain, skipSpaces_cons plain]

theorem toList_indent (level : Nat) : (indent level).toList = '\n' :: List.replicate (2 * level) ' ' := by
  simp [indent]

theorem isSpace_of_mem_indent {level : Nat} : ∀ c ∈ (indent level).toList, isSpace c = true := by
  intro c hc
  rw [toList_indent] at hc
  rcases List.mem_cons.mp hc with rfl | hc
  · rfl
  · rw [List.eq_of_mem_replicate hc]
    rfl

theorem skipSpaces_indent (level : Nat) (cs : List Char) :
    skipSpaces ((indent level).toList ++ cs) = skipSpaces cs :=
  skipSpaces_append isSpace_of_mem_indent cs

theorem valueFrom_skipSpaces (fuel depth : Nat) (cs : List Char) :
    valueFrom fuel depth (skipSpaces cs) = valueFrom fuel depth cs := by
  cases fuel with
  | zero => rfl
  | succ fuel => rw [valueFrom, valueFrom, skipSpaces_skipSpaces]

theorem itemsFrom_skipSpaces (fuel depth : Nat) (cs : List Char) :
    itemsFrom fuel depth (skipSpaces cs) = itemsFrom fuel depth cs := by
  cases fuel with
  | zero => rfl
  | succ fuel => rw [itemsFrom, itemsFrom, valueFrom_skipSpaces]

theorem membersFrom_skipSpaces (fuel depth : Nat) (cs : List Char) :
    membersFrom fuel depth (skipSpaces cs) = membersFrom fuel depth cs := by
  cases fuel with
  | zero => rfl
  | succ fuel => rw [membersFrom, membersFrom, skipSpaces_skipSpaces]

theorem ends_indent (level : Nat) (cs : List Char) : JsonNumber.Ends ((indent level).toList ++ cs) := by
  rw [toList_indent]
  rintro c ⟨⟩
  decide

theorem ends_comma (cs : List Char) : JsonNumber.Ends (',' :: cs) := by
  rintro c ⟨⟩
  decide

/-! ## Scalars -/

/-- With fuel for its length, the text reads as the value, whatever follows that cannot go on with a number. -/
def ReadsAs (depth : Nat) (text : List Char) (json : Json) : Prop :=
  ∀ fuel rest, 2 * text.length ≤ fuel → JsonNumber.Ends rest →
    valueFrom fuel depth (text ++ rest) = some (json, rest)

variable {depth : Nat}

theorem readsAs_string (text : String) : ReadsAs depth (quoted text).toList (.string text) := by
  intro fuel rest hfuel _
  have quoted : (quoted text).toList = '"' :: (text.toList.flatMap JsonText.escape ++ ['"']) := by
    simp [Json.quoted, JsonText.quote]
  rw [quoted] at hfuel ⊢
  obtain ⟨fuel, rfl⟩ : ∃ k, fuel = k + 1 := ⟨fuel - 1, by simp at hfuel; omega⟩
  rw [List.cons_append, valueFrom, skipSpaces_cons rfl, List.append_assoc]
  simp [JsonText.read?_escaped]

theorem starts_number {c : Char} (h : c = '-' ∨ c.isDigit = true) :
    isSpace c = false ∧ c ≠ '"' ∧ c ≠ '[' ∧ c ≠ '\x7b' ∧ c ≠ 'n' ∧ c ≠ 't' ∧ c ≠ 'f' := by
  have other : ∀ d : Char, d ≠ '-' → d.isDigit = false → c ≠ d := by
    rintro d minus digit rfl
    rcases h with h | h
    · exact minus h
    · rw [digit] at h
      cases h
  refine ⟨?_, ?_, ?_, ?_, ?_, ?_, ?_⟩
  · simp [isSpace, other ' ', other '\t', other '\n', other '\r']
  all_goals exact other _ (by decide) (by decide)

theorem readsAs_number {n : JsonNumber} (h : n.ReadsBack) : ReadsAs depth n.render.toList (.number n) := by
  intro fuel rest hfuel ends
  obtain ⟨c, hc, first⟩ := JsonNumber.exists_head_of_read? h
  obtain ⟨cs, text⟩ := List.head?_eq_some_iff.mp hc
  have read := h.read?_append ends
  rw [text] at read hfuel ⊢
  obtain ⟨fuel, rfl⟩ : ∃ k, fuel = k + 1 := ⟨fuel - 1, by simp at hfuel; omega⟩
  obtain ⟨noSpace, h1, h2, h3, h4, h5, h6⟩ := starts_number first
  rw [List.cons_append, valueFrom, skipSpaces_cons noSpace]
  rw [List.cons_append] at read
  simp [h1, h2, h3, h4, h5, h6, read]

theorem readsAs_word {word : List Char} {c : Char} {json : Json} 
    (h : ∀ fuel cs, valueFrom (fuel + 1) depth (c :: cs) = (after? word cs).map fun cs => (json, cs)) :
    ReadsAs depth (c :: word) json := by
  intro fuel rest hfuel _
  obtain ⟨fuel, rfl⟩ : ∃ k, fuel = k + 1 := ⟨fuel - 1, by simp at hfuel; omega⟩
  rw [List.cons_append, h, after?_append]
  rfl

theorem readsAs_null : ReadsAs depth ['n', 'u', 'l', 'l'] .null :=
  readsAs_word fun fuel cs => by rw [valueFrom, skipSpaces_cons (by decide)]; simp

theorem readsAs_true : ReadsAs depth ['t', 'r', 'u', 'e'] (.bool true) :=
  readsAs_word fun fuel cs => by rw [valueFrom, skipSpaces_cons (by decide)]; simp

theorem readsAs_false : ReadsAs depth ['f', 'a', 'l', 's', 'e'] (.bool false) :=
  readsAs_word fun fuel cs => by rw [valueFrom, skipSpaces_cons (by decide)]; simp

/-! ## Arrays and objects -/

section

variable {level outer : Nat} {rest : List Char}

theorem itemsFrom_item {text behind : List Char} {item : Json} {fuel : Nat} (h : ReadsAs depth text item)
    (hfuel : 2 * text.length ≤ fuel) (ends : JsonNumber.Ends behind) :
    itemsFrom (fuel + 1) depth ((indent level).toList ++ (text ++ behind)) =
      match skipSpaces behind with
      | ',' :: cs => (itemsFrom fuel depth cs).map fun p => (item :: p.1, p.2)
      | ']' :: cs => some ([item], cs)
      | _ => none := by
  rw [itemsFrom, ← valueFrom_skipSpaces, skipSpaces_indent, valueFrom_skipSpaces, h fuel behind hfuel ends]
  rfl

theorem itemsFrom_pretty {items : List Json} (written : items ≠ [])
    (each : ∀ item ∈ items, ReadsAs depth (prettyAt level item).toList (sorted item)) :
    ∀ fuel, 2 * (prettyItems level items).toList.length ≤ fuel →
      itemsFrom fuel depth ((prettyItems level items).toList ++ ((indent outer).toList ++ ']' :: rest)) =
        some (items.map sorted, rest) := by
  induction items with
  | nil => exact absurd rfl written
  | cons item items ih =>
    intro fuel hfuel
    obtain ⟨first, others⟩ := List.forall_mem_cons.mp each
    cases items with
    | nil =>
      have text : (prettyItems level [item]).toList =
          (indent level).toList ++ (prettyAt level item).toList := by
        simp [prettyItems]
      -- two steps for each character leave fuel for the item and for what follows it
      rw [text] at hfuel ⊢
      obtain ⟨fuel, rfl⟩ : ∃ k, fuel = k + 1 := ⟨fuel - 1, by simp [toList_indent] at hfuel; omega⟩
      rw [List.append_assoc, itemsFrom_item first (by simp [toList_indent] at hfuel; omega) (ends_indent _ _),
        skipSpaces_indent, skipSpaces_cons (by decide)]
      rfl
    | cons next items =>
      have text : (prettyItems level (item :: next :: items)).toList = (indent level).toList ++
          ((prettyAt level item).toList ++ (',' :: (prettyItems level (next :: items)).toList)) := by
        simp [prettyItems]
      rw [text] at hfuel ⊢
      obtain ⟨fuel, rfl⟩ : ∃ k, fuel = k + 1 := ⟨fuel - 1, by simp [toList_indent] at hfuel; omega⟩
      simp only [List.append_assoc, List.cons_append]
      rw [itemsFrom_item first (by simp [toList_indent] at hfuel; omega) (ends_comma _),
        skipSpaces_cons (by decide)]
      simp only
      rw [ih (by simp) others fuel (by simp [toList_indent] at hfuel; omega)]
      rfl

def memberThen (fuel depth : Nat) (m : String × Json) (behind : List Char) :
    Option (List (String × Json) × List Char) :=
  match skipSpaces behind with
  | ',' :: cs => (membersFrom fuel depth cs).map fun p => (m :: p.1, p.2)
  | '\x7d' :: cs => some ([m], cs)
  | _ => none

theorem membersFrom_member {text behind : List Char} {name : String} {value : Json} {fuel : Nat}
    (h : ReadsAs depth text value) (hfuel : 2 * text.length ≤ fuel) (ends : JsonNumber.Ends behind) :
    membersFrom (fuel + 1) depth
        ((indent level).toList ++ ((quoted name).toList ++ (':' :: ' ' :: (text ++ behind)))) =
      memberThen fuel depth (name, value) behind := by
  have quote : (quoted name).toList = '"' :: (name.toList.flatMap JsonText.escape ++ ['"']) := by
    simp [quoted, JsonText.quote]
  have spaced : valueFrom fuel depth (' ' :: (text ++ behind)) = some (value, behind) := by
    have space : skipSpaces (' ' :: (text ++ behind)) = skipSpaces (text ++ behind) := rfl
    rw [← valueFrom_skipSpaces, space, valueFrom_skipSpaces, h fuel behind hfuel ends]
  rw [membersFrom, skipSpaces_indent, quote, List.cons_append, List.append_assoc, skipSpaces_cons (by decide)]
  simp only [after?, ↓reduceIte, List.cons_append, List.nil_append, Option.bind_eq_bind, Option.bind_some,
    JsonText.read?_escaped, String.ofList_toList, skipSpaces_cons (show isSpace ':' = false by decide), spaced]
  rfl

theorem membersFrom_pretty {members : List (String × Json)} (written : members ≠ [])
    (each : ∀ m ∈ members, ReadsAs depth (prettyAt level m.2).toList (sorted m.2)) :
    ∀ fuel, 2 * (prettyMembers level members).toList.length ≤ fuel →
      membersFrom fuel depth
          ((prettyMembers level members).toList ++ ((indent outer).toList ++ '\x7d' :: rest)) =
        some (members.map fun m => (m.1, sorted m.2), rest) := by
  induction members with
  | nil => exact absurd rfl written
  | cons m members ih =>
    intro fuel hfuel
    obtain ⟨name, value⟩ := m
    obtain ⟨first, others⟩ := List.forall_mem_cons.mp each
    have first : ReadsAs depth (prettyAt level value).toList (sorted value) := first
    cases members with
    | nil =>
      have text : (prettyMembers level [(name, value)]).toList = (indent level).toList ++
          ((quoted name).toList ++ (':' :: ' ' :: (prettyAt level value).toList)) := by
        simp [prettyMembers]
      rw [text] at hfuel ⊢
      obtain ⟨fuel, rfl⟩ : ∃ k, fuel = k + 1 := ⟨fuel - 1, by simp [toList_indent] at hfuel; omega⟩
      simp only [List.append_assoc, List.cons_append]
      rw [membersFrom_member first (by simp [toList_indent] at hfuel; omega) (ends_indent _ _), memberThen,
        skipSpaces_indent, skipSpaces_cons (by decide)]
      rfl
    | cons next members =>
      have text : (prettyMembers level ((name, value) :: next :: members)).toList = (indent level).toList ++
          ((quoted name).toList ++ (':' :: ' ' :: ((prettyAt level value).toList ++
            (',' :: (prettyMembers level (next :: members)).toList)))) := by
        simp [prettyMembers]
      rw [text] at hfuel ⊢
      obtain ⟨fuel, rfl⟩ : ∃ k, fuel = k + 1 := ⟨fuel - 1, by simp [toList_indent] at hfuel; omega⟩
      simp only [List.append_assoc, List.cons_append]
      rw [membersFrom_member first (by simp [toList_indent] at hfuel; omega) (ends_comma _), memberThen,
        skipSpaces_cons (by decide)]
      simp only
      rw [ih (by simp) others fuel (by simp [toList_indent] at hfuel; omega)]
      rfl

end

theorem itemsFrom_closed (fuel depth : Nat) (cs : List Char) : itemsFrom fuel depth (']' :: cs) = none := by
  have noNumber : JsonNumber.read? (']' :: cs) = none := by
    cases h : JsonNumber.read? (']' :: cs) with
    | none => rfl
    | some p =>
      obtain ⟨c, hc, first⟩ := JsonNumber.exists_head_of_read? h
      cases hc
      exact absurd first (by decide)
  have noValue (fuel : Nat) : valueFrom fuel depth (']' :: cs) = none := by
    cases fuel with
    | zero => rfl
    | succ fuel =>
      rw [valueFrom, skipSpaces_cons (by decide)]
      simp [noNumber]
  cases fuel with
  | zero => rfl
  | succ fuel =>
    rw [itemsFrom, noValue]
    rfl

theorem membersFrom_closed (fuel depth : Nat) (cs : List Char) :
    membersFrom fuel depth ('\x7d' :: cs) = none := by
  cases fuel with
  | zero => rfl
  | succ fuel =>
    rw [membersFrom, skipSpaces_cons (by decide)]
    rfl

theorem valueFrom_array {fuel : Nat} {cs rest : List Char} {items : List Json}
    (h : itemsFrom fuel depth cs = some (items, rest)) :
    valueFrom (fuel + 1) (depth + 1) ('[' :: cs) = some (.array items, rest) := by
  rw [← itemsFrom_skipSpaces] at h
  rw [valueFrom, skipSpaces_cons (by decide)]
  simp only [↓reduceIte, show ¬ '[' = '"' by decide]
  split
  case h_1 zero => cases zero
  case h_2 closed =>
    rw [closed, itemsFrom_closed] at h
    cases h
  case h_3 same _ =>
    cases same
    rw [h]
    rfl

theorem valueFrom_object {fuel : Nat} {cs rest : List Char} {members : List (String × Json)}
    (h : membersFrom fuel depth cs = some (members, rest)) :
    valueFrom (fuel + 1) (depth + 1) ('\x7b' :: cs) = some (.object (Table.ofList members).entries, rest) := by
  rw [← membersFrom_skipSpaces] at h
  rw [valueFrom, skipSpaces_cons (by decide)]
  simp only [↓reduceIte, show ¬ '\x7b' = '"' by decide, show ¬ '\x7b' = '[' by decide]
  split
  case h_1 zero => cases zero
  case h_2 closed =>
    rw [closed, membersFrom_closed] at h
    cases h
  case h_3 same _ =>
    cases same
    rw [h]
    rfl

theorem readsAs_array {items : List Json} {level : Nat}
    (each : ∀ item ∈ items, ReadsAs depth (prettyAt (level + 1) item).toList (sorted item)) :
    ReadsAs (depth + 1) (prettyAt level (.array items)).toList (sorted (.array items)) := by
  intro fuel rest hfuel _
  cases items with
  | nil =>
    obtain ⟨fuel, rfl⟩ : ∃ k, fuel = k + 1 := ⟨fuel - 1, by simp [prettyAt] at hfuel; omega⟩
    rw [show (prettyAt level (.array [])).toList = ['[', ']'] by simp [prettyAt]]
    simp only [List.cons_append, List.nil_append]
    rw [valueFrom, skipSpaces_cons (by decide)]
    simp [skipSpaces_cons (show isSpace ']' = false by decide), sorted, sortedItems]
  | cons item items =>
    have text : (prettyAt level (.array (item :: items))).toList =
        '[' :: ((prettyItems (level + 1) (item :: items)).toList ++ ((indent level).toList ++ [']'])) := by
      simp [prettyAt]
    rw [text] at hfuel ⊢
    obtain ⟨fuel, rfl⟩ : ∃ k, fuel = k + 1 := ⟨fuel - 1, by simp at hfuel; omega⟩
    simp only [List.append_assoc, List.cons_append, List.nil_append]
    rw [sorted, sortedItems_eq_map]
    exact valueFrom_array (itemsFrom_pretty (by simp) each fuel (by simp at hfuel ⊢; omega))

theorem readsAs_object {members : List (String × Json)} {level : Nat}
    (each : ∀ m ∈ members, ReadsAs depth (prettyAt (level + 1) m.2).toList (sorted m.2)) :
    ReadsAs (depth + 1) (prettyAt level (.object members)).toList (sorted (.object members)) := by
  intro fuel rest hfuel _
  cases members with
  | nil =>
    obtain ⟨fuel, rfl⟩ : ∃ k, fuel = k + 1 := ⟨fuel - 1, by simp [prettyAt] at hfuel; omega⟩
    rw [show (prettyAt level (.object [])).toList = ['\x7b', '\x7d'] by simp [prettyAt]]
    simp only [List.cons_append, List.nil_append]
    rw [valueFrom, skipSpaces_cons (by decide)]
    simp [skipSpaces_cons (show isSpace '\x7d' = false by decide), sorted, sortedMembers]
    rfl
  | cons m members =>
    have text : (prettyAt level (.object (m :: members))).toList =
        '\x7b' :: ((prettyMembers (level + 1) (m :: members)).toList ++
          ((indent level).toList ++ ['\x7d'])) := by
      simp [prettyAt]
    rw [text] at hfuel ⊢
    obtain ⟨fuel, rfl⟩ : ∃ k, fuel = k + 1 := ⟨fuel - 1, by simp at hfuel; omega⟩
    simp only [List.append_assoc, List.cons_append, List.nil_append]
    rw [sorted, sortedMembers_eq_map]
    exact valueFrom_object (membersFrom_pretty (by simp) each fuel (by simp at hfuel ⊢; omega))

theorem Readable.readsAs_pretty {json : Json} (h : Readable depth json) :
    ∀ level, ReadsAs depth (prettyAt level json).toList (sorted json) := by
  induction h with
  | null =>
    intro level
    simpa [prettyAt, sorted] using readsAs_null
  | bool value =>
    intro level
    cases value
    · simpa [prettyAt, sorted] using readsAs_false
    · simpa [prettyAt, sorted] using readsAs_true
  | number back =>
    intro level
    simpa [prettyAt, sorted] using readsAs_number back
  | string text =>
    intro level
    simpa [prettyAt, sorted] using readsAs_string text
  | array _ ih => exact fun level => readsAs_array fun item hitem => ih item hitem (level + 1)
  | object _ ih => exact fun level => readsAs_object fun m hm => ih m hm (level + 1)

theorem parse?_pretty {json : Json} (h : Readable maxDepth json) :
    parse? (pretty json ++ "\n") = some (sorted json) := by
  have text : (pretty json ++ "\n").toList = (prettyAt 0 json).toList ++ ['\n'] := by simp [pretty]
  have ends : JsonNumber.Ends ['\n'] := by
    rintro c ⟨⟩
    decide
  have read :=
    h.readsAs_pretty 0 (2 * ((prettyAt 0 json).toList ++ ['\n']).length + 2) ['\n'] (by simp; omega) ends
  unfold parse?
  rw [text]
  simp only [read]
  rfl

end FirmwareCatalog.Json
