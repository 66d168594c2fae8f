import FirmwareCatalog.Proofs.Header.StringMacro
import FirmwareCatalog.Proofs.Table
import FirmwareCatalog.Proofs.Text.Cut

/-!
# Adjacent literals

Each of several literals is decoded on its own, and their texts are joined. That
is the text of the one literal with all their bodies exactly if no cut between
two of them stands inside a character. String macros read their literals in the
same way.
-/

namespace FirmwareCatalog.Header

open Character

/-! ## Bodies -/

/-- Whole escapes and ordinary characters; a `\x` has its two digits. -/
inductive IsBody : List Char → Prop
  | nil : IsBody []
  | ordinary {c : Char} {body : List Char} (notQuote : c ≠ '"') (notBackslash : c ≠ '\\') (rest : IsBody body) :
      IsBody (c :: body)
  | escape {c : Char} {body : List Char} (notHex : c ≠ 'x') (notEnd : c ≠ '\n') (rest : IsBody body) :
      IsBody ('\\' :: c :: body)
  | hex {c d : Char} {body : List Char} (high : (hexValue? c).isSome = true) (low : (hexValue? d).isSome = true)
      (rest : IsBody body) : IsBody ('\\' :: 'x' :: c :: d :: body)

theorem IsBody.append {a b : List Char} (ha : IsBody a) (hb : IsBody b) : IsBody (a ++ b) := by
  induction ha with
  | nil => exact hb
  | ordinary notQuote notBackslash _ ih => exact .ordinary notQuote notBackslash ih
  | escape notHex notEnd _ ih => exact .escape notHex notEnd ih
  | hex high low _ ih => exact .hex high low ih

theorem isBody_flatten {bodies : List (List Char)} (h : ∀ body ∈ bodies, IsBody body) : IsBody bodies.flatten := by
  induction bodies with
  | nil => exact .nil
  | cons body bodies ih =>
    rw [List.forall_mem_cons] at h
    exact h.1.append (ih h.2)

theorem literalBytesFrom_append {a : List Char} (ha : IsBody a) (b : List Char) :
    literalBytesFrom .none (a ++ b) = literalBytesFrom .none a ++ literalBytesFrom .none b := by
  induction ha with
  | nil => rfl
  | ordinary _ notBackslash _ ih => simp [literalBytesFrom, notBackslash, ih]
  | @escape c _ notHex _ _ ih => cases hbyte : escapeByte? c <;> simp [literalBytesFrom, notHex, hbyte, ih]
  | hex high low _ ih =>
    obtain ⟨v, hv⟩ := Option.isSome_iff_exists.mp high
    obtain ⟨w, hw⟩ := Option.isSome_iff_exists.mp low
    simp [literalBytesFrom, hv, hw, ih]

def spelledBytes (bodies : List (List Char)) : Bytes := bodies.flatMap (literalBytesFrom .none)

theorem literalBytesFrom_flatten {bodies : List (List Char)} (h : ∀ body ∈ bodies, IsBody body) :
    literalBytesFrom .none bodies.flatten = spelledBytes bodies := by
  induction bodies with
  | nil => rfl
  | cons body bodies ih =>
    rw [List.forall_mem_cons] at h
    rw [List.flatten_cons, literalBytesFrom_append h.1, ih h.2, spelledBytes, spelledBytes, List.flatMap_cons]

theorem ne_of_hexValue? {c d : Char} (h : (hexValue? c).isSome = true) (hd : hexValue? d = none) : c ≠ d := by
  rintro rfl
  rw [hd] at h
  cases h

theorem literalBody?_body {body : List Char} (h : IsBody body) (rest : List Char) :
    literalBody? false (body ++ '"' :: rest) = some (body, rest) := by
  induction h with
  | nil => simp [literalBody?]
  | ordinary notQuote notBackslash _ ih => simp [literalBody?, notQuote, notBackslash, ih]
  | escape _ notEnd _ ih => simp [literalBody?, notEnd, ih]
  | hex high low _ ih =>
    have hquote : hexValue? '"' = none := by decide
    have hbackslash : hexValue? '\\' = none := by decide
    simp [literalBody?, ne_of_hexValue? high hquote, ne_of_hexValue? high hbackslash,
      ne_of_hexValue? low hquote, ne_of_hexValue? low hbackslash, ih]

/-! ## Literals behind each other -/

def quoted (body : List Char) : List Char := '"' :: (body ++ ['"'])

/-- A literal and others behind it, each with the blanks in front of it. -/
def adjacent (first : List Char) (others : List (List Char × List Char)) : List Char :=
  quoted first ++ others.flatMap fun (blanks, body) => blanks ++ quoted body

def IsAdjacent (first : List Char) (others : List (List Char × List Char)) : Prop :=
  IsBody first ∧ ∀ p ∈ others, (∀ c ∈ p.1, isBlank c = true) ∧ IsBody p.2

theorem literals_adjacent {tail : List Char} (hblank : StopsAt isBlank tail) (hquote : tail.head? ≠ some '"') :
    ∀ (others : List (List Char × List Char)) {first : List Char}, IsAdjacent first others →
      literals (adjacent first others ++ tail) = (first :: others.map (·.2), tail)
  | [], first, h => by
    have hbody := literalBody?_body h.1 tail
    have htail : literals tail = ([], tail) := literals_of_ne fun rest hrest => hquote (by rw [hrest]; rfl)
    have htext : adjacent first [] ++ tail = '"' :: (first ++ '"' :: tail) := by simp [adjacent, quoted]
    rw [htext, literals_quote hbody, skipBlanks_of_stopsAt hblank, htail]
    rfl
  | (blanks, body) :: others, first, h => by
    obtain ⟨hfirst, hothers⟩ := h
    rw [List.forall_mem_cons] at hothers
    have ih := literals_adjacent hblank hquote others ⟨hothers.1.2, hothers.2⟩
    have hbody := literalBody?_body hfirst (blanks ++ (adjacent body others ++ tail))
    have hstops : StopsAt isBlank (adjacent body others ++ tail) := by
      rw [adjacent, quoted, List.cons_append, List.cons_append, stopsAt_cons]
      decide
    have htext : adjacent first ((blanks, body) :: others) ++ tail =
        '"' :: (first ++ '"' :: (blanks ++ (adjacent body others ++ tail))) := by simp [adjacent, quoted]
    rw [htext, literals_quote hbody, skipBlanks_append hothers.1.1 hstops, ih]
    rfl

theorem getLast?_adjacent : ∀ (others : List (List Char × List Char)) (first : List Char),
    (adjacent first others).getLast? = some '"'
  | [], first => by
    have htext : adjacent first [] = ('"' :: first) ++ ['"'] := by simp [adjacent, quoted]
    rw [htext, List.getLast?_concat]
  | (blanks, body) :: others, first => by
    have ih := getLast?_adjacent others body
    have htext : adjacent first ((blanks, body) :: others) = (quoted first ++ blanks) ++ adjacent body others := by
      simp [adjacent]
    have hne : adjacent body others ≠ [] := by simp [adjacent, quoted]
    rw [htext, List.getLast?_append_of_ne_nil _ hne, ih]

theorem stringValue?_adjacent {first : List Char} {others : List (List Char × List Char)}
    (h : IsAdjacent first others) :
    stringValue? (adjacent first others) = some (joinLiterals (first :: others.map (·.2))) := by
  have hstops : StopsAt isBlank (adjacent first others) := by
    rw [adjacent, quoted, List.cons_append, stopsAt_cons]
    decide
  have hlast : ∀ c ∈ (adjacent first others).getLast?, isBlank c = false := by
    rw [getLast?_adjacent]
    rintro c ⟨⟩
    decide
  have hread := literals_adjacent (stopsAt_nil isBlank) (by simp) others h
  rw [List.append_nil] at hread
  rw [stringValue?, trim_eq_self hstops hlast, hread]

theorem joinLiterals_iff (bodies : List (List Char)) :
    joinLiterals bodies = Utf8.decodeLossy (spelledBytes bodies) ↔
      ∀ front behind, bodies = front ++ behind →
        ¬ Utf8.CutsCharacter (spelledBytes front) (spelledBytes behind) := by
  have hiff := Utf8.decodeLossy_flatten_iff (bodies.map (literalBytesFrom .none))
  rw [List.flatMap_map, ← List.flatMap_def] at hiff
  rw [eq_comm, joinLiterals, spelledBytes]
  refine hiff.trans ?_
  constructor
  · rintro h front behind rfl
    have hcuts := h (front.map (literalBytesFrom .none)) (behind.map (literalBytesFrom .none)) (by simp)
    simpa [spelledBytes, List.flatMap_def] using hcuts
  · intro h front behind hsplit
    obtain ⟨front', behind', rfl, rfl, rfl⟩ := List.map_eq_append_iff.mp hsplit
    simpa [spelledBytes, List.flatMap_def] using h front' behind' rfl

/-! ## Macros -/

theorem exists_of_mem_definitionsAlong {marked : List Marked} {before : Option Char}
    {definition : (List Char × List (List Char)) × List Char} (h : definition ∈ definitionsAlong before marked) :
    ∃ head source rest, definition.2 = head ++ (source ++ [';']) ∧ '"' ∉ head ∧ source.head? = some '"' ∧
      literals (source ++ ';' :: rest) = (definition.1.2, ';' :: rest) := by
  obtain ⟨m, hm, rfl⟩ := List.mem_map.mp h
  obtain ⟨a, rest, -, -, hread⟩ := exists_of_mem_scanFrom consumes_macroDefinition? (List.mem_filter.mp hm).1
  obtain ⟨word, cs, hhead, -, hliterals, hne⟩ := macroDefinition?_eq_some hread
  obtain ⟨head, htext, -, hchars, -⟩ := exists_head_of_macroHead? hhead
  obtain ⟨source, hsource⟩ := literals_suffix cs
  rw [hliterals] at hsource
  have hquote : cs.head? = some '"' := by
    by_contra hno
    rw [literals_of_ne fun tail htail => hno (by rw [htail]; rfl)] at hliterals
    exact hne (Prod.ext_iff.mp hliterals).1.symm
  refine ⟨head, source, rest, ?_, ?_, ?_, ?_⟩
  · have hwhole : m.text ++ rest = (head ++ (source ++ [';'])) ++ rest := by
      rw [htext, ← hsource]
      simp
    exact List.append_cancel_right hwhole
  · intro hmem
    have hchar := hchars _ hmem
    revert hchar
    decide
  · rw [← hsource] at hquote
    cases source with
    | nil => simp at hquote
    | cons c source => simpa using hquote
  · rw [hsource, hliterals]

theorem append_quote_inj {a a' b b' : List Char} (ha : '"' ∉ a) (ha' : '"' ∉ a') (hb : b.head? = some '"')
    (hb' : b'.head? = some '"') (h : a ++ b = a' ++ b') : a = a' ∧ b = b' := by
  obtain ⟨u, rfl, hu⟩ | ⟨u, rfl, hu⟩ := List.append_eq_append_iff.mp h
  · cases u with
    | nil => exact ⟨(List.append_nil a).symm, by simpa using hu⟩
    | cons c u =>
      rw [hu] at hb
      obtain rfl : c = '"' := by simpa using hb
      simp at ha'
  · cases u with
    | nil => exact ⟨List.append_nil a', by simpa using hu.symm⟩
    | cons c u =>
      rw [hu] at hb'
      obtain rfl : c = '"' := by simpa using hb'
      simp at ha

theorem value_of_definition {text : List Char} {name : String} {m : StringMacro}
    (hfind : (stringMacros text).find? name = some m) {head first : List Char} {others : List (List Char × List Char)}
    (h : IsAdjacent first others) (hhead : '"' ∉ head)
    (hdefinition : m.definition = some (String.ofList (head ++ (adjacent first others ++ [';'])))) :
    m.value = String.ofList (joinLiterals (first :: others.map (·.2))) := by
  rw [stringMacros_eq] at hfind
  obtain ⟨definition, hdefinitions, hentry⟩ := List.mem_map.mp (Table.mem_of_find?_ofList hfind)
  obtain rfl : (macroEntry definition).2 = m := congrArg Prod.snd hentry
  obtain ⟨head', source, rest, htext, hhead', hquote, hliterals⟩ := exists_of_mem_definitionsAlong hdefinitions
  -- neither head has a quote, so the literals start where both texts have their first
  have hsame : head' ++ (source ++ [';']) = head ++ (adjacent first others ++ [';']) := by
    rw [← htext]
    exact String.ofList_injective (Option.some.inj hdefinition)
  have hquote' : (source ++ [';']).head? = some '"' := by
    cases source with
    | nil => cases hquote
    | cons c source => exact hquote
  obtain ⟨-, hsource⟩ := append_quote_inj hhead' hhead hquote' rfl hsame
  have hstops : StopsAt isBlank (';' :: rest) := by
    rw [stopsAt_cons]
    decide
  have hread := literals_adjacent hstops (by simp) others h
  rw [← List.append_cancel_right hsource, hliterals] at hread
  have hbodies := (Prod.ext_iff.mp hread).1
  exact congrArg (fun bodies => String.ofList (joinLiterals bodies)) hbodies

def statement (word source : List Char) : List Char :=
  "static const char PSTR_".toList ++ (word ++ ("[] PROGMEM = ".toList ++ (source ++ [';'])))

theorem macroHead?_statement {word : List Char} (hne : word ≠ []) (hword : ∀ c ∈ word, isWord c = true)
    {source : List Char} (hsource : StopsAt isBlank (source ++ [';'])) :
    macroHead? (statement word source) = some (word, source ++ [';']) := by
  have hblank : ∀ c ∈ [' '], isBlank c = true := by decide
  have hnone : ∀ c ∈ ([] : List Char), isBlank c = true := by simp
  have hbracket : StopsAt isWord (([] ++ "[".toList) ++ []) := (stopsAt_cons isWord '[' []).mpr (by decide)
  have hhead := macroHead?_append hblank (by simp) hblank (by simp) hblank (by simp)
    (word?_append hword hne hbracket (by simp)) hnone hnone hblank hblank hblank hsource
  have htext : statement word source = ("static".toList ++ ([' '] ++ ("const".toList ++ ([' '] ++ ("char".toList ++
      ([' '] ++ ("PSTR_".toList ++ (word ++ ([] ++ ("[".toList ++ ([] ++ ("]".toList ++ ([' '] ++ ("PROGMEM".toList ++
      ([' '] ++ ("=".toList ++ [' '])))))))))))))))) ++ (source ++ [';']) := by
    have hlead : "static const char PSTR_".toList =
        "static".toList ++ ([' '] ++ ("const".toList ++ ([' '] ++ ("char".toList ++ ([' '] ++ "PSTR_".toList))))) := by
      decide
    have hbrackets : "[] PROGMEM = ".toList =
        "[".toList ++ ([] ++ ("]".toList ++ ([' '] ++ ("PROGMEM".toList ++ ([' '] ++ ("=".toList ++ [' '])))))) := by
      decide
    unfold statement
    generalize source ++ [';'] = behind
    rw [hlead, hbrackets]
    simp only [List.append_assoc, List.nil_append]
  rw [htext, hhead]

theorem definitionsAlong_statement {word : List Char} (hne : word ≠ []) (hword : ∀ c ∈ word, isWord c = true)
    {first : List Char} {others : List (List Char × List Char)} (h : IsAdjacent first others) :
    definitionsAlong none (mark (statement word (adjacent first others))) =
      [(("PSTR_".toList ++ word, first :: others.map (·.2)), statement word (adjacent first others))] := by
  have hstops : StopsAt isBlank (adjacent first others ++ [';']) := by
    rw [adjacent, quoted, List.cons_append, List.cons_append, stopsAt_cons]
    decide
  have hend : StopsAt isBlank [';'] := (stopsAt_cons isBlank ';' []).mpr (by decide)
  have hread : macroDefinition? none (statement word (adjacent first others) ++ []) =
      some (("PSTR_".toList ++ word, first :: others.map (·.2)), []) := by
    rw [List.append_nil]
    exact macroDefinition?_of_literals none (macroHead?_statement hne hword hstops)
      (literals_adjacent hend (by simp) others h) (by simp)
  generalize hsource : statement word (adjacent first others) = source at hread ⊢
  obtain ⟨taken, htaken, heq⟩ := consumes_macroDefinition? hread
  obtain rfl := List.append_cancel_right heq
  have hfirst : zoneAt? (mark source) 0 = some .code := by
    rw [← hsource]
    rfl
  have hscan := scanFrom_match 0 htaken hread
  rw [List.append_nil] at hscan
  rw [definitionsAlong, plain_mark, hscan, List.filter_cons_of_pos (by simpa using hfirst)]
  rfl

theorem stringMacros_statement {word : List Char} (hne : word ≠ []) (hword : ∀ c ∈ word, isWord c = true)
    {first : List Char} {others : List (List Char × List Char)} (h : IsAdjacent first others) :
    (stringMacros (statement word (adjacent first others))).find? (String.ofList ("PSTR_".toList ++ word)) =
      some ⟨String.ofList (joinLiterals (first :: others.map (·.2))),
        some (String.ofList (statement word (adjacent first others)))⟩ := by
  rw [stringMacros_eq, definitionsAlong_statement hne hword h, Table.find?_ofList]
  simp [macroEntry]

/-! ## Cuts -/

theorem not_cuts_of_whole {bodies : List (List Char)}
    (h : ∀ body ∈ bodies, ∃ text, literalBytesFrom .none body = Utf8.encode text)
    (front behind : List (List Char))
    (hsplit : bodies = front ++ behind) : ¬ Utf8.CutsCharacter (spelledBytes front) (spelledBytes behind) := by
  obtain ⟨text, htext⟩ : ∃ text, spelledBytes front = Utf8.encode text := by
    rw [hsplit] at h
    clear hsplit
    induction front with
    | nil => exact ⟨[], rfl⟩
    | cons body front ih =>
      rw [List.cons_append, List.forall_mem_cons] at h
      obtain ⟨text, htext⟩ := h.1
      obtain ⟨texts, htexts⟩ := ih h.2
      refine ⟨text ++ texts, ?_⟩
      rw [Utf8.encode_append, ← htext, ← htexts, spelledBytes, List.flatMap_cons, spelledBytes]
  rw [htext]
  exact Utf8.not_cuts_encode text _

/-- **Adjacent literals.** One literal with the bodies of several is the text of all their bytes. The several are the
texts of their own bytes, one behind the other, which is the same exactly if no cut between two of them stands inside a
character. A macro that they define has that same text, in every header, and a statement with them defines one. -/
theorem adjacent_literals_iff (first : List Char) (others : List (List Char × List Char))
    (h : IsAdjacent first others) :
    let bodies := first :: others.map (·.2)
    stringValue? (quoted bodies.flatten) = some (Utf8.decodeLossy (spelledBytes bodies)) ∧
      stringValue? (adjacent first others) = some (joinLiterals bodies) ∧
      (stringValue? (adjacent first others) = stringValue? (quoted bodies.flatten) ↔
        ∀ front behind, bodies = front ++ behind →
          ¬ Utf8.CutsCharacter (spelledBytes front) (spelledBytes behind)) ∧
      (∀ (text head : List Char) (name : String) (m : StringMacro), (stringMacros text).find? name = some m →
        '"' ∉ head → m.definition = some (String.ofList (head ++ (adjacent first others ++ [';']))) →
          some m.value.toList = stringValue? (adjacent first others)) ∧
      ∀ word : List Char, word ≠ [] → (∀ c ∈ word, isWord c = true) →
        (stringMacros (statement word (adjacent first others))).find? (String.ofList ("PSTR_".toList ++ word)) =
          some ⟨String.ofList (joinLiterals bodies),
            some (String.ofList (statement word (adjacent first others)))⟩ := by
  intro bodies
  have hbodies : ∀ body ∈ bodies, IsBody body := by
    rw [List.forall_mem_cons, List.forall_mem_map]
    exact ⟨h.1, fun p hp => (h.2 p hp).2⟩
  have several : stringValue? (adjacent first others) = some (joinLiterals bodies) := stringValue?_adjacent h
  have single : stringValue? (quoted bodies.flatten) = some (Utf8.decodeLossy (spelledBytes bodies)) := by
    have hsingle : IsAdjacent bodies.flatten [] := ⟨isBody_flatten hbodies, by simp⟩
    have hquoted : quoted bodies.flatten = adjacent bodies.flatten [] := by simp [adjacent]
    rw [hquoted, stringValue?_adjacent hsingle]
    simp only [List.map_nil, joinLiterals, List.flatMap_singleton, decodeLiteral, literalBytesFrom_flatten hbodies]
  refine ⟨single, several, ?_, ?_, ?_⟩
  · rw [several, single, Option.some.injEq]
    exact joinLiterals_iff bodies
  · intro text head name m hfind hhead hdefinition
    rw [value_of_definition hfind h hhead hdefinition, several, String.toList_ofList]
  · intro word hne hword
    exact stringMacros_statement hne hword h

/-- A degree sign in a literal of its own. -/
theorem adjacent_literals_iff_degree :
    let first := ['T', ' ']
    let degree := ['\\', 'x', 'C', '2', '\\', 'x', 'B', '0']
    let others := [([' '], degree), (['\n', ' '], ['C'])]
    IsAdjacent first others ∧
      stringValue? (adjacent first others) = stringValue? (quoted (first ++ (degree ++ ['C']))) := by
  intro first degree others
  have h : IsAdjacent first others := by
    refine ⟨.ordinary (by decide) (by decide) (.ordinary (by decide) (by decide) .nil), ?_⟩
    simp only [others, List.forall_mem_cons, List.not_mem_nil, false_implies, implies_true, and_true]
    exact ⟨⟨by decide, .hex (by decide) (by decide) (.hex (by decide) (by decide) .nil)⟩,
      ⟨by decide, .ordinary (by decide) (by decide) .nil⟩⟩
  refine ⟨h, (adjacent_literals_iff first others h).2.2.1.mpr (not_cuts_of_whole ?_)⟩
  simp only [others, List.map_cons, List.map_nil, List.forall_mem_cons, List.not_mem_nil, false_implies, implies_true,
    and_true]
  exact ⟨⟨['T', ' '], by decide⟩, ⟨[Char.ofNat 0xB0], by decide⟩, ⟨['C'], by decide⟩⟩

/-- An accented letter of which each literal has one byte. -/
theorem character_may_be_cut :
    let first := ['\\', 'x', 'C', '3']
    let second := ['\\', 'x', 'A', '9']
    let text := adjacent first [([' '], second)]
    IsAdjacent first [([' '], second)] ∧
      stringValue? (quoted (first ++ second)) = some [Char.ofNat 0xE9] ∧
      stringValue? text = some [Char.ofNat 0xFFFD, Char.ofNat 0xFFFD] ∧
      ((stringMacros (statement ['A'] text)).find? "PSTR_A").map (·.value.toList) =
        some [Char.ofNat 0xFFFD, Char.ofNat 0xFFFD] := by
  intro first second text
  have hfirst : IsBody first := .hex (by decide) (by decide) .nil
  have hsecond : IsBody second := .hex (by decide) (by decide) .nil
  have h : IsAdjacent first [([' '], second)] := by
    refine ⟨hfirst, ?_⟩
    rw [List.forall_mem_singleton]
    exact ⟨by decide, hsecond⟩
  have hsingle : IsAdjacent (first ++ second) [] := ⟨hfirst.append hsecond, by simp⟩
  have hquoted : quoted (first ++ second) = adjacent (first ++ second) [] := by simp [adjacent]
  have hname : "PSTR_A" = String.ofList ("PSTR_".toList ++ ['A']) := by decide
  refine ⟨h, ?_, ?_, ?_⟩
  · rw [hquoted, stringValue?_adjacent hsingle]
    decide
  · rw [stringValue?_adjacent h]
    decide
  · rw [hname, stringMacros_statement (by decide) (by decide) h]
    decide

end FirmwareCatalog.Header
