import FirmwareCatalog.Proofs.Header.Adjacent
import FirmwareCatalog.ThinLibrary

/-!
# Built-in macros

The literal in which a thin library writes a text is read as that text, so a
built-in macro that a thin library defines has there the value that it had.
-/

namespace FirmwareCatalog.ThinLibrary

open Character Header CatalogEntry

/-! ## Escaped texts -/

theorem escapeChar_cases (c : Char) :
    (c ≠ '"' ∧ c ≠ '\\' ∧ escapeChar c = [c]) ∨
      ∃ letter byte, escapeChar c = ['\\', letter] ∧ letter ≠ 'x' ∧ letter ≠ '\n' ∧
        escapeByte? letter = some byte ∧
        String.utf8EncodeChar c = [byte] := by
  unfold escapeChar
  split
  · rename_i hquote
    exact .inr ⟨'"', 34, rfl, by decide, by decide, rfl, by rw [hquote]; decide⟩
  · rename_i hquote
    split
    · rename_i hbackslash
      exact .inr ⟨'\\', 92, rfl, by decide, by decide, rfl, by rw [hbackslash]; decide⟩
    · rename_i hbackslash
      split
      · rename_i hline
        exact .inr ⟨'n', 10, rfl, by decide, by decide, rfl, by rw [hline]; decide⟩
      · split
        · rename_i htab
          exact .inr ⟨'t', 9, rfl, by decide, by decide, rfl, by rw [htab]; decide⟩
        · exact .inl ⟨hquote, hbackslash, rfl⟩

theorem isBody_escapeChar (c : Char) : IsBody (escapeChar c) := by
  obtain ⟨hquote, hbackslash, hescape⟩ | ⟨letter, byte, hescape, hhex, hend, -, -⟩ := escapeChar_cases c
  · rw [hescape]
    exact .ordinary hquote hbackslash .nil
  · rw [hescape]
    exact .escape hhex hend .nil

theorem literalBytesFrom_escapeChar (c : Char) : literalBytesFrom .none (escapeChar c) = String.utf8EncodeChar c := by
  obtain ⟨-, hbackslash, hescape⟩ | ⟨letter, byte, hescape, hhex, -, hbyte, hencode⟩ := escapeChar_cases c
  · rw [hescape]
    simp [literalBytesFrom, hbackslash]
  · rw [hescape, hencode]
    simp [literalBytesFrom, hhex, hbyte]

theorem isBody_escaped (cs : List Char) : IsBody (cs.flatMap escapeChar) := by
  rw [List.flatMap_def]
  refine isBody_flatten ?_
  rw [List.forall_mem_map]
  exact fun c _ => isBody_escapeChar c

theorem literalBytesFrom_escaped (cs : List Char) :
    literalBytesFrom .none (cs.flatMap escapeChar) = Utf8.encode cs := by
  have hbodies : ∀ body ∈ cs.map escapeChar, IsBody body := by
    rw [List.forall_mem_map]
    exact fun c _ => isBody_escapeChar c
  rw [List.flatMap_def, literalBytesFrom_flatten hbodies, spelledBytes, List.flatMap_map]
  simp only [literalBytesFrom_escapeChar]
  rfl

theorem decodeLiteral_escaped (cs : List Char) : decodeLiteral (cs.flatMap escapeChar) = cs := by
  rw [decodeLiteral, literalBytesFrom_escaped, Utf8.decodeLossy_encode]

theorem joinLiterals_escaped (cs : List Char) : joinLiterals [cs.flatMap escapeChar] = cs := by
  rw [joinLiterals, List.flatMap_singleton, decodeLiteral_escaped]

/-! ## Definitions -/

theorem isAdjacent_escaped (cs : List Char) : IsAdjacent (cs.flatMap escapeChar) [] :=
  ⟨isBody_escaped cs, List.forall_mem_nil _⟩

theorem quoted_eq_adjacent (body : List Char) : quoted body = adjacent body [] := by
  rw [adjacent, List.flatMap_nil, List.append_nil]

theorem toList_escapeLiteral (value : String) : (escapeLiteral value).toList = value.toList.flatMap escapeChar :=
  String.toList_ofList

theorem toList_definitionOf (word value : String) :
    (definitionOf ("PSTR_" ++ word) value).toList =
      statement word.toList (quoted (value.toList.flatMap escapeChar)) := by
  have hhead : "static const char PSTR_".toList = "static const char ".toList ++ "PSTR_".toList := by decide
  have hopen : "[] PROGMEM = \"".toList = "[] PROGMEM = ".toList ++ ['"'] := by
    rw [String.toList_ofList, String.toList_ofList]
    rfl
  have hclose : "\";".toList = ['"', ';'] := by decide
  unfold definitionOf statement
  rw [String.toList_append, String.toList_append, String.toList_append, String.toList_append, String.toList_append,
    toList_escapeLiteral, hopen, hclose, hhead]
  simp only [quoted, List.append_assoc, List.cons_append, List.nil_append]

theorem stringMacros_definitionOf {word : String} (hne : word ≠ "") (hword : ∀ c ∈ word.toList, isWord c = true)
    (value : String) :
    stringMacros (definitionOf ("PSTR_" ++ word) value).toList =
      Table.ofList [("PSTR_" ++ word, ⟨value, some (definitionOf ("PSTR_" ++ word) value)⟩)] := by
  have hname : String.ofList ("PSTR_".toList ++ word.toList) = "PSTR_" ++ word := by
    rw [← String.toList_append, String.ofList_toList]
  have hletters : word.toList ≠ [] := fun hnil => hne (String.toList_eq_nil_iff.mp hnil)
  have hsource : statement word.toList (adjacent (value.toList.flatMap escapeChar) []) =
      (definitionOf ("PSTR_" ++ word) value).toList := by
    rw [toList_definitionOf, quoted_eq_adjacent]
  have hread := definitionsAlong_statement hletters hword (isAdjacent_escaped value.toList)
  rw [hsource] at hread
  rw [stringMacros_eq, hread, List.map_singleton, macroEntry, hname, List.map_nil, joinLiterals_escaped,
    String.ofList_toList, String.ofList_toList]

/-! ## Lines -/

section
variable {E : Type} [CatalogEntry E] {registry : Registry E} {referenced : List Nat} {name : String}

theorem macroLine_builtIn {macros : Table StringMacro} {value : String}
    (h : macros.find? name = some ⟨value, none⟩) :
    macroLine macros name = definitionOf name value ++ "\n" := by
  rw [macroLine, h]
  rfl

theorem macroLine_infix_render (h : name ∈ usedMacros (selected registry referenced)) (ctx : GenerationContext)
    (fileName : String) :
    (macroLine registry.macros name).toList <:+: (render registry referenced ctx fileName).toList := by
  have hlines : (macroLine registry.macros name).toList <:+:
      (String.join ((usedMacros (selected registry referenced)).map (macroLine registry.macros))).toList := by
    rw [String.toList_join, List.flatMap_map, List.flatMap_def]
    exact List.infix_of_mem_flatten (List.mem_map_of_mem h)
  unfold render
  simp only [String.toList_append]
  -- the lines of the macros stand behind the heading, before all else
  repeat first
    | with_reducible exact List.infix_append_of_infix_right hlines
    | apply List.infix_append_of_infix_left

end

/-- **Built-in macros are read back.** An escaped text is read as the text, alone and in quotes. The definition of a
built-in macro defines that macro and no other, with its value and as its source, and a thin library has it in a line
for every built-in macro that its entries use. -/
theorem builtIn_reads_back (value : String) :
    decodeLiteral (escapeLiteral value).toList = value.toList ∧
      stringValue? (quoted (escapeLiteral value).toList) = some value.toList ∧
      ∀ word : String, word ≠ "" → (∀ c ∈ word.toList, isWord c = true) →
        let name := "PSTR_" ++ word
        (stringMacros (definitionOf name value).toList).entries =
            [(name, ⟨value, some (definitionOf name value)⟩)] ∧
          ∀ (E : Type) [CatalogEntry E] (registry : Registry E) (referenced : List Nat) (ctx : GenerationContext)
            (fileName : String), name ∈ usedMacros (selected registry referenced) →
              registry.macros.find? name = some ⟨value, none⟩ →
                (definitionOf name value ++ "\n").toList <:+: (render registry referenced ctx fileName).toList := by
  refine ⟨?_, ?_, fun word hne hword => ⟨?_, ?_⟩⟩
  · rw [toList_escapeLiteral, decodeLiteral_escaped]
  · rw [toList_escapeLiteral, quoted_eq_adjacent, stringValue?_adjacent (isAdjacent_escaped _), List.map_nil,
      joinLiterals_escaped]
  · rw [stringMacros_definitionOf hne hword]
    rfl
  · intro E _ registry referenced ctx fileName hused hbuiltIn
    rw [← macroLine_builtIn hbuiltIn]
    exact macroLine_infix_render hused ctx fileName

/-- A text that looks like an escape, with all that is escaped and a carriage return that is not. -/
theorem builtIn_reads_back_degree :
    let value := "\\xB0 \"°\"\n\t\r"
    let definition := "static const char PSTR_DEG_1[] PROGMEM = \"\\\\xB0 \\\"°\\\"\\n\\t\r\";"
    let registry : Registry Sensor :=
      ⟨[.ofRecord ⟨0, .empty, ["PSTR_DEG_1"], "", .structLiteral, false⟩],
        Table.ofList [("PSTR_DEG_1", ⟨value, none⟩)], "SensorInfo", "SENSOR_LIBRARY"⟩
    definitionOf "PSTR_DEG_1" value = definition ∧
      stringValue? (quoted (escapeLiteral value).toList) = some value.toList ∧
      (stringMacros definition.toList).entries = [("PSTR_DEG_1", ⟨value, some definition⟩)] ∧
      (definition ++ "\n").toList <:+: (render registry [] ⟨"1.0", "esp32", ⟨0⟩⟩ "thin.h").toList := by
  intro value definition registry
  have hdefinition : definitionOf "PSTR_DEG_1" value = definition := by decide +kernel
  obtain ⟨-, hvalue, hmacros⟩ := builtIn_reads_back value
  obtain ⟨hentries, hline⟩ := hmacros "DEG_1" (by decide) (by decide)
  rw [show "PSTR_" ++ "DEG_1" = "PSTR_DEG_1" by decide, hdefinition] at hentries hline
  exact ⟨hdefinition, hvalue, hentries,
    hline Sensor registry [] ⟨"1.0", "esp32", ⟨0⟩⟩ "thin.h" (by decide) (by decide)⟩

end FirmwareCatalog.ThinLibrary
