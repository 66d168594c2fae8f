import FirmwareCatalog.Proofs.Character.Ascii
import FirmwareCatalog.Proofs.ThinLibrary.Sheet

/-!
# The text of a thin library

A rendered thin library is the text of its pieces.
-/

namespace FirmwareCatalog.ThinLibrary

open Character Header Numeral CatalogEntry

variable {E : Type} [CatalogEntry E]

def sheetOf (registry : Registry E) (referenced : List Nat) (ctx : GenerationContext)
    (fileName : String)
    (macros entries : List (List Marked)) : Sheet where
  kind := kind E
  ctx := ctx
  kept := (selected registry referenced).length
  total := registry.entries.length
  guardName := (headerGuard fileName).toList
  invocations := (selected registry referenced).any fun e => (record e).form = .invocation
  elementType := registry.elementType.toList
  arrayName := registry.arrayName.toList
  macros := macros
  entries := entries

/-! ## The include guard -/

theorem isWord_headerGuard (fileName : String) :
    ∀ c ∈ (headerGuard fileName).toList, isWord c = true := by
  intro c hc
  rw [headerGuard, String.toList_ofList] at hc
  obtain ⟨d, -, rfl⟩ := List.mem_map.mp hc
  split
  · rename_i hd
    have hlt : d.toNat < 128 := by
      delta isAsciiAlphanumeric Char.isAlpha Char.isUpper Char.isLower Char.isDigit at hd
      simp only [Bool.or_eq_true, Bool.and_eq_true, decide_eq_true_eq] at hd
      have hval : d.toNat = d.val.toNat := rfl
      rw [hval]
      rcases hd with (hd | hd) | hd <;> have :=
        UInt32.le_iff_toNat_le.mp hd.2 <;> exact Nat.lt_of_le_of_lt this (by decide)
    exact forall_ascii (p := fun d => isAsciiAlphanumeric d = true → isWord d.toUpper = true) (by decide) hlt hd
  · decide

/-! ## The text -/

theorem flatMap_toList_map {α : Type} {f : α → String} {g : List Marked → List Marked}
    {pieces : List (List Marked)}
    {items : List α}
    (h : List.Forall₂ (fun piece item => plain (g piece) = (f item).toList) pieces items) :
    (items.map f).flatMap String.toList = plain (pieces.flatMap g) := by
  induction h with
  | nil => rfl
  | cons hpiece _ ih => rw [List.map_cons, List.flatMap_cons, ih, List.flatMap_cons,
      plain_append, hpiece]

theorem toList_render (registry : Registry E) (referenced : List Nat) (ctx : GenerationContext)
    (fileName : String)
    {macros entries : List (List Marked)}
    (hmacros : List.Forall₂ (fun piece name => plain (piece ++ [('\n', .code)]) =
      (macroLine registry.macros name).toList)
      macros (usedMacros (selected registry referenced)))
    (hentries : List.Forall₂ (fun piece e =>
        plain ((sheetOf registry referenced ctx fileName macros entries).entryLine piece) =
          (entryLine e).toList)
      entries (selected registry referenced)) :
    (render registry referenced ctx fileName).toList = plain
    (sheetOf registry referenced ctx fileName macros entries).marked := by
  -- the sheet cuts its texts where a comment begins or ends, the printer where a value is put in
  have htitle : "// Thin ".toList = '/' :: '/' :: " Thin ".toList := by decide
  have hbuilds : " registry for USE_STATIC_CONFIG builds\n".toList =
      " registry for USE_STATIC_CONFIG builds".toList ++ ['\n'] := by
    rw [String.toList_ofList, String.toList_ofList]; rfl
  have hbanner : "// Generated by regc v".toList =
      '/' :: '/' :: " Generated by regc v".toList := by decide
  have hcount : "// ".toList = '/' :: '/' :: " ".toList := by decide
  have hkept : " entries kept; registry indices are unchanged in the config block.\n\n".toList =
      " entries kept; registry indices are unchanged in the config block.".toList ++ ['\n', '\n'] := by
    rw [String.toList_ofList, String.toList_ofList]; rfl
  have hguard : "\n#ifndef ".toList = '\n' :: "#ifndef ".toList := by decide
  have hsection : "// ===== STRING LITERALS =====\n".toList =
      '/' :: '/' :: (Sheet.sectionText ++ ['\n']) := by
    unfold Sheet.sectionText; rw [String.toList_ofList, String.toList_ofList]; rfl
  have harray : "[] = \x7b\n".toList = "[] = \x7b".toList ++ ['\n'] := by decide
  have hend : "\x7d;\n".toList = '\x7d' :: ";\n".toList := by decide
  have hendif : "\n#endif // ".toList = "\n#endif ".toList ++ ['/', '/', ' '] := by decide
  have hnewline : "\n".toList = ['\n'] := rfl
  have hdefinition (invocations : Bool) :
      (if invocations = true then invocationDefinition ++ "\n" else "").toList =
      if invocations = true then definitionText ++ ['\n'] else [] := by
    cases invocations
    · rfl
    · simp only [if_true, String.toList_append, toList_invocationDefinition, hnewline]
  have hundef (invocations : Bool) :
      (if invocations = true then "\n#undef X_SENSOR\n" else "").toList =
      if invocations = true then "\n#undef X_SENSOR\n".toList else [] := by
    cases invocations <;> rfl
  have hmacroLines := flatMap_toList_map hmacros
  have hentryLines := flatMap_toList_map hentries
  unfold render GenerationContext.banner
  simp only [String.toList_append, String.toList_join, toList_decimalText, hmacroLines, hentryLines,
    hdefinition, hundef, htitle,
    hbuilds, hbanner, hcount, hkept, hsection, harray, hend, hendif, hnewline]
  unfold Sheet.marked Sheet.front Sheet.prologue Sheet.macroSection Sheet.body Sheet.ending
    Sheet.titleText Sheet.bannerText
    Sheet.countText Sheet.guardText Sheet.invocationText Sheet.undefText declaration
  simp only [plain_append, plain_commentLine, plain_inZone, plain_cons, hguard, sheetOf,
    List.append_assoc, List.cons_append,
    List.nil_append]
  congr

end FirmwareCatalog.ThinLibrary
