import FirmwareCatalog.Proofs.Header.StringMacro
import FirmwareCatalog.Proofs.Removal.Reading

/-!
# Definitions around a comment

The definition of a string macro is read by what it takes alone. Where none is
taken across a comment, the same definitions are found without it.
-/

namespace FirmwareCatalog.Header

open Character

/-! ## What a definition takes -/

theorem literals_replace (cs : List Char) {bodies : List (List Char)} {rest : List Char}
    (h : literals cs = (bodies, ';' :: rest)) : ∃ front, cs = front ++ ';' :: rest ∧
      ∀ rest', literals (front ++ ';' :: rest') = (bodies, ';' :: rest') := by
  induction cs using literals_induction generalizing bodies with
  | stop cs hstop =>
    rw [literals_of_noLiteral hstop, Prod.mk.injEq] at h
    obtain ⟨rfl, rfl⟩ := h
    exact ⟨[], rfl, fun rest' => literals_of_ne fun tail htail => by simp at htail⟩
  | literal body rest₁ hbody ih =>
    rw [literals_quote hbody, Prod.mk.injEq] at h
    obtain ⟨rfl, hrest⟩ := h
    obtain ⟨front, hfront, hreplace⟩ := ih (Prod.ext rfl hrest)
    obtain ⟨blanks, hrest₁, hblanks, hstop⟩ := exists_skipBlanks rest₁
    rw [hfront] at hrest₁ hstop
    refine ⟨'"' :: (body ++ '"' :: (blanks ++ front)), by rw [hrest₁]; simp, fun rest' => ?_⟩
    have hstop' : StopsAt isBlank (front ++ ';' :: rest') := by
      rw [← List.singleton_append, ← List.append_assoc] at hstop ⊢
      exact hstop.replace (by simp) rest'
    have hread := literals_quote (literalBody?_replace hbody (blanks ++ (front ++ ';' :: rest')))
    rw [skipBlanks_append hblanks hstop', hreplace] at hread
    simpa using hread

theorem macroDefinition?_replace {before : Option Char} {taken rest : List Char}
    {value : List Char × List (List Char)} (h : macroDefinition? before (taken ++ rest) = some (value, rest))
    (rest' : List Char) : macroDefinition? before (taken ++ rest') = some (value, rest') := by
  obtain ⟨name, bodies⟩ := value
  obtain ⟨word, cs, hhead, rfl, hliterals, hne⟩ := macroDefinition?_eq_some h
  obtain ⟨head, htext, -, -, hstop, hreads⟩ := exists_head_of_macroHead? hhead
  obtain ⟨front, rfl, hreplace⟩ := literals_replace cs hliterals
  have hstop' : StopsAt isBlank (front ++ ';' :: rest') := by
    rw [← List.singleton_append, ← List.append_assoc] at hstop ⊢
    exact hstop.replace (by simp) rest'
  have htaken : taken = head ++ (front ++ [';']) := by
    refine List.append_cancel_right (htext.trans ?_)
    simp
  have := macroDefinition?_of_literals before (hreads _ hstop') (hreplace rest') hne
  rw [htaken]
  simpa using this

theorem isLocal_macroDefinition? : IsLocal macroDefinition? where
  consumes := consumes_macroDefinition?
  anywhere := fun _ _ => rfl
  replace := fun _ _ _ h => macroDefinition?_replace h

theorem CommentPlace.stringMacros_spaced {place : CommentPlace} (h : place.Apart macroDefinition?) :
    stringMacros place.spaced = stringMacros place.written := by
  have hblank (rest : List Char) : macroDefinition? none (' ' :: rest) = none := rfl
  obtain ⟨found, -, hwritten, hspaced⟩ := codeMatches_spaced isLocal_macroDefinition? hblank h
  have heq (text : List Char) : stringMacros text =
      Table.ofList ((codeMatches (mark text) (scan macroDefinition? text)).map fun m =>
        macroEntry (m.value, m.text)) := rfl
  rw [heq, heq, hwritten, hspaced, List.map_append, List.map_append, List.map_map, List.map_map]
  rfl

end FirmwareCatalog.Header
