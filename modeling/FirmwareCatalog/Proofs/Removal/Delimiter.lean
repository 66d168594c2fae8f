import FirmwareCatalog.Proofs.Header.Token

/-!
# Readers before a delimiter

A reader that takes no character of a certain kind reads up to the first such
character as if the text ended there.
-/

namespace FirmwareCatalog.Header

open Character Text

theorem after?_before {name : List Char} {e : Char} (he : e ∉ name) (text rest : List Char) :
    after? name (text ++ e :: rest) = (after? name text).map (· ++ e :: rest) := by
  induction name generalizing text with
  | nil => rfl
  | cons c name ih =>
    rw [List.mem_cons, not_or] at he
    cases text with
    | nil => simp [after?, Ne.symm he.1]
    | cons d text =>
      rw [List.cons_append, after?, after?, ih he.2]
      split <;> rfl

theorem text?_before {s : String} {e : Char} (he : e ∉ s.toList) (text rest : List Char) :
    text? s (text ++ e :: rest) = (text? s text).map (· ++ e :: rest) := after?_before he text rest

section
variable {α : Type} {p : α → Bool} {e : α} (he : p e = false) (text rest : List α)
include he

theorem takeWhile_before : (text ++ e :: rest).takeWhile p = text.takeWhile p := by
  induction text with
  | nil => rw [List.nil_append, List.takeWhile_cons_of_neg (by simp [he])]; rfl
  | cons c text ih => rw [List.cons_append, List.takeWhile_cons, List.takeWhile_cons, ih]

theorem dropWhile_before : (text ++ e :: rest).dropWhile p = text.dropWhile p ++ e :: rest := by
  induction text with
  | nil => rw [List.nil_append, List.dropWhile_cons_of_neg (by simp [he])]; rfl
  | cons c text ih =>
    rw [List.cons_append, List.dropWhile_cons, List.dropWhile_cons, ih]
    split <;> rfl

end

theorem someOf?_before {p : Char → Bool} {e : Char} (he : p e = false) (text rest : List Char) :
    someOf? p (text ++ e :: rest) = (someOf? p text).map fun r => (r.1, r.2 ++ e :: rest) := by
  rw [someOf?, someOf?, takeWhile_before he, dropWhile_before he]
  split <;> rfl

theorem word?_before {e : Char} (he : isWord e = false) (text rest : List Char) :
    word? (text ++ e :: rest) = (word? text).map fun r => (r.1, r.2 ++ e :: rest) :=
  someOf?_before he text rest

theorem skipBlanks_before {e : Char} (he : isBlank e = false) (text rest : List Char) :
    skipBlanks (text ++ e :: rest) = skipBlanks text ++ e :: rest := dropWhile_before he text rest

theorem someBlanks?_before {e : Char} (he : isBlank e = false) (text rest : List Char) :
    someBlanks? (text ++ e :: rest) = (someBlanks? text).map (· ++ e :: rest) := by
  cases text with
  | nil => simp [someBlanks?, he]
  | cons c text =>
    rw [List.cons_append, someBlanks?, someBlanks?, skipBlanks_before he]
    split <;> rfl

end FirmwareCatalog.Header
