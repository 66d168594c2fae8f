import FirmwareCatalog.Character.Blank

/-!
# Trimming

Blanks at the ends of a text. `trim` leaves a text that starts and ends with
something else than a blank, or nothing.
-/

namespace FirmwareCatalog.Text

open Character

def trimStart (cs : List Char) : List Char := cs.dropWhile isBlank

def trimEnd (cs : List Char) : List Char := (cs.reverse.dropWhile isBlank).reverse

def trim (cs : List Char) : List Char := trimEnd (trimStart cs)

def isBlankText (cs : List Char) : Bool := cs.all isBlank

/-- `trim` on strings. -/
def trimmed (s : String) : String := String.ofList (trim s.toList)

/-- Drops every character of a class from the end. -/
def dropEndWhile (p : Char → Bool) (cs : List Char) : List Char := (cs.reverse.dropWhile p).reverse

/-- What follows a given start, or nothing when the text starts otherwise. -/
def after? : List Char → List Char → Option (List Char)
  | [], cs => some cs
  | _ :: _, [] => none
  | p :: ps, c :: cs => if p = c then after? ps cs else none

/-- `after?` on strings, leaving the text alone when it starts otherwise. -/
def dropLeading (start s : String) : String :=
  ((after? start.toList s.toList).map String.ofList).getD s

theorem after?_append (p cs : List Char) : after? p (p ++ cs) = some cs := by
  induction p with
  | nil => rfl
  | cons a p ih => simp [after?, ih]

theorem eq_append_of_after? {p cs rest : List Char} (h : after? p cs = some rest) : cs = p ++ rest := by
  induction p generalizing cs with
  | nil => simpa [after?] using h
  | cons a p ih =>
    cases cs with
    | nil => simp [after?] at h
    | cons c cs =>
      simp only [after?] at h
      split at h
      · rename_i hac; subst hac; rw [ih h]; rfl
      · cases h

end FirmwareCatalog.Text
