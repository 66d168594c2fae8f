import FirmwareCatalog.Character.DecimalDigit
import FirmwareCatalog.Character.Word
import FirmwareCatalog.Text.Trim

/-!
# Scanning

Readers take a pattern off the front of a text. A scan tries a reader at every
place from left to right and goes on behind each match, so matches never
overlap.
-/

namespace FirmwareCatalog.Header

open Character Text

/-! ## Readers -/

def skipBlanks (cs : List Char) : List Char := cs.dropWhile isBlank

/-- One blank or more. -/
def someBlanks? : List Char → Option (List Char)
  | [] => none
  | c :: cs => if isBlank c then some (skipBlanks cs) else none

/-- A fixed text. -/
def text? (s : String) (cs : List Char) : Option (List Char) := after? s.toList cs

/-- One or more characters of a class, as many as there are. -/
def someOf? (p : Char → Bool) (cs : List Char) : Option (List Char × List Char) :=
  if (cs.takeWhile p).isEmpty then none else some (cs.takeWhile p, cs.dropWhile p)

def word? : List Char → Option (List Char × List Char) := someOf? isWord

def digits? : List Char → Option (List Char × List Char) := someOf? isDecimalDigit

/-- Whether a line starts behind a character, or at the start of the text. -/
def startsLine (before : Option Char) : Bool := before.all (· = '\n')

/-! ## Scans -/

/-- A match: how many characters stand before it, what the reader made of it, and its characters. -/
structure Match (α : Type) where
  start : Nat
  value : α
  text : List Char

/-- The place behind the last character of a match. -/
def Match.stop {α : Type} (m : Match α) : Nat := m.start + m.text.length

/-- A reader sees the character before its place. -/
abbrev Reader (α : Type) := Option Char → List Char → Option (α × List Char)

/-- The matches from a place on, with `skip` characters of the last match still to pass. -/
def scanFrom {α : Type} (read : Reader α) :
    (place : Nat) → (before : Option Char) → (skip : Nat) → List Char → List (Match α)
  | _, _, _, [] => []
  | place, _, skip + 1, c :: cs => scanFrom read (place + 1) (some c) skip cs
  | place, before, 0, c :: cs =>
    match read before (c :: cs) with
    | none => scanFrom read (place + 1) (some c) 0 cs
    | some (value, rest) =>
      let length := cs.length + 1 - rest.length
      ⟨place, value, (c :: cs).take length⟩ :: scanFrom read (place + 1) (some c) (length - 1) cs

def scan {α : Type} (read : Reader α) (text : List Char) : List (Match α) := scanFrom read 0 none 0 text

end FirmwareCatalog.Header
