import FirmwareCatalog.Text.Numeral

/-!
# TOML strings and keys

Four forms of strings: in double quotes with escapes, in single quotes without,
and each on one line or, in tripled quotes, on several. A text is split at the
closing quotes first; what stands between is read then. Line ends are line feeds
here.
-/

namespace FirmwareCatalog.TomlText

open Numeral

/-- Blanks within a line. -/
def isSpace (c : Char) : Bool := c = ' ' || c = '\t'

def skipSpaces (cs : List Char) : List Char := cs.dropWhile isSpace

/-- What may stand within a line. -/
def isPrintable (c : Char) : Bool := c = '\t' || (0x20 ≤ c.toNat && c.toNat ≠ 0x7F)

/-- How a string is written. -/
structure Form where
  quote : Char
  isMultiLine : Bool

def Form.escapes (form : Form) : Bool := form.quote = '"'

def Form.allows (form : Form) (c : Char) : Bool := isPrintable c || (form.isMultiLine && c = '\n')

/-- Splits before `count` quotes in a row, and behind them. Up to two quotes more belong to the string before
three that close it. -/
def splitClosing? (form : Form) (count : Nat) : List Char → Option (List Char × List Char)
  | [] => none
  | '\\' :: c :: cs =>
    if form.escapes then (splitClosing? form count cs).map fun p => ('\\' :: c :: p.1, p.2)
    else (splitClosing? form count (c :: cs)).map fun p => ('\\' :: p.1, p.2)
  | c :: cs =>
    if (c :: cs).take count = List.replicate count form.quote then
      let behind := (c :: cs).drop count
      let extra := (behind.takeWhile (· = form.quote)).take (count - 1)
      some (extra, behind.drop extra.length)
    else (splitClosing? form count cs).map fun p => (c :: p.1, p.2)

/-- The character of a short escape. -/
def unescapeLetter? : Char → Option Char
  | 'b' => some '\x08'
  | 't' => some '\t'
  | 'n' => some '\n'
  | 'f' => some '\x0c'
  | 'r' => some '\r'
  | '"' => some '"'
  | '\\' => some '\\'
  | _ => none

def charOfCode? (code : Nat) : Option Char := if code.isValidChar then some (Char.ofNat code) else none

/-- How far the reading of a string has come. -/
inductive State where
  /-- With `joining`, behind a line end that was escaped: blanks and line ends are dropped. -/
  | plain (joining : Bool)
  | backslash
  /-- Blanks behind a backslash: the line has to end. -/
  | lineEnd
  | code (missing value : Nat)

/-- The characters that the inside of a string stands for. -/
def readFrom (form : Form) : State → List Char → Option (List Char)
  | .plain _, [] => some []
  | _, [] => none
  | .plain joining, c :: cs =>
    if joining && (isSpace c || c = '\n') then readFrom form (.plain true) cs
    else if form.escapes && c = '\\' then readFrom form .backslash cs
    else if form.allows c then (readFrom form (.plain false) cs).map (c :: ·)
    else none
  | .backslash, c :: cs =>
    if c = 'u' then readFrom form (.code 3 0) cs
    else if c = 'U' then readFrom form (.code 7 0) cs
    else if form.isMultiLine && c = '\n' then readFrom form (.plain true) cs
    else if form.isMultiLine && isSpace c then readFrom form .lineEnd cs
    else match unescapeLetter? c with
      | some d => (readFrom form (.plain false) cs).map (d :: ·)
      | none => none
  | .lineEnd, c :: cs =>
    if c = '\n' then readFrom form (.plain true) cs
    else if isSpace c then readFrom form .lineEnd cs
    else none
  | .code missing value, c :: cs =>
    match digitValue? 16 c, missing with
    | none, _ => none
    | some d, missing + 1 => readFrom form (.code missing (16 * value + d)) cs
    | some d, 0 =>
      match charOfCode? (16 * value + d) with
      | some c => (readFrom form (.plain false) cs).map (c :: ·)
      | none => none

/-- Reads behind the opening quotes. -/
def readString? (form : Form) (cs : List Char) : Option (String × List Char) := do
  let (inside, cs) ← splitClosing? form (if form.isMultiLine then 3 else 1) cs
  let text ← readFrom form (.plain false) inside
  return (String.ofList text, cs)

/-- A line end right behind the opening quotes does not count. -/
def dropLineEnd : List Char → List Char
  | '\n' :: cs => cs
  | cs => cs

/-- A string of any form. -/
def string? : List Char → Option (String × List Char)
  | '"' :: '"' :: '"' :: cs => readString? ⟨'"', true⟩ (dropLineEnd cs)
  | '\'' :: '\'' :: '\'' :: cs => readString? ⟨'\'', true⟩ (dropLineEnd cs)
  | '"' :: cs => readString? ⟨'"', false⟩ cs
  | '\'' :: cs => readString? ⟨'\'', false⟩ cs
  | _ => none

/-! ## Keys -/

def isBareKey (c : Char) : Bool := c.isAlphanum || c = '-' || c = '_'

/-- A bare key or a string on one line. -/
def simpleKey? : List Char → Option (String × List Char)
  | '"' :: cs => readString? ⟨'"', false⟩ cs
  | '\'' :: cs => readString? ⟨'\'', false⟩ cs
  | cs =>
    let key := cs.takeWhile isBareKey
    if key.isEmpty then none else some (String.ofList key, cs.dropWhile isBareKey)

/-- How many keys may stand in a dotted key, and how deep arrays and inline tables may nest. -/
def maxDepth : Nat := 79

/-- At most `count` keys with points between them, and blanks around each. The last one stands apart. -/
def keysFrom : (count : Nat) → List Char → Option ((List String × String) × List Char)
  | 0, _ => none
  | count + 1, cs => do
    let (key, cs) ← simpleKey? (skipSpaces cs)
    match skipSpaces cs with
    | '.' :: cs => (keysFrom count cs).map fun p => ((key :: p.1.1, p.1.2), p.2)
    | cs => return (([], key), cs)

def keys? (cs : List Char) : Option ((List String × String) × List Char) := keysFrom maxDepth cs

end FirmwareCatalog.TomlText
