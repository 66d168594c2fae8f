/-!
# Zones of a header text

Every character of a header stands in code, in a comment, in a string or in a
character literal. The lexer goes through the text once, looking one character
ahead; a pair such as `/*` or an escape is entered at its first character and
carries its second along.
-/

namespace FirmwareCatalog.Header

inductive Zone where
  | code
  | lineComment
  | blockComment
  | string
  | character
deriving DecidableEq, Inhabited

def Zone.isComment : Zone → Bool
  | .lineComment | .blockComment => true
  | _ => false

/-- A character with its zone. -/
abbrev Marked := Char × Zone

inductive LexState where
  /-- Between two steps, inside a zone. -/
  | inside (zone : Zone)
  /-- Before the second character of a pair: its zone, and the zone after it. -/
  | second (zone after : Zone)
deriving DecidableEq

/-- The step of a literal: an escape takes its second character along, the closing quote and the end of
the line lead back to code. -/
def literalStep (zone : Zone) (quote c : Char) (next : Option Char) : Zone × LexState :=
  if c = '\\' ∧ next.isSome then (zone, .second zone zone)
  else if c = quote ∨ c = '\n' then (zone, .inside .code)
  else (zone, .inside zone)

def LexState.step : LexState → Char → Option Char → Zone × LexState
  | .second zone after, _, _ => (zone, .inside after)
  | .inside .code, c, next =>
    if c = '/' ∧ next = some '/' then (.lineComment, .second .lineComment .lineComment)
    else if c = '/' ∧ next = some '*' then (.blockComment, .second .blockComment .blockComment)
    else if c = '"' then (.string, .inside .string)
    else if c = '\'' then (.character, .inside .character)
    else (.code, .inside .code)
  | .inside .lineComment, c, _ => if c = '\n' then (.code, .inside .code) else (.lineComment, .inside .lineComment)
  | .inside .blockComment, c, next =>
    if c = '*' ∧ next = some '/' then (.blockComment, .second .blockComment .code)
    else (.blockComment, .inside .blockComment)
  | .inside .string, c, next => literalStep .string '"' c next
  | .inside .character, c, next => literalStep .character '\'' c next

def markFrom : LexState → List Char → List Marked
  | _, [] => []
  | s, c :: cs => (c, (s.step c cs.head?).1) :: markFrom (s.step c cs.head?).2 cs

/-- A text begins in code. -/
def mark (text : List Char) : List Marked := markFrom (.inside .code) text

def plain (marked : List Marked) : List Char := marked.map (·.1)

/-- The zone of the character at a position. -/
def zoneAt? (marked : List Marked) (position : Nat) : Option Zone := (marked[position]?).map (·.2)

@[simp] theorem plain_markFrom (s : LexState) (cs : List Char) : plain (markFrom s cs) = cs := by
  induction cs generalizing s with
  | nil => rfl
  | cons c cs ih =>
    show c :: plain (markFrom _ cs) = c :: cs
    rw [ih]

/-! ## Comments -/

/-- One space for each run of comment characters; `run` says whether one has begun. -/
def stripRuns : (run : Bool) → List Marked → List Char
  | _, [] => []
  | run, (c, zone) :: rest =>
    if zone.isComment then
      if run then stripRuns true rest else ' ' :: stripRuns true rest
    else c :: stripRuns false rest

/-- The text without its comments. -/
def stripComments (text : List Char) : List Char := stripRuns false (mark text)

end FirmwareCatalog.Header
