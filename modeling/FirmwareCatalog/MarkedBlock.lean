import FirmwareCatalog.Text.Utf8

/-!
# Marked blocks

A block of a file that belongs to the generator. It starts at the first line
that begins with the start marker and ends behind the next end marker and its
line end. Files are handled as bytes, so what stands around the block is never
decoded.
-/

namespace FirmwareCatalog

structure BlockMarkers where
  start : String
  stop : String
deriving DecidableEq

namespace MarkedBlock

def newline : UInt8 := 10

/-- The first line, with its line feed. -/
def firstLine : Bytes → Bytes
  | [] => []
  | b :: bs => if b = newline then [b] else b :: firstLine bs

/-- The lines, each with its line feed. -/
def lines : Bytes → List Bytes
  | [] => []
  | b :: bs =>
    if b = newline then [b] :: lines bs
    else match lines bs with
      | [] => [[b]]
      | line :: rest => (b :: line) :: rest

/-- Splits before the first line that begins with a marker. -/
def splitAtLine? (marker : Bytes) : (atStart : Bool) → Bytes → Option (Bytes × Bytes)
  | _, [] => none
  | atStart, b :: bs =>
    if atStart && marker.isPrefixOf (firstLine (b :: bs)) then some ([], b :: bs)
    else (splitAtLine? marker (b = newline) bs).map fun p => (b :: p.1, p.2)

/-- Splits before the first occurrence. -/
def splitAt? (needle : Bytes) : Bytes → Option (Bytes × Bytes)
  | [] => if needle.isEmpty then some ([], []) else none
  | b :: bs =>
    if needle.isPrefixOf (b :: bs) then some ([], b :: bs)
    else (splitAt? needle bs).map fun p => (b :: p.1, p.2)

/-- Splits behind a line end, if there is one. -/
def splitLineEnd : Bytes → Bytes × Bytes
  | 13 :: 10 :: bs => ([13, 10], bs)
  | 10 :: bs => ([10], bs)
  | bs => ([], bs)

/-- Where a block stands. -/
inductive Location where
  /-- The text before, in and behind the block. -/
  | found (before block after : Bytes)
  /-- A start marker without an end marker, and the text before it. -/
  | unterminated (before : Bytes)
  | absent

def locate (markers : BlockMarkers) (text : Bytes) : Location :=
  let start := textBytes markers.start
  let stop := textBytes markers.stop
  match splitAtLine? start true text with
  | none => .absent
  | some (before, rest) =>
    match splitAt? stop (rest.drop start.length) with
    | none => .unterminated before
    | some (inner, atStop) =>
      let (lineEnd, after) := splitLineEnd (atStop.drop stop.length)
      .found before (rest.take start.length ++ inner ++ atStop.take stop.length ++ lineEnd) after

/-- The number of the line behind a text, counted from one. -/
def lineBehind (before : Bytes) : Nat := before.count newline + 1

/-- What parts an appended block from the text: an empty line. -/
def separator (text : Bytes) : Bytes :=
  if text.isEmpty then []
  else if text.getLast? = some newline then [newline]
  else [newline, newline]

/-- What a splice does. -/
structure Spliced where
  text : Bytes
  /-- Whether a block stood there before. -/
  replaced : Bool

/-- Puts a block in the place of the one that is there, or at the end. The error is the line of a start marker
without an end marker. -/
def splice (markers : BlockMarkers) (block text : Bytes) : Except Nat Spliced :=
  match locate markers text with
  | .found before _ after => .ok ⟨before ++ block ++ after, true⟩
  | .unterminated before => .error (lineBehind before)
  | .absent => .ok ⟨text ++ separator text ++ block, false⟩

end MarkedBlock

end FirmwareCatalog
