import FirmwareCatalog.Header.Zone
import FirmwareCatalog.Text.Trim

/-!
# Brackets and commas

Only brackets and commas in code count. A bracketed piece ends at the closer
that leaves none of its openers open; a list of items is split at the commas
that stand outside all brackets.
-/

namespace FirmwareCatalog.Header

/-- Splits before and behind the closer that ends `depth` open brackets. -/
def splitClosing (opener closer : Char) : (depth : Int) → List Marked → Option (List Marked × List Marked)
  | _, [] => none
  | depth, (c, zone) :: rest =>
    if zone = .code ∧ c = closer then
      if depth = 1 then some ([], rest)
      else (splitClosing opener closer (depth - 1) rest).map fun p => ((c, zone) :: p.1, p.2)
    else if zone = .code ∧ c = opener then
      (splitClosing opener closer (depth + 1) rest).map fun p => ((c, zone) :: p.1, p.2)
    else (splitClosing opener closer depth rest).map fun p => ((c, zone) :: p.1, p.2)

/-- What stands between the opener at a position and its closer, and what follows. An opener outside code
opens nothing. -/
def bracketed? (opener closer : Char) (marked : List Marked) (position : Nat) :
    Option (List Marked × List Marked) :=
  match marked.drop position with
  | [] => none
  | (_, zone) :: rest => splitClosing opener closer (if zone = .code then 1 else 0) rest

theorem splitClosing_length {opener closer : Char} :
    ∀ {marked : List Marked} {depth : Int} {inner rest : List Marked},
    splitClosing opener closer depth marked = some (inner, rest) → rest.length < marked.length
  | [], _, _, _, h => by simp [splitClosing] at h
  | (c, zone) :: marked, depth, inner, rest, h => by
    have step : ∀ d, (splitClosing opener closer d marked).map (fun p => ((c, zone) :: p.1, p.2)) =
        some (inner, rest) →
        rest.length < ((c, zone) :: marked).length := by
      intro d hd
      obtain ⟨p, hp, he⟩ := Option.map_eq_some_iff.mp hd
      have := splitClosing_length hp
      simp only [Prod.mk.injEq] at he
      rw [List.length_cons, ← he.2]; omega
    simp only [splitClosing] at h
    split at h
    · split at h
      · simp only [Option.some.injEq, Prod.mk.injEq] at h
        rw [List.length_cons, ← h.2]; omega
      · exact step _ h
    · split at h
      · exact step _ h
      · exact step _ h

/-- How a character changes the nesting depth. -/
def nesting (c : Char) : Int :=
  if c = '(' ∨ c = '{' ∨ c = '[' then 1
  else if c = ')' ∨ c = '}' ∨ c = ']' then -1
  else 0

/-- Puts a character in front of the first part. -/
def consFirst (c : Char) : List (List Char) → List (List Char)
  | [] => [[c]]
  | part :: parts => (c :: part) :: parts

/-- The parts between the commas at depth zero. The depth is any integer: no text short of 2 ^ 31 brackets leads to one
that 32 bits do not hold. -/
def splitCommas : (depth : Int) → List Marked → List (List Char)
  | _, [] => [[]]
  | depth, (c, zone) :: rest =>
    if zone = .code ∧ c = ',' ∧ depth = 0 then [] :: splitCommas depth rest
    else consFirst c (splitCommas (if zone = .code then depth + nesting c else depth) rest)

/-- A blank last part is none. -/
def dropBlankLast : List (List Char) → List (List Char)
  | [] => []
  | [part] => if Text.isBlankText part then [] else [part]
  | part :: parts => part :: dropBlankLast parts

/-- The items of a list. -/
def splitTopLevel (text : List Char) : List (List Char) := dropBlankLast (splitCommas 0 (mark text))

end FirmwareCatalog.Header
