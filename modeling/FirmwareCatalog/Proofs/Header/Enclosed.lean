import FirmwareCatalog.Proofs.Elementwise
import FirmwareCatalog.Proofs.Header.CommentRun
import FirmwareCatalog.Proofs.Header.Nesting
import Mathlib.Order.Bounds.Basic

/-!
# What a bracket encloses

A bracket is closed by the first closer behind it that has only matching brackets in
between. What stands in between begins and ends in code, so it is marked alone as it
is marked in its place, and a reader of the piece sees what a reader of the text saw.
-/

namespace FirmwareCatalog.Header

/-- The bracket at a position is closed at another: the piece in between is marked alone as it is marked in its place,
and its brackets match. -/
structure Encloses (opener closer : Char) (text : List Char) (position close : Nat) : Prop where
  behind : position < close
  closes : (mark text)[close]? = some (closer, .code)
  lexed : mark (text.extract (position + 1) close) = (mark text).extract (position + 1) close
  matched : BracketsMatch opener closer ((mark text).extract (position + 1) close)

theorem ne_of_closerOf? {opener closer : Char} (h : closerOf? opener = some closer) : opener ≠ closer := by
  obtain ⟨-, -, hopener, hcloser⟩ := nesting_of_closerOf? h
  rintro rfl
  rw [hopener] at hcloser
  cases hcloser

theorem closer_ne {opener closer : Char} (h : closerOf? opener = some closer) : closer ≠ '/' ∧ closer ≠ '*' := by
  have hcloser := (nesting_of_closerOf? h).2.2.2
  constructor
  · rintro rfl
    cases hcloser
  · rintro rfl
    cases hcloser

theorem bracketed?_opener (opener closer : Char) (front behind : List Marked) :
    bracketed? opener closer (front ++ (opener, .code) :: behind) front.length =
      splitClosing opener closer 1 behind := by
  rw [bracketed?, List.drop_left]
  rfl

section

variable {opener closer : Char} {text : List Char} {front inner rest : List Marked}

theorem extract_enclosed (h : mark text = front ++ (opener, .code) :: (inner ++ (closer, .code) :: rest)) :
    (mark text).extract (front.length + 1) (front.length + 1 + inner.length) = inner := by
  have := extract_between (front ++ [(opener, .code)]) inner ((closer, .code) :: rest)
  rwa [List.append_assoc, List.singleton_append, ← h, List.length_append, List.length_singleton] at this

theorem split_at_closer (h : mark text = front ++ (opener, .code) :: (inner ++ (closer, .code) :: rest)) :
    (mark text)[front.length + 1 + inner.length]? = some (closer, .code) ∧
      (mark text).drop (front.length + 1 + inner.length + 1) = rest := by
  have hsplit : mark text = (front ++ (opener, .code) :: inner) ++ (closer, .code) :: rest := by
    rw [h, List.append_assoc, List.cons_append]
  have hlength : front.length + 1 + inner.length = (front ++ (opener, .code) :: inner).length := by
    rw [List.length_append, List.length_cons]
    omega
  rw [hlength, hsplit]
  constructor
  · exact getElem?_append_length _ _ _
  · rw [← List.drop_drop, List.drop_left]
    rfl

theorem encloses_iff (hpair : closerOf? opener = some closer) {behind : List Marked}
    (h : mark text = front ++ (opener, .code) :: behind) {close : Nat} :
    Encloses opener closer text front.length close ↔
      ∃ inner rest, close = front.length + 1 + inner.length ∧
        splitClosing opener closer 1 behind = some (inner, rest) := by
  have hne := ne_of_closerOf? hpair
  obtain ⟨hslash, hstar⟩ := closer_ne hpair
  constructor
  · intro hencloses
    obtain ⟨n, rfl⟩ := Nat.exists_eq_add_of_lt hencloses.behind
    have hcloses : behind[n]? = some (closer, .code) := by
      have := hencloses.closes
      rwa [h, List.getElem?_append_right (by omega), show front.length + n + 1 - front.length = n + 1 by omega,
        List.getElem?_cons_succ] at this
    obtain ⟨inner, rest, rfl, rfl⟩ := exists_append_of_getElem? hcloses
    have hmatched := hencloses.matched
    rw [Nat.add_right_comm, extract_enclosed h] at hmatched
    exact ⟨inner, rest, by omega, (splitClosing_one_eq_some_iff hne).mpr ⟨rfl, hmatched⟩⟩
  · intro ⟨inner, rest, hclose, hclosing⟩
    obtain ⟨rfl, hmatched⟩ := (splitClosing_one_eq_some_iff hne).mp hclosing
    have hinner := extract_enclosed h
    rw [hclose]
    exact
      { behind := by omega
        closes := (split_at_closer h).1
        lexed := by
          have hplain := plain_extract (mark text) (front.length + 1) (front.length + 1 + inner.length)
          rw [hinner, plain_mark] at hplain
          rw [hinner, ← hplain, mark_plain_between hslash hstar h]
        matched := by rwa [hinner] }

end

/-- **What a bracket encloses is lexed as a text of its own.** For a bracket in code, the search for its closer ends at
the first position behind it that closes it, and gives what stands in between and behind; it fails where no position
does. -/
theorem bracketed?_iff_encloses {opener closer : Char} (hpair : closerOf? opener = some closer) {text : List Char}
    {position : Nat} (hopens : (mark text)[position]? = some (opener, .code)) {inner rest : List Marked} :
    bracketed? opener closer (mark text) position = some (inner, rest) ↔
      ∃ close, IsLeast {k | Encloses opener closer text position k} close ∧
        inner = (mark text).extract (position + 1) close ∧ rest = (mark text).drop (close + 1) := by
  have hne := ne_of_closerOf? hpair
  obtain ⟨front, behind, h, rfl⟩ := exists_append_of_getElem? hopens
  have hsearch : bracketed? opener closer (mark text) front.length = splitClosing opener closer 1 behind := by
    rw [h, bracketed?_opener]
  rw [hsearch]
  constructor
  · intro hclosing
    have hleast : IsLeast {k | Encloses opener closer text front.length k} (front.length + 1 + inner.length) := by
      refine ⟨(encloses_iff hpair h).mpr ⟨inner, rest, rfl, hclosing⟩, ?_⟩
      -- the search ends once, so no other position closes
      intro k hk
      obtain ⟨inner', rest', hclose, hclosing'⟩ := (encloses_iff hpair h).mp hk
      rw [hclosing] at hclosing'
      cases hclosing'
      exact Nat.le_of_eq hclose.symm
    obtain ⟨rfl, -⟩ := (splitClosing_one_eq_some_iff hne).mp hclosing
    exact ⟨_, hleast, (extract_enclosed h).symm, (split_at_closer h).2.symm⟩
  · intro ⟨close, hleast, hinner, hrest⟩
    obtain ⟨inner', rest', rfl, hclosing⟩ := (encloses_iff hpair h).mp hleast.1
    obtain ⟨rfl, -⟩ := (splitClosing_one_eq_some_iff hne).mp hclosing
    rw [hclosing, hinner, hrest, extract_enclosed h, (split_at_closer h).2]

def quotedCloser : List Char := "f(a /*)*/, \")\", (b)), c".toList

theorem bracketed?_iff_encloses_quotedCloser : (mark quotedCloser)[1]? = some ('(', .code) ∧
    ∃ close, IsLeast {k | Encloses '(' ')' quotedCloser 1 k} close ∧
      mark "a /*)*/, \")\", (b)".toList = (mark quotedCloser).extract 2 close ∧
      mark ", c".toList = (mark quotedCloser).drop (close + 1) := by
  have hopens : (mark quotedCloser)[1]? = some ('(', .code) := by decide
  exact ⟨hopens, (bracketed?_iff_encloses rfl hopens).mp (by decide)⟩

end FirmwareCatalog.Header
