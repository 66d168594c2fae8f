import FirmwareCatalog.Header.Scan
import Mathlib.Data.List.TakeWhile

/-!
# Tokens

What the readers of fixed texts, blanks and character classes take off the front
of a text, said both ways: what they leave tells what stood there, and where it
stands they take it.
-/

namespace FirmwareCatalog.Header

open Character Text

/-- A text that does not go on with a character of a class. -/
def StopsAt (p : Char → Bool) (text : List Char) : Prop := ∀ c ∈ text.head?, p c = false

@[simp] theorem stopsAt_nil (p : Char → Bool) : StopsAt p [] := by simp [StopsAt]

@[simp] theorem stopsAt_cons (p : Char → Bool) (c : Char) (text : List Char) :
    StopsAt p (c :: text) ↔ p c = false := by simp [StopsAt]

theorem stopsAt_dropWhile (p : Char → Bool) (text : List Char) : StopsAt p (text.dropWhile p) := by
  intro c hc
  have := List.head?_dropWhile_not p text
  rw [Option.mem_def.mp hc] at this
  simpa using this

theorem StopsAt.append {p : Char → Bool} {a : List Char} (hne : a ≠ []) (h : StopsAt p a)
    (b : List Char) :
    StopsAt p (a ++ b) := by
  cases a with
  | nil => exact absurd rfl hne
  | cons c a => exact (stopsAt_cons p c _).mpr ((stopsAt_cons p c a).mp h)

/-! ## Character classes -/

section
variable {p : Char → Bool} {a rest : List Char} (ha : ∀ c ∈ a, p c = true) (hrest : StopsAt p rest)

include hrest in
theorem takeWhile_eq_nil_of_stopsAt : rest.takeWhile p = [] := by
  cases rest with
  | nil => rfl
  | cons c rest => rw [List.takeWhile_cons_of_neg (by simpa using hrest)]

include hrest in
theorem dropWhile_eq_self_of_stopsAt : rest.dropWhile p = rest := by
  cases rest with
  | nil => rfl
  | cons c rest => rw [List.dropWhile_cons_of_neg (by simpa using hrest)]

include ha hrest

theorem takeWhile_append_of_stopsAt : (a ++ rest).takeWhile p = a := by
  rw [List.takeWhile_append_of_pos ha, takeWhile_eq_nil_of_stopsAt hrest, List.append_nil]

theorem dropWhile_append_of_stopsAt : (a ++ rest).dropWhile p = rest := by
  rw [List.dropWhile_append_of_pos ha, dropWhile_eq_self_of_stopsAt hrest]

theorem someOf?_append (hne : a ≠ []) : someOf? p (a ++ rest) = some (a, rest) := by
  rw [someOf?, takeWhile_append_of_stopsAt ha hrest, dropWhile_append_of_stopsAt ha hrest,
    if_neg (by simpa using hne)]

end

theorem someOf?_eq_some {p : Char → Bool} {text word rest : List Char}
    (h : someOf? p text = some (word, rest)) :
    text = word ++ rest ∧ word ≠ [] ∧ (∀ c ∈ word, p c = true) ∧ StopsAt p rest := by
  unfold someOf? at h
  split at h
  · cases h
  · rename_i hne
    cases h
    exact ⟨List.takeWhile_append_dropWhile.symm, by simpa using hne,
      fun c hc => List.mem_takeWhile_imp hc,
      stopsAt_dropWhile p text⟩

/-! ## Blanks -/

theorem skipBlanks_of_stopsAt {text : List Char} (h : StopsAt isBlank text) : skipBlanks text = text :=
  dropWhile_eq_self_of_stopsAt h

theorem skipBlanks_append {blanks rest : List Char} (hblanks : ∀ c ∈ blanks, isBlank c = true)
    (hrest : StopsAt isBlank rest) : skipBlanks (blanks ++ rest) = rest :=
  dropWhile_append_of_stopsAt hblanks hrest

theorem skipBlanks_cons {c : Char} (h : isBlank c = true) (text : List Char) :
    skipBlanks (c :: text) = skipBlanks text :=
  List.dropWhile_cons_of_pos h

theorem exists_skipBlanks (text : List Char) :
    ∃ blanks, text = blanks ++ skipBlanks text ∧ (∀ c ∈ blanks, isBlank c = true) ∧ StopsAt isBlank
    (skipBlanks text) :=
  ⟨text.takeWhile isBlank, List.takeWhile_append_dropWhile.symm, fun _ hc => List.mem_takeWhile_imp hc,
    stopsAt_dropWhile isBlank text⟩

theorem someBlanks?_cons {c : Char} (h : isBlank c = true) (text : List Char) :
    someBlanks? (c :: text) = some (skipBlanks text) := by
  rw [someBlanks?, if_pos h]

theorem someBlanks?_append {blanks rest : List Char} (hne : blanks ≠ [])
    (hblanks : ∀ c ∈ blanks, isBlank c = true)
    (hrest : StopsAt isBlank rest) : someBlanks? (blanks ++ rest) = some rest := by
  cases blanks with
  | nil => exact absurd rfl hne
  | cons b blanks =>
    obtain ⟨hb, hblanks⟩ := List.forall_mem_cons.mp hblanks
    rw [List.cons_append, someBlanks?_cons hb, skipBlanks_append hblanks hrest]

theorem someBlanks?_eq_some {text rest : List Char} (h : someBlanks? text = some rest) :
    ∃ blanks, blanks ≠ [] ∧ text = blanks ++ rest ∧ (∀ c ∈ blanks, isBlank c = true) ∧
      StopsAt isBlank rest := by
  cases text with
  | nil => cases h
  | cons c text =>
    rw [someBlanks?] at h
    split at h
    · rename_i hc
      cases h
      obtain ⟨blanks, htext, hblanks, hstop⟩ := exists_skipBlanks text
      exact ⟨c :: blanks, List.cons_ne_nil _ _, by rw [List.cons_append, ← htext],
        List.forall_mem_cons.mpr ⟨hc, hblanks⟩, hstop⟩
    · cases h

theorem StopsAt.of_isPrefix {p : Char → Bool} {a b : List Char} (hb : StopsAt p b) (h : a <+: b) :
    StopsAt p a := by
  cases a with
  | nil => exact stopsAt_nil p
  | cons c a =>
    obtain ⟨rest, rfl⟩ := h
    exact (stopsAt_cons p c a).mpr ((stopsAt_cons p c _).mp hb)

theorem trimEnd_isPrefix (text : List Char) : trimEnd text <+: text := by
  rw [trimEnd, ← List.reverse_suffix, List.reverse_reverse]
  exact List.dropWhile_suffix _

theorem stopsAt_trim (text : List Char) : StopsAt isBlank (trim text) :=
  (stopsAt_dropWhile isBlank text).of_isPrefix (trimEnd_isPrefix _)

theorem trim_eq_self {text : List Char} (hfirst : StopsAt isBlank text)
    (hlast : ∀ c ∈ text.getLast?, isBlank c = false) :
    trim text = text := by
  have hreverse : StopsAt isBlank text.reverse := by
    intro c hc
    rw [List.head?_reverse] at hc
    exact hlast c hc
  rw [trim, trimStart, dropWhile_eq_self_of_stopsAt hfirst, trimEnd,
    dropWhile_eq_self_of_stopsAt hreverse, List.reverse_reverse]

theorem trim_blanks_append {blanks : List Char} (h : ∀ c ∈ blanks, isBlank c = true) (text : List Char) :
    trim (blanks ++ text) = trim text := by
  rw [trim, trim, trimStart, trimStart, List.dropWhile_append_of_pos h]

theorem trim_append_blanks {blanks : List Char} (h : ∀ c ∈ blanks, isBlank c = true) (text : List Char) :
    trim (text ++ blanks) = trim text := by
  have hend (front : List Char) : trimEnd (front ++ blanks) = trimEnd front := by
    rw [trimEnd, trimEnd, List.reverse_append,
      List.dropWhile_append_of_pos fun c hc => h c (List.mem_reverse.mp hc)]
  rw [trim, trim, trimStart, trimStart, List.dropWhile_append]
  split
  · rename_i hempty
    rw [List.isEmpty_iff.mp hempty, List.dropWhile_eq_nil_iff.mpr h]
  · exact hend _

theorem not_isBlank_of_mem_getLast?_trim {text : List Char} : ∀ c ∈ (trim text).getLast?, isBlank c = false := by
  intro c hc
  rw [trim, trimEnd, List.getLast?_reverse] at hc
  exact stopsAt_dropWhile isBlank _ c hc

/-! ## Fixed texts -/

theorem text?_append (s : String) (rest : List Char) : text? s (s.toList ++ rest) = some rest :=
  after?_append _ _

theorem text?_eq_some_iff {s : String} {text rest : List Char} :
    text? s text = some rest ↔ text = s.toList ++ rest :=
  ⟨eq_append_of_after?, fun h => h ▸ text?_append s rest⟩

/-! ## Tokens in a row -/

section
variable {blanks : List Char} {s : String} (hblanks : ∀ c ∈ blanks, isBlank c = true)
  (hs : s.toList.head?.any (fun c => !isBlank c) = true) (rest : List Char)

include hs in
theorem stopsAt_text : StopsAt isBlank (s.toList ++ rest) := by
  cases htext : s.toList with
  | nil => simp [htext] at hs
  | cons c text => simpa [htext] using hs

include hblanks hs

theorem someBlanks?_text (hne : blanks ≠ []) :
    someBlanks? (blanks ++ (s.toList ++ rest)) = some (s.toList ++ rest) :=
  someBlanks?_append hne hblanks (stopsAt_text hs rest)

theorem text?_skipBlanks : text? s (skipBlanks (blanks ++ (s.toList ++ rest))) = some rest := by
  rw [skipBlanks_append hblanks (stopsAt_text hs rest), text?_append]

end

theorem StopsAt.replace {p : Char → Bool} {a rest : List Char} (h : StopsAt p (a ++ rest))
    (hne : a ≠ []) (rest' : List Char) :
    StopsAt p (a ++ rest') := by
  cases a with
  | nil => exact absurd rfl hne
  | cons c a => exact (stopsAt_cons p c _).mpr ((stopsAt_cons p c _).mp h)

theorem word?_append {word front rest : List Char} (hword : ∀ d ∈ word, isWord d = true)
    (hne : word ≠ [])
    (hstop : StopsAt isWord (front ++ rest)) (hfront : front ≠ []) (rest' : List Char) :
    word? (word ++ (front ++ rest')) = some (word, front ++ rest') :=
  someOf?_append hword (hstop.replace hfront rest') hne

end FirmwareCatalog.Header
