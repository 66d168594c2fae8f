import FirmwareCatalog.Proofs.Character.Blank
import FirmwareCatalog.Proofs.Header.InvocationSource
import FirmwareCatalog.Proofs.Header.Nesting
import Mathlib.Data.List.Forall2

/-!
# Reading written arguments back

Around an argument blanks may stand, and backslashes that continue the line.
Once the lines are joined only blanks are left of them. The argument itself is
left alone, unless a backslash of it stands before the end of a line.
-/

namespace FirmwareCatalog.Header

open Character Text

/-! ## What is written -/

inductive SpacePiece where
  | blank (c : Char) (h : isBlank c = true)
  /-- A backslash at the end of a line. -/
  | continuation (carriageReturn : Bool)

def SpacePiece.source : SpacePiece → List Char
  | .blank c _ => [c]
  | .continuation false => ['\\', '\n']
  | .continuation true => ['\\', '\r', '\n']

def spacing (pieces : List SpacePiece) : List Char := pieces.flatMap SpacePiece.source

/-- An item in which no backslash ends a line and no invocation of the macro begins in code. -/
structure Argument (form : InvocationForm) where
  text : List Char
  item : IsItem text
  unbroken : ∀ n < text.length, text[n]? = some '\\' → lineEnd? (text.drop (n + 1)) = none
  opensNone : ∀ n < text.length, zoneAt? (mark text) n = some .code →
    invocationHead? form.macroName.toList none (text.drop n) = none

/-- An argument and what stands around it. A backslash at its end is not made the end of a line by what
follows. -/
structure Slot (form : InvocationForm) where
  before : List SpacePiece
  argument : Argument form
  behind : List SpacePiece
  apart : argument.text.getLast? = some '\\' → lineEnd? (spacing behind) = none

def Slot.source {form : InvocationForm} (slot : Slot form) : List Char :=
  spacing slot.before ++ (slot.argument.text ++ spacing slot.behind)

/-! ## Joined lines -/

def Spaced (text part : List Char) : Prop :=
  ∃ before behind, (∀ c ∈ before, isBlank c = true) ∧ (∀ c ∈ behind, isBlank c = true) ∧
    part = before ++ (text ++ behind)

theorem joinLinesFrom_of_stops {text : List Char} (h : StopsAt isBlank text) :
    joinLinesFrom true 0 text = joinLinesFrom false 0 text := by
  cases text with
  | nil => rfl
  | cons c text =>
    have hc : isBlank c = false := (stopsAt_cons _ _ _).mp h
    rw [joinLinesFrom, joinLinesFrom]
    split
    · rfl
    · rw [hc, Bool.and_false, Bool.and_false]

theorem joinLinesFrom_unbroken {text rest : List Char}
    (h : ∀ x y, text = x ++ '\\' :: y → lineEnd? (y ++ rest) = none) :
    joinLinesFrom false 0 (text ++ rest) = text ++ joinLinesFrom false 0 rest := by
  induction text with
  | nil => rfl
  | cons c text ih =>
    have hnone : (if c = '\\' then lineEnd? (text ++ rest) else none) = none := by
      by_cases hc : c = '\\'
      · rw [if_pos hc]
        exact h [] text (by rw [hc]; rfl)
      · rw [if_neg hc]
    rw [List.cons_append, joinLinesFrom, hnone, ih fun x y htext => h (c :: x) y (by rw [htext]; rfl)]
    rfl

theorem joinLinesFrom_piece (piece : SpacePiece) (joining : Bool) :
    ∃ blanks joining', (∀ c ∈ blanks, isBlank c = true) ∧ ∀ rest,
      joinLinesFrom joining 0 (piece.source ++ rest) = blanks ++ joinLinesFrom joining' 0 rest := by
  have hspace : ∀ c ∈ [' '], isBlank c = true := by decide
  cases piece with
  | blank c h =>
    have hc : c ≠ '\\' := by rintro rfl; exact absurd h (by decide)
    cases joining with
    | false =>
      refine ⟨[c], false, by simpa using h, fun rest => ?_⟩
      simp [SpacePiece.source, joinLinesFrom, hc]
    | true =>
      refine ⟨[], true, fun _ hc => (nomatch hc), fun rest => ?_⟩
      simp [SpacePiece.source, joinLinesFrom, hc, h]
  | continuation carriageReturn =>
    refine ⟨[' '], true, hspace, fun rest => ?_⟩
    cases carriageReturn with
    | false =>
      have hskip : rest.length + 1 - rest.length = 1 := by omega
      simp [SpacePiece.source, joinLinesFrom, lineEnd?, hskip]
    | true =>
      have hskip : rest.length + 1 + 1 - rest.length = 2 := by omega
      simp [SpacePiece.source, joinLinesFrom, lineEnd?, hskip]

theorem joinLinesFrom_spacing (pieces : List SpacePiece) (joining : Bool) :
    ∃ blanks joining', (∀ c ∈ blanks, isBlank c = true) ∧ ∀ rest,
      joinLinesFrom joining 0 (spacing pieces ++ rest) = blanks ++ joinLinesFrom joining' 0 rest := by
  induction pieces generalizing joining with
  | nil => exact ⟨[], joining, fun _ hc => (nomatch hc), fun _ => rfl⟩
  | cons piece pieces ih =>
    obtain ⟨blanks, joining', hblanks, hpiece⟩ := joinLinesFrom_piece piece joining
    obtain ⟨blanks', joining'', hblanks', hpieces⟩ := ih joining'
    refine ⟨blanks ++ blanks', joining'', fun c hc => ?_, fun rest => ?_⟩
    · exact (List.mem_append.mp hc).elim (hblanks c) (hblanks' c)
    · rw [spacing, List.flatMap_cons, List.append_assoc, hpiece, ← spacing, hpieces, List.append_assoc]

theorem lineEnd?_append {a b : List Char} (ha : lineEnd? a = none) (hnil : a = [] → lineEnd? b = none)
    (hreturn : a = ['\r'] → b.head? ≠ some '\n') : lineEnd? (a ++ b) = none := by
  cases a with
  | nil => exact hnil rfl
  | cons c a =>
    by_cases hc : c = '\n'
    · subst hc
      cases ha
    · by_cases hr : c = '\r'
      · subst hr
        cases a with
        | nil =>
          cases b with
          | nil => rfl
          | cons d b =>
            have hd : d ≠ '\n' := by rintro rfl; exact hreturn rfl rfl
            simp [lineEnd?, hd]
        | cons d a =>
          have hd : d ≠ '\n' := by rintro rfl; cases ha
          simp [lineEnd?, hd]
      · simp [lineEnd?, hc, hr]

section
variable {form : InvocationForm}

theorem Argument.lineEnd?_behind (argument : Argument form) {x y : List Char}
    (h : argument.text = x ++ '\\' :: y) : lineEnd? y = none := by
  have := argument.unbroken x.length (by rw [h]; simp) (by rw [h]; simp)
  rwa [h, ← List.drop_drop, List.drop_left] at this

theorem Slot.unbroken (slot : Slot form) {rest : List Char} (hrest : ∀ c ∈ rest.head?, c = ',') :
    ∀ x y, slot.argument.text = x ++ '\\' :: y → lineEnd? (y ++ (spacing slot.behind ++ rest)) = none := by
  intro x y htext
  have hend : lineEnd? rest = none := by
    cases rest with
    | nil => rfl
    | cons c rest =>
      rw [hrest c rfl]
      rfl
  refine lineEnd?_append (slot.argument.lineEnd?_behind htext) (fun hy => ?_) fun hy => ?_
  · subst hy
    refine lineEnd?_append (slot.apart (by rw [htext, List.getLast?_concat])) (fun _ => hend) fun _ hn => ?_
    exact absurd (hrest '\n' hn) (by decide)
  · -- the last character of an argument is no blank
    have hlast := @not_isBlank_of_mem_getLast?_trim slot.argument.text '\r' (by
      rw [slot.argument.item.trimmed, htext, hy]
      simp)
    exact absurd hlast (by decide)

theorem Slot.joinLinesFrom_source (slot : Slot form) (joining : Bool) :
    ∃ part joining', Spaced slot.argument.text part ∧ ∀ rest, (∀ c ∈ rest.head?, c = ',') →
      joinLinesFrom joining 0 (slot.source ++ rest) = part ++ joinLinesFrom joining' 0 rest := by
  obtain ⟨before, joining₁, hbefore, hjoin⟩ := joinLinesFrom_spacing slot.before joining
  by_cases hnil : slot.argument.text = []
  · obtain ⟨behind, joining₂, hbehind, hjoin'⟩ := joinLinesFrom_spacing slot.behind joining₁
    refine ⟨before ++ ([] ++ behind), joining₂, ⟨before, behind, hbefore, hbehind, by rw [hnil]⟩,
      fun rest _ => ?_⟩
    rw [source, hnil, List.append_assoc, hjoin, List.append_assoc, List.nil_append, hjoin', List.nil_append,
      List.append_assoc]
  · obtain ⟨behind, joining₂, hbehind, hjoin'⟩ := joinLinesFrom_spacing slot.behind false
    refine ⟨before ++ (slot.argument.text ++ behind), joining₂, ⟨before, behind, hbefore, hbehind, rfl⟩,
      fun rest hrest => ?_⟩
    have hstop : StopsAt isBlank (slot.argument.text ++ (spacing slot.behind ++ rest)) := by
      refine StopsAt.append hnil ?_ _
      rw [← slot.argument.item.trimmed]
      exact stopsAt_trim _
    have hfalse : joinLinesFrom joining₁ 0 (slot.argument.text ++ (spacing slot.behind ++ rest)) =
        joinLinesFrom false 0 (slot.argument.text ++ (spacing slot.behind ++ rest)) := by
      cases joining₁ with
      | false => rfl
      | true => exact joinLinesFrom_of_stops hstop
    rw [source, List.append_assoc, hjoin, List.append_assoc, hfalse,
      joinLinesFrom_unbroken (slot.unbroken hrest), hjoin']
    simp

theorem joinLinesFrom_comma (joining : Bool) (rest : List Char) :
    joinLinesFrom joining 0 (',' :: rest) = ',' :: joinLinesFrom false 0 rest := by
  have hblank : isBlank ',' = false := by decide
  simp [joinLinesFrom, hblank]

theorem joinLinesFrom_slots (slots : List (Slot form)) (joining : Bool) :
    ∃ parts, List.Forall₂ (fun slot part => Spaced slot.argument.text part) slots parts ∧
      joinLinesFrom joining 0 (List.intercalate [','] (slots.map Slot.source)) = List.intercalate [','] parts := by
  induction slots generalizing joining with
  | nil => exact ⟨[], .nil, rfl⟩
  | cons slot slots ih =>
    obtain ⟨part, joining', hpart, hjoin⟩ := slot.joinLinesFrom_source joining
    cases slots with
    | nil =>
      refine ⟨[part], .cons hpart .nil, ?_⟩
      have := hjoin [] (fun _ hc => nomatch hc)
      simpa [joinLinesFrom] using this
    | cons slot' slots =>
      obtain ⟨parts, hparts, hrest⟩ := ih false
      obtain ⟨part', parts, rfl⟩ : ∃ part' parts', parts = part' :: parts' := by
        cases hparts
        exact ⟨_, _, rfl⟩
      refine ⟨part :: part' :: parts, .cons hpart hparts, ?_⟩
      rw [List.map_cons] at hrest
      rw [List.map_cons, List.map_cons, List.intercalate_cons_cons, List.intercalate_cons_cons,
        List.append_assoc, List.append_assoc, List.singleton_append, List.singleton_append,
        hjoin _ (by simp), joinLinesFrom_comma, hrest]

end

/-! ## Split arguments -/

theorem Spaced.isPart {text part : List Char} (h : Spaced text part) (hitem : IsItem text) : IsPart part := by
  obtain ⟨before, behind, hbefore, hbehind, rfl⟩ := h
  have hloose : ∀ {blanks : List Char}, (∀ c ∈ blanks, isBlank c = true) → ∀ c ∈ blanks, isLoose c = true :=
    fun h c hc => isLoose_of_isBlank (h c hc)
  exact (isPart_of_loose (hloose hbefore)).append
    (hitem.isPart.append (isPart_of_loose (hloose hbehind))
      (hitem.isPart.lexed.joins (stopsAt_isPairEnd_of_isBlank hbehind)))
    (joins_of_plain (isPlain_of_loose (hloose hbefore)) _)

theorem Spaced.trim {text part : List Char} (h : Spaced text part) : trim part = trim text := by
  obtain ⟨before, behind, hbefore, hbehind, rfl⟩ := h
  rw [trim_blanks_append hbefore, trim_append_blanks hbehind]

theorem Spaced.isBlankText {text part : List Char} (h : Spaced text part) (htrim : Text.trim text = text)
    (hne : text ≠ []) : isBlankText part = false := by
  obtain ⟨before, behind, -, -, rfl⟩ := h
  obtain ⟨c, tail, rfl⟩ := List.exists_cons_of_ne_nil hne
  have hc : isBlank c = false := by
    have := stopsAt_trim (c :: tail)
    rw [htrim] at this
    exact (stopsAt_cons _ _ _).mp this
  by_contra hblank
  rw [Bool.not_eq_false] at hblank
  rw [List.all_eq_true.mp hblank c (by simp)] at hc
  cases hc

end FirmwareCatalog.Header
