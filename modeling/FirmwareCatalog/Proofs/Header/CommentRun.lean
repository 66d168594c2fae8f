import FirmwareCatalog.Header.StructArray
import FirmwareCatalog.Proofs.Character.Blank
import FirmwareCatalog.Proofs.Header.Token
import FirmwareCatalog.Proofs.Text.Digits

/-!
# Runs of comments

Comments that touch are read as one. Two of these runs are the same or have a
character between them, so there is at most one last run before a position that
announces an index.
-/

namespace FirmwareCatalog.Header

open Character Numeral Text

/-! ## Cutting by positions -/

theorem extract_append_extract {α : Type} {l : List α} {i j k : Nat} (hij : i ≤ j) (hjk : j ≤ k) :
    l.extract i j ++ l.extract j k = l.extract i k := by
  obtain ⟨m, rfl⟩ := Nat.exists_eq_add_of_le hij
  obtain ⟨n, rfl⟩ := Nat.exists_eq_add_of_le hjk
  rw [List.extract, List.extract, List.extract, Nat.add_sub_cancel_left, Nat.add_sub_cancel_left, Nat.add_assoc,
    Nat.add_sub_cancel_left, List.take_add, List.drop_drop]

theorem extract_between {α : Type} (front piece rest : List α) :
    (front ++ (piece ++ rest)).extract front.length (front.length + piece.length) = piece := by
  rw [List.extract, List.drop_left, Nat.add_sub_cancel_left, List.take_left]

theorem plain_extract (marked : List Marked) (i j : Nat) : plain (marked.extract i j) = (plain marked).extract i j := by
  simp [plain, List.extract]

/-! ## Announcements -/

/-- A comment that begins with the announcement of an index: the word, the digits and a colon. -/
inductive SaysIndex : List Char → Nat → Prop
  | intro {opener : String} {blanks gap digits space : List Char} (note : List Char)
      (opens : opener = "//" ∨ opener = "/*") (blank : ∀ c ∈ blanks, isBlank c = true)
      (apart : gap ≠ [] ∧ ∀ c ∈ gap, isBlank c = true) (numeral : IsNumeral 10 digits)
      (blankBehind : ∀ c ∈ space, isBlank c = true) (fits : magnitude 10 digits < 2 ^ 32) :
      SaysIndex (opener.toList ++ (blanks ++ ("Index".toList ++ (gap ++ (digits ++ (space ++ (":".toList ++ note)))))))
        (magnitude 10 digits)

theorem announcedIndex?_eq_some_iff {comment : List Char} {index : Nat} :
    announcedIndex? comment = some index ↔ SaysIndex comment index := by
  constructor
  · intro h
    unfold announcedIndex? at h
    simp only [Option.bind_eq_bind, Option.bind_eq_some_iff, Option.orElse_eq_orElse, Option.orElse_eq_or,
      Option.or_eq_some_iff, text?_eq_some_iff] at h
    obtain ⟨behindOpener, hopens, behindIndex, hindex, behindGap, hgap, ⟨digits, behindDigits⟩, hdigits,
      note, hnote, hread⟩ := h
    obtain ⟨blanks, hblanks, hblank, -⟩ := exists_skipBlanks behindOpener
    obtain ⟨gap, hne, hgapText, hgapBlank, -⟩ := someBlanks?_eq_some hgap
    obtain ⟨hdigitsText, -, hdecimal, -⟩ := someOf?_eq_some hdigits
    obtain ⟨space, hspace, hspaceBlank, -⟩ := exists_skipBlanks behindDigits
    obtain ⟨hwritten, hfits⟩ := (unsigned?_eq_some_iff (by decide)).mp hread
    have htext : behindOpener = blanks ++ ("Index".toList ++ (gap ++ (digits ++ (space ++ (":".toList ++ note))))) := by
      rw [hblanks, hindex, hgapText, hdigitsText, hspace, hnote]
    have hopener : ∃ opener, (opener = "//" ∨ opener = "/*") ∧ comment = opener.toList ++ behindOpener := by
      rcases hopens with rfl | ⟨-, rfl⟩
      · exact ⟨_, .inl rfl, rfl⟩
      · exact ⟨_, .inr rfl, rfl⟩
    obtain ⟨opener, hopener, rfl⟩ := hopener
    subst htext
    -- what was read as digits has no sign in front
    cases hwritten with
    | plain numeral => exact .intro note hopener hblank ⟨hne, hgapBlank⟩ numeral hspaceBlank hfits
    | plus => exact absurd (hdecimal '+' List.mem_cons_self) (by decide +kernel)
  · rintro ⟨note, hopens, hblank, ⟨hne, hgapBlank⟩, hnumeral, hspaceBlank, hfits⟩
    rename_i opener blanks gap digits space
    have hopener (text : List Char) :
        (text? "//" (opener.toList ++ text) <|> text? "/*" (opener.toList ++ text)) = some text := by
      rcases hopens with rfl | rfl <;> rfl
    have hindex (text : List Char) : text? "Index" (skipBlanks (blanks ++ ("Index".toList ++ text))) = some text :=
      text?_skipBlanks hblank (by decide) text
    have hbehind : StopsAt isDecimalDigit (space ++ (":".toList ++ note)) := by
      cases space with
      | nil => exact (stopsAt_cons _ _ _).mpr (by decide +kernel)
      | cons c space =>
        exact (stopsAt_cons _ _ _).mpr (isDecimalDigit_eq_false_of_isBlank (hspaceBlank c List.mem_cons_self))
    have hdecimal : ∀ c ∈ digits, isDecimalDigit c = true := fun c hc => isDecimalDigit_of_weight (hnumeral.2 c hc)
    have hstop : StopsAt isBlank (digits ++ (space ++ (":".toList ++ note))) :=
      StopsAt.append hnumeral.1
        (fun c hc => isBlank_eq_false_of_isDecimalDigit (hdecimal c (List.mem_of_head? hc))) _
    have hdigits : digits? (digits ++ (space ++ (":".toList ++ note))) = some (digits, space ++ (":".toList ++ note)) :=
      someOf?_append hdecimal hbehind hnumeral.1
    have hcolon : text? ":" (skipBlanks (space ++ (":".toList ++ note))) = some note :=
      text?_skipBlanks hspaceBlank (by decide) note
    unfold announcedIndex?
    simp only [hopener, hindex, someBlanks?_append hne hgapBlank hstop, hdigits, hcolon, Option.bind_eq_bind,
      Option.bind_some]
    exact (unsigned?_eq_some_iff (by decide)).mpr ⟨.plain hnumeral, hfits⟩

/-! ## Runs -/

section
variable (marked : List Marked)

def InComment (k : Nat) : Prop := ∃ m, marked[k]? = some m ∧ m.2.isComment = true

/-- Comments that touch, as many as there are. -/
structure IsRun (start stop : Nat) : Prop where
  ne : start < stop
  inside : ∀ k, start ≤ k → k < stop → InComment marked k
  before : ∀ k, k + 1 = start → ¬ InComment marked k
  behind : ¬ InComment marked stop

/-- A run that begins with the announcement of an index. -/
structure Announces (start stop index : Nat) : Prop where
  run : IsRun marked start stop
  opens : SaysIndex (plain (marked.extract start stop)) index

/-- The last run between two positions that announces an index. -/
structure LastAnnouncement (first limit start stop index : Nat) : Prop where
  announces : Announces marked start stop index
  behind : first ≤ start
  before : stop ≤ limit
  last : ∀ start' stop' index', start < start' → stop' ≤ limit → ¬ Announces marked start' stop' index'

end

section
variable {marked : List Marked}

theorem IsRun.lt_of_lt {start stop start' stop' : Nat} (h : IsRun marked start stop) (h' : IsRun marked start' stop')
    (hlt : start < start') : stop < start' := by
  by_contra hle
  exact h'.before (start' - 1) (by omega) (h.inside (start' - 1) (by omega) (by omega))

theorem IsRun.stop_eq {start stop stop' : Nat} (h : IsRun marked start stop) (h' : IsRun marked start stop') :
    stop = stop' := by
  rcases Nat.lt_trichotomy stop stop' with hlt | heq | hlt
  · exact absurd (h'.inside stop (Nat.le_of_lt h.ne) hlt) h.behind
  · exact heq
  · exact absurd (h.inside stop' (Nat.le_of_lt h'.ne) hlt) h'.behind

theorem SaysIndex.index_eq {comment : List Char} {index index' : Nat} (h : SaysIndex comment index)
    (h' : SaysIndex comment index') : index = index' :=
  Option.some.inj ((announcedIndex?_eq_some_iff.mpr h).symm.trans (announcedIndex?_eq_some_iff.mpr h'))

theorem LastAnnouncement.unique {first limit start stop index start' stop' index' : Nat}
    (h : LastAnnouncement marked first limit start stop index)
    (h' : LastAnnouncement marked first limit start' stop' index') : start = start' ∧ index = index' := by
  rcases Nat.lt_trichotomy start start' with hlt | rfl | hlt
  · exact absurd h'.announces (h.last _ _ _ hlt h'.before)
  · obtain rfl := h.announces.run.stop_eq h'.announces.run
    exact ⟨rfl, h.announces.opens.index_eq h'.announces.opens⟩
  · exact absurd h.announces (h'.last _ _ _ hlt h.before)

end

end FirmwareCatalog.Header
