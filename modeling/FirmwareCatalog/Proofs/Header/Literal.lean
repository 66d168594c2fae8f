import FirmwareCatalog.Header.Literal
import FirmwareCatalog.Proofs.Header.Fence

/-!
# Literals and strings

What is read as a literal in code is a string to the lexer too, as long as no
line ends inside it. Adjacent literals are a piece that reads the same before
any semicolon.
-/

namespace FirmwareCatalog.Header

open Character LexState

/-! ## Literals -/

def literalState (escaped : Bool) : LexState :=
  if escaped then .second .string .string else .inside .string

theorem literalBody?_cons {escaped : Bool} {c : Char} (hline : escaped = true → c ≠ '\n')
    (hquote : escaped = false → c ≠ '"') (cs : List Char) :
    literalBody? escaped (c :: cs) = (literalBody? (!escaped && c == '\\') cs).map fun p => (c :: p.1, p.2) := by
  cases escaped with
  | true =>
    rw [literalBody?, if_neg (hline rfl)]
    rfl
  | false =>
    rw [literalBody?, if_neg (hquote rfl)]
    rfl

theorem literalBody?_cons_eq_some {escaped : Bool} {c : Char} {cs body rest : List Char}
    (h : literalBody? escaped (c :: cs) = some (body, rest)) :
    (escaped = false ∧ c = '"' ∧ body = [] ∧ cs = rest) ∨
      ∃ body', body = c :: body' ∧ (escaped = true → c ≠ '\n') ∧ (escaped = false → c ≠ '"') ∧
        literalBody? (!escaped && c == '\\') cs = some (body', rest) := by
  by_cases hclosed : escaped = false ∧ c = '"'
  · obtain ⟨rfl, rfl⟩ := hclosed
    rw [literalBody?, if_pos rfl, Option.some.injEq, Prod.mk.injEq] at h
    exact .inl ⟨rfl, rfl, h.1.symm, h.2⟩
  · have hquote : escaped = false → c ≠ '"' := fun hescaped hc => hclosed ⟨hescaped, hc⟩
    have hline : escaped = true → c ≠ '\n' := by
      rintro rfl rfl
      cases h
    rw [literalBody?_cons hline hquote] at h
    obtain ⟨p, hp, he⟩ := Option.map_eq_some_iff.mp h
    cases he
    exact .inr ⟨p.1, rfl, hline, hquote, hp⟩

theorem literalBody?_nil (escaped : Bool) : literalBody? escaped [] = none := by
  cases escaped <;> rfl

/-- What is read as a literal is a string to the lexer, unless a line ends inside it. -/
theorem markFrom_of_literalBody? {cs : List Char} : ∀ {escaped : Bool} {body rest : List Char},
    literalBody? escaped cs = some (body, rest) →
      markFrom (literalState escaped) cs = inZone .string (body ++ ['"']) ++ mark rest ∨
        ∃ front tail, markFrom (literalState escaped) cs = inZone .string (front ++ ['\n']) ++ tail := by
  induction cs with
  | nil =>
    intro escaped _ _ h
    rw [literalBody?_nil] at h
    cases h
  | cons c cs ih =>
    intro escaped body rest h
    -- a line that ends inside the literal leaves the lexer in code, behind a backslash it does not
    by_cases hend : escaped = false ∧ c = '\n'
    · obtain ⟨rfl, rfl⟩ := hend
      exact .inr ⟨[], mark cs, rfl⟩
    rcases literalBody?_cons_eq_some h with ⟨rfl, rfl, rfl, rfl⟩ | ⟨body, rfl, -, hquote, hbody⟩
    · exact .inl rfl
    have hstep : markFrom (literalState escaped) (c :: cs) =
        (c, .string) :: markFrom (literalState (!escaped && c == '\\')) cs := by
      cases escaped with
      | true => rfl
      | false =>
        have hline : c ≠ '\n' := fun hc => hend ⟨rfl, hc⟩
        by_cases hescape : c = '\\'
        · subst hescape
          cases cs with
          | nil => cases hbody
          | cons d cs => rfl
        · have hinside : (inside .string).step c cs.head? = (.string, .inside .string) := by
            simp [LexState.step, literalStep, hescape, hquote rfl, hline]
          have hnext : (!false && c == '\\') = false := by simpa using hescape
          rw [hnext]
          show markFrom (.inside .string) (c :: cs) = _
          rw [markFrom, hinside]
          rfl
    rcases ih hbody with hstring | ⟨front, tail, hstring⟩
    · exact .inl (by rw [hstep, hstring]; rfl)
    · exact .inr ⟨c :: front, tail, by rw [hstep, hstring]; rfl⟩

theorem literalBody?_replace {cs : List Char} : ∀ {escaped : Bool} {body rest : List Char},
    literalBody? escaped cs = some (body, rest) → ∀ rest', literalBody? escaped
      (body ++ '"' :: rest') = some (body, rest') := by
  induction cs with
  | nil =>
    intro escaped _ _ h
    rw [literalBody?_nil] at h
    cases h
  | cons c cs ih =>
    intro escaped body rest h rest'
    rcases literalBody?_cons_eq_some h with ⟨rfl, rfl, rfl, rfl⟩ | ⟨body, rfl, hline, hquote, hbody⟩
    · rfl
    · rw [List.cons_append, literalBody?_cons hline hquote, ih hbody]
      rfl

theorem literalBody?_eq_append {cs : List Char} : ∀ {escaped : Bool} {body rest : List Char},
    literalBody? escaped cs = some (body, rest) → cs = body ++ '"' :: rest := by
  induction cs with
  | nil =>
    intro escaped _ _ h
    rw [literalBody?_nil] at h
    cases h
  | cons c cs ih =>
    intro escaped body rest h
    rcases literalBody?_cons_eq_some h with ⟨rfl, rfl, rfl, rfl⟩ | ⟨body, rfl, -, -, hbody⟩
    · rfl
    · rw [ih hbody, List.cons_append]

theorem literals_quote {cs body rest : List Char} (h : literalBody? false cs = some (body, rest)) :
    literals ('"' :: cs) = (body :: (literals (skipBlanks rest)).1,
      (literals (skipBlanks rest)).2) := by
  rw [literals]
  split
  · rename_i hnone
    rw [h] at hnone
    cases hnone
  · rename_i hsome
    rw [h] at hsome
    cases hsome
    rfl

def NoLiteral (cs : List Char) : Prop := ∀ tail, cs = '"' :: tail → literalBody? false tail = none

theorem literals_of_noLiteral {cs : List Char} (h : NoLiteral cs) : literals cs = ([], cs) := by
  unfold literals
  split
  · rename_i tail
    split
    · rfl
    · rename_i hsome
      rw [h tail rfl] at hsome
      cases hsome
  · rfl

theorem literals_of_ne {cs : List Char} (h : ∀ rest, cs ≠ '"' :: rest) : literals cs = ([], cs) :=
  literals_of_noLiteral fun tail htail => absurd htail (h tail)

@[elab_as_elim] theorem literals_induction {motive : List Char → Prop} (stop : ∀ cs, NoLiteral cs → motive cs)
    (literal : ∀ body rest, literalBody? false (body ++ '"' :: rest) = some (body, rest) →
      motive (skipBlanks rest) →
      motive ('"' :: (body ++ '"' :: rest)))
    (cs : List Char) : motive cs := by
  induction h : cs.length using Nat.strongRecOn generalizing cs with
  | ind n ih =>
    subst h
    by_cases hstop : NoLiteral cs
    · exact stop cs hstop
    · simp only [NoLiteral, not_forall] at hstop
      obtain ⟨tail, rfl, hbody⟩ := hstop
      obtain ⟨⟨body, rest⟩, hbody⟩ := Option.ne_none_iff_exists'.mp hbody
      obtain rfl := literalBody?_eq_append hbody
      have hskip := skipBlanks_length rest
      exact literal body rest hbody
        (ih _ (by rw [List.length_cons, List.length_append, List.length_cons]; omega) (skipBlanks rest) rfl)

theorem literals_suffix (cs : List Char) : (literals cs).2 <:+ cs := by
  induction cs using literals_induction with
  | stop cs hstop =>
    rw [literals_of_noLiteral hstop]
  | literal body rest hbody ih =>
    rw [literals_quote hbody]
    exact (ih.trans (List.dropWhile_suffix _)).trans ⟨'"' :: (body ++ ['"']), by simp⟩

/-! ## Strings on their lines -/

/-- No line ends inside a string. -/
def StringsOnLines (piece : List Marked) : Prop := ∀ m ∈ piece, m.2 = .string → m.1 ≠ '\n'

instance (piece : List Marked) : Decidable (StringsOnLines piece) :=
  inferInstanceAs (Decidable (∀ m ∈ piece, m.2 = .string → m.1 ≠ '\n'))

theorem StringsOnLines.right {a b : List Marked} (h : StringsOnLines (a ++ b)) : StringsOnLines b :=
  fun m hm => h m (List.mem_append_right a hm)

theorem StringsOnLines.left {a b : List Marked} (h : StringsOnLines (a ++ b)) : StringsOnLines a :=
  fun m hm => h m (List.mem_append_left b hm)

theorem mark_blanks {blanks : List Char} (h : ∀ c ∈ blanks, isBlank c = true) (rest : List Char) :
    mark (blanks ++ rest) = inZone .code blanks ++ mark rest :=
  mark_append_of_plain (fun c hc => isPlain_of_isHeadChar (isHeadChar_of_isBlank (h c hc))) rest

theorem exists_literal_of_mark {e : Char} {cs body rest : List Char} {piece behind : List Marked}
    (hbody : literalBody? false cs = some (body, rest)) (hmark : mark ('"' :: cs) = piece ++ behind)
    (hlines : StringsOnLines piece) (hstops : StopsWith e piece behind) :
    ∃ piece', piece = inZone .string ('"' :: (body ++ ['"'])) ++ piece' ∧
      piece' ++ behind = mark rest ∧
      StopsWith e piece' behind := by
  have hopen : mark ('"' :: cs) = ('"', .string) :: markFrom (literalState false) cs := rfl
  rcases markFrom_of_literalBody? hbody with hstring | ⟨front, tail, hstring⟩
  · refine hstops.split (notMem_inZone_string _ _) ?_
    rw [← hmark, hopen, hstring]
    rfl
  · have hsplit : piece ++ behind = inZone .string ('"' :: (front ++ ['\n'])) ++ tail := by
      rw [← hmark, hopen, hstring]
      rfl
    obtain ⟨piece', rfl, -⟩ := hstops.split (notMem_inZone_string _ _) hsplit
    exact absurd rfl (hlines ('\n', .string) (List.mem_append_left _ (by simp [inZone])) rfl)

/-- The front of a piece with literals, which read the same before any semicolon. -/
structure TakesLiterals (taken : List Marked) (bodies : List (List Char)) : Prop where
  stops : StopsAt isBlank (plain taken)
  code : ∀ m ∈ taken, m.2 = .code → isBlank m.1 = true
  reads : ∀ rest, literals (plain taken ++ ';' :: rest) = (bodies, ';' :: rest)

theorem takesLiterals_nil : TakesLiterals [] [] where
  stops := stopsAt_nil _
  code := fun m hm => absurd hm List.not_mem_nil
  reads := fun rest => literals_of_ne fun tail htail => by simp at htail

theorem TakesLiterals.stopsAt {taken : List Marked} {bodies : List (List Char)} (h : TakesLiterals taken bodies)
    (rest : List Char) : StopsAt isBlank (plain taken ++ ';' :: rest) := by
  have hstops := h.stops
  cases htext : plain taken with
  | nil =>
    rw [List.nil_append, stopsAt_cons]
    decide
  | cons c t =>
    rw [htext] at hstops
    exact hstops.append (List.cons_ne_nil _ _) _

theorem TakesLiterals.cons {taken : List Marked} {bodies : List (List Char)} (h : TakesLiterals taken bodies)
    {body blanks rest : List Char} (hbody : literalBody? false (body ++ '"' :: rest) = some (body, rest))
    (hblanks : ∀ c ∈ blanks, isBlank c = true) :
    TakesLiterals (inZone .string ('"' :: (body ++ ['"'])) ++ (inZone .code blanks ++ taken)) (body :: bodies) where
  stops := by
    rw [plain_append, plain_inZone, List.cons_append, stopsAt_cons]
    decide
  code := by
    intro m hm hzone
    rcases List.mem_append.mp hm with hm | hm
    · obtain ⟨c, -, rfl⟩ := List.mem_map.mp hm
      cases hzone
    · rcases List.mem_append.mp hm with hm | hm
      · obtain ⟨c, hc, rfl⟩ := List.mem_map.mp hm
        exact hblanks c hc
      · exact h.code m hm hzone
  reads := by
    intro rest'
    have hread := literals_quote (literalBody?_replace hbody (blanks ++ (plain taken ++ ';' :: rest')))
    rw [skipBlanks_append hblanks (h.stopsAt rest'), h.reads] at hread
    simpa using hread

/-- Literals that are read in front of a piece are a part of it. -/
theorem exists_literals_of_mark {e : Char} (he : isBlank e = false) (cs : List Char) {piece behind : List Marked}
    (hmark : mark cs = piece ++ behind) (hlines : StringsOnLines piece) (hstops : StopsWith e piece behind) :
    ∃ taken piece', piece = taken ++ piece' ∧ piece' ++ behind = mark (literals cs).2 ∧
      StopsWith e piece' behind ∧ TakesLiterals taken (literals cs).1 := by
  induction cs using literals_induction generalizing piece with
  | stop cs hstop =>
    rw [literals_of_noLiteral hstop]
    exact ⟨[], piece, rfl, hmark.symm, hstops, takesLiterals_nil⟩
  | literal body rest hbody ih =>
    obtain ⟨piece₁, rfl, hmark₁, hstops₁⟩ := exists_literal_of_mark hbody hmark hlines hstops
    obtain ⟨blanks, hrest, hblanks, hstop⟩ := exists_skipBlanks rest
    have hnotBlank : e ∉ blanks := fun hmem => by
      rw [hblanks e hmem] at he
      cases he
    rw [hrest, mark_blanks hblanks] at hmark₁
    obtain ⟨piece₂, rfl, hmark₂, hstops₂⟩ := hstops₁.split (notMem_inZone hnotBlank) hmark₁
    obtain ⟨taken, piece', rfl, hpiece', hstops', htaken⟩ := ih hmark₂.symm hlines.right.right hstops₂
    rw [literals_quote hbody]
    exact ⟨_, piece', by simp, hpiece', hstops', htaken.cons hbody hblanks⟩

end FirmwareCatalog.Header
