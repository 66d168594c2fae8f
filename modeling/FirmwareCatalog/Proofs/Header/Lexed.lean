import FirmwareCatalog.Proofs.Header.Token
import FirmwareCatalog.Proofs.Header.Zone

/-!
# Texts that leave the lexer in code

A text that ends in code goes on as if what follows it stood alone, unless its
last character pairs with the next one to open a comment.
-/

namespace FirmwareCatalog.Header

open Character

/-- A second character of a pair that opens or closes a comment. -/
def isPairEnd (c : Char) : Bool := c = '/' || c = '*'

def LexState.after : LexState → List Char → LexState
  | s, [] => s
  | s, c :: cs => (s.step c cs.head?).2.after cs

namespace LexState

theorem step_of_back {s : LexState} {c d : Char} (h : (s.step c none).2 = .inside .code)
    (hd : isPairEnd d = false) : s.step c (some d) = s.step c none := by
  have hslash : d ≠ '/' := by rintro rfl; cases hd
  have hstar : d ≠ '*' := by rintro rfl; cases hd
  have literal {zone : Zone} {quote : Char} (hzone : zone ≠ .code)
      (h : (literalStep zone quote c none).2 = .inside .code) (hquote : quote ≠ '\\') :
      literalStep zone quote c (some d) = literalStep zone quote c none := by
    by_cases hc : c = '\\'
    · subst hc
      simp [literalStep, hquote.symm, hzone] at h
    · simp [literalStep, hc]
  cases s with
  | second zone after => rfl
  | inside zone =>
    cases zone with
    | code => simp [step, hslash, hstar]
    | lineComment => rfl
    | blockComment => simp [step, hslash]
    | string => exact literal (by decide) h (by decide)
    | character => exact literal (by decide) h (by decide)

end LexState

/-! ## Lexed texts -/

/-- A text that begins and ends in code. -/
structure IsLexed (text : List Char) : Prop where
  mark_append : ∀ rest, StopsAt isPairEnd rest → mark (text ++ rest) = mark text ++ mark rest
  last : ∀ m ∈ (mark text).getLast?, m.2.isComment = false

theorem markFrom_append_of_after {rest : List Char} (hrest : StopsAt isPairEnd rest) {text : List Char} :
    ∀ {s : LexState}, s.after text = .inside .code →
      markFrom s (text ++ rest) = markFrom s text ++ mark rest := by
  induction text with
  | nil =>
    intro s h
    rw [show s = .inside .code from h]
    rfl
  | cons c text ih =>
    intro s h
    have hstep : s.step c (text ++ rest).head? = s.step c text.head? := by
      cases text with
      | nil =>
        cases rest with
        | nil => rfl
        | cons d rest => exact LexState.step_of_back h ((stopsAt_cons _ _ _).mp hrest)
      | cons d text => rfl
    rw [List.cons_append, markFrom, hstep, ih h]
    rfl

theorem isLexed_of_after {text : List Char} (h : (LexState.inside .code).after text = .inside .code)
    (hcomment : ∀ m ∈ mark text, m.2.isComment = false) : IsLexed text where
  mark_append := fun _ hrest => markFrom_append_of_after hrest h
  last := fun m hm => hcomment m (List.mem_of_getLast? hm)

theorem isLexed_nil : IsLexed [] := ⟨fun _ _ => rfl, fun _ hm => nomatch hm⟩

theorem isLexed_of_closed {piece : List Marked} {text : List Char} (h : Closed piece)
    (htext : plain piece = text) (hlast : ∀ m ∈ piece.getLast?, m.2.isComment = false) :
    IsLexed text := by
  subst htext
  have hmark := h.mark_plain
  exact ⟨fun rest _ => by rw [h, hmark], by rwa [hmark]⟩

theorem mark_of_plain {text : List Char} (h : ∀ c ∈ text, IsPlain c) : mark text = inZone .code text := by
  have := mark_append_of_plain h []
  rwa [List.append_nil, mark_nil, List.append_nil] at this

theorem isLexed_of_plain {text : List Char} (h : ∀ c ∈ text, IsPlain c) : IsLexed text := by
  refine isLexed_of_closed (closed_of_plain h) (plain_inZone _ _) fun m hm => ?_
  obtain ⟨c, -, rfl⟩ := List.mem_map.mp (List.mem_of_getLast? hm)
  rfl

/-! ## Texts side by side -/

/-- Side by side, two texts are marked as they are alone. -/
def Joins (a b : List Char) : Prop :=
  ∀ rest, StopsAt isPairEnd rest → mark (a ++ (b ++ rest)) = mark a ++ mark (b ++ rest)

theorem Joins.mark_append {a b : List Char} (h : Joins a b) : mark (a ++ b) = mark a ++ mark b := by
  simpa using h [] (stopsAt_nil _)

theorem StopsAt.append_of_stops {p : Char → Bool} {a b : List Char} (ha : StopsAt p a)
    (hb : StopsAt p b) : StopsAt p (a ++ b) := by
  cases a with
  | nil => exact hb
  | cons c a => exact StopsAt.append (List.cons_ne_nil _ _) ha b

theorem IsLexed.joins {a b : List Char} (h : IsLexed a) (hstop : StopsAt isPairEnd b) : Joins a b :=
  fun _ hrest => h.mark_append _ (hstop.append_of_stops hrest)

theorem joins_of_plain {a : List Char} (h : ∀ c ∈ a, IsPlain c) (b : List Char) : Joins a b :=
  fun rest _ => by rw [mark_append_of_plain h, mark_of_plain h]

theorem joins_of_closed {piece : List Marked} (h : Closed piece) (b : List Char) : Joins (plain piece) b :=
  fun rest _ => by rw [h, h.mark_plain]

theorem IsLexed.append {a b : List Char} (ha : IsLexed a) (hb : IsLexed b) (h : Joins a b) :
    IsLexed (a ++ b) := by
  refine ⟨fun rest hrest => ?_, fun m hm => ?_⟩
  · rw [List.append_assoc, h rest hrest, hb.mark_append rest hrest, h.mark_append, List.append_assoc]
  · rw [h.mark_append, List.getLast?_append] at hm
    cases hlast : (mark b).getLast? with
    | none => exact ha.last m (by rwa [hlast] at hm)
    | some m' => exact hb.last m (by rwa [hlast, Option.some_or, ← hlast] at hm)

/-! ## Texts without their comments -/

theorem inComment_cons (m : Marked) (a : List Marked) (run : Bool) :
    ((m :: a).getLast?.map (·.2.isComment)).getD run = (a.getLast?.map (·.2.isComment)).getD m.2.isComment := by
  rw [List.getLast?_cons]
  cases a.getLast? <;> rfl

theorem stripRuns_append (run : Bool) (a b : List Marked) :
    stripRuns run (a ++ b) =
      stripRuns run a ++ stripRuns ((a.getLast?.map (·.2.isComment)).getD run) b := by
  induction a generalizing run with
  | nil => rfl
  | cons m a ih =>
    obtain ⟨c, zone⟩ := m
    rw [List.cons_append, stripRuns, stripRuns, ih, ih, inComment_cons]
    by_cases hzone : zone.isComment = true
    · cases run <;> simp [hzone]
    · simp [hzone]

theorem stripRuns_of_noComment {marked : List Marked} (h : ∀ m ∈ marked, m.2.isComment = false)
    (run : Bool) : stripRuns run marked = plain marked := by
  induction marked generalizing run with
  | nil => rfl
  | cons m marked ih =>
    obtain ⟨hm, h⟩ := List.forall_mem_cons.mp h
    rw [stripRuns, if_neg (by simp [hm]), ih h, plain_cons]

theorem IsLexed.stripComments_append {a b : List Char} (ha : IsLexed a) (h : Joins a b) :
    stripComments (a ++ b) = stripComments a ++ stripComments b := by
  rw [stripComments, h.mark_append, stripRuns_append]
  cases hlast : (mark a).getLast? with
  | none => rfl
  | some m => rw [Option.map_some, Option.getD_some, ha.last m hlast]; rfl

theorem stripComments_of_noComment {text : List Char} (h : ∀ m ∈ mark text, m.2.isComment = false) :
    stripComments text = text := by
  rw [stripComments, stripRuns_of_noComment h, plain_mark]

end FirmwareCatalog.Header
