import FirmwareCatalog.Header.StructArray
import FirmwareCatalog.Proofs.Header.Comment

/-!
# Places of comments

A comment begins in code and leaves the lexer in code. With one space in its
place, what stands before it and what follows it is marked as with the comment.
-/

namespace FirmwareCatalog.Header

/-! ## Fronts -/

namespace LexState

def upTo (next : Char) : LexState → List Char → LexState
  | s, [] => s
  | s, c :: cs => (s.step c (some (cs.headD next))).2.upTo next cs

theorem step_slash {s : LexState} {c : Char} (h : (s.step c (some '/')).2 = .inside .code) :
    s.step c (some ' ') = s.step c (some '/') := by
  have literal (zone : Zone) (quote : Char) :
      literalStep zone quote c (some ' ') = literalStep zone quote c (some '/') := by
    simp [literalStep]
  cases s with
  | second zone after => rfl
  | inside zone =>
    cases zone with
    | code =>
      by_cases hc : c = '/'
      · subst hc
        cases h
      · simp [step, hc]
    | lineComment => rfl
    | blockComment =>
      simp only [step] at h
      split at h <;> cases h
    | string => exact literal .string '"'
    | character => exact literal .character '\''

end LexState

/-- A piece that a comment or a space may follow: it is marked alike in front of both, and leaves the lexer
in code. -/
def IsFront (front : List Marked) : Prop :=
  ∀ c, c = '/' ∨ c = ' ' → ∀ rest, mark (plain front ++ c :: rest) = front ++ mark (c :: rest)

theorem exists_front {text : List Char} : ∀ {s : LexState}, s.upTo '/' text = .inside .code →
    ∃ front, plain front = text ∧ ∀ c, c = '/' ∨ c = ' ' → ∀ rest,
      markFrom s (text ++ c :: rest) = front ++ mark (c :: rest) := by
  induction text with
  | nil =>
    rintro s rfl
    exact ⟨[], rfl, fun _ _ _ => rfl⟩
  | cons c text ih =>
    intro s h
    obtain ⟨front, hplain, hfront⟩ := ih h
    have hstep (d : Char) (hd : d = '/' ∨ d = ' ') (rest : List Char) :
        s.step c (text ++ d :: rest).head? = s.step c (some (text.headD '/')) := by
      cases text with
      | nil =>
        rcases hd with rfl | rfl
        · rfl
        · exact LexState.step_slash h
      | cons e text => rfl
    refine ⟨(c, (s.step c (some (text.headD '/'))).1) :: front, congrArg (c :: ·) hplain,
      fun d hd rest => ?_⟩
    rw [List.cons_append, markFrom, hstep d hd, hfront d hd]
    rfl

/-! ## Places -/

/-- A comment in a text, which announces no index. -/
structure CommentPlace where
  before : List Char
  comment : Comment
  after : List Char
  inCode : (LexState.inside .code).upTo '/' before = .inside .code
  ends : comment.EndsBefore after
  unannounced : announcedIndex? comment.body = none

namespace CommentPlace

variable (place : CommentPlace)

def written : List Char := place.before ++ (place.comment.body ++ place.after)

def spaced : List Char := place.before ++ ' ' :: place.after

def front : List Marked := (mark place.written).take place.before.length

def gap : List Marked := inZone place.comment.zone place.comment.body

def rear : List Marked := mark place.after

def space : List Marked := [(' ', .code)]

theorem mark_space (rest : List Char) : mark (' ' :: rest) = space ++ mark rest :=
  @mark_append_of_plain [' '] (by decide) rest

theorem mark_gap : mark (place.comment.body ++ place.after) = place.gap ++ place.rear :=
  place.comment.mark_append place.ends

theorem exists_front_eq : ∃ front, plain front = place.before ∧ IsFront front ∧
    mark place.written = front ++ (place.gap ++ place.rear) := by
  obtain ⟨front, hplain, hfront⟩ := exists_front place.inCode
  obtain ⟨c, tail, hbody, -⟩ := place.comment.exists_body_eq
  refine ⟨front, hplain, fun c hc rest => ?_, ?_⟩
  · rw [hplain]
    exact hfront c hc rest
  · have hmark := hfront '/' (.inl rfl) (c :: tail ++ place.after)
    rw [← List.cons_append, ← hbody, mark_gap] at hmark
    exact hmark

theorem mark_written : mark place.written = place.front ++ (place.gap ++ place.rear) := by
  obtain ⟨front, hplain, -, hmark⟩ := place.exists_front_eq
  have hlength : place.before.length = front.length := by rw [← hplain, length_plain]
  rw [CommentPlace.front, hmark, hlength, List.take_left]

theorem isFront_front : IsFront place.front := by
  obtain ⟨front, hplain, hfront, hmark⟩ := place.exists_front_eq
  rwa [List.append_cancel_right (place.mark_written.symm.trans hmark)]

theorem plain_front : plain place.front = place.before := by
  obtain ⟨front, hplain, -, hmark⟩ := place.exists_front_eq
  rwa [List.append_cancel_right (place.mark_written.symm.trans hmark)]

theorem mark_spaced : mark place.spaced = place.front ++ (space ++ place.rear) := by
  have hmark := place.isFront_front ' ' (.inr rfl) place.after
  rwa [plain_front, mark_space] at hmark

theorem isComment_of_mem_gap : ∀ m ∈ place.gap, m.2.isComment = true := place.comment.isComment_of_mem

theorem gap_ne_nil : place.gap ≠ [] := fun h => place.comment.body_ne_nil (List.map_eq_nil_iff.mp h)

theorem noCode_gap : ∀ m ∈ place.gap, m.2 ≠ .code := by
  intro m hm hcode
  have := place.isComment_of_mem_gap m hm
  rw [hcode] at this
  cases this

theorem plain_gap : plain place.gap = place.comment.body := plain_inZone _ _

theorem plain_rear : plain place.rear = place.after := plain_mark _

end CommentPlace

end FirmwareCatalog.Header
