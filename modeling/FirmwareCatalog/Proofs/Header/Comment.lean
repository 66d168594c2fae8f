import FirmwareCatalog.Proofs.Header.Lexed
import Mathlib.Data.List.Infix

/-!
# Comments

A comment runs from `//` to the end of its line or from `/*` to the next `*/`.
Where it begins in code, all its characters are in one zone and the lexer is
back in code behind it.
-/

namespace FirmwareCatalog.Header

open Character

inductive CommentKind where
  | line
  | block
deriving DecidableEq

def CommentKind.Holds : CommentKind → List Char → Prop
  | .line, text => '\n' ∉ text
  | .block, text => ¬ ['*', '/'] <:+: text

instance (kind : CommentKind) (text : List Char) : Decidable (kind.Holds text) := by
  cases kind <;> exact inferInstanceAs (Decidable (¬ _))

structure Comment where
  kind : CommentKind
  text : List Char
  holds : kind.Holds text

namespace Comment

/-- The comment with what opens and closes it, but for the end of its line. -/
def body (comment : Comment) : List Char :=
  match comment.kind with
  | .line => '/' :: '/' :: comment.text
  | .block => '/' :: '*' :: (comment.text ++ ['*', '/'])

def zone (comment : Comment) : Zone :=
  match comment.kind with
  | .line => .lineComment
  | .block => .blockComment

/-- Only the end of the line, or of the text, ends a line comment. -/
def EndsBefore (comment : Comment) (rest : List Char) : Prop :=
  comment.kind = .line → ∀ c ∈ rest.head?, c = '\n'

theorem isComment_zone (comment : Comment) : comment.zone.isComment = true := by
  unfold zone
  split <;> rfl

theorem isComment_of_mem (comment : Comment) :
    ∀ m ∈ inZone comment.zone comment.body, m.2.isComment = true := by
  intro m hm
  obtain ⟨c, -, rfl⟩ := List.mem_map.mp hm
  exact comment.isComment_zone

theorem exists_body_eq (comment : Comment) : ∃ c tail, comment.body = '/' :: c :: tail ∧ isPairEnd c = true := by
  unfold body
  split
  · exact ⟨'/', _, rfl, rfl⟩
  · exact ⟨'*', _, rfl, rfl⟩

theorem body_ne_nil (comment : Comment) : comment.body ≠ [] := by
  obtain ⟨c, tail, hbody, -⟩ := comment.exists_body_eq
  rw [hbody]
  exact List.cons_ne_nil _ _

end Comment

open LexState

theorem markFrom_blockComment {text : List Char} (h : ¬ ['*', '/'] <:+: text) (rest : List Char) :
    markFrom (.inside .blockComment) (text ++ '*' :: '/' :: rest) =
      inZone .blockComment (text ++ ['*', '/']) ++ mark rest := by
  induction text with
  | nil => rfl
  | cons c text ih =>
    rw [List.infix_cons_iff, not_or] at h
    have hnext : ¬ (c = '*' ∧ (text ++ '*' :: '/' :: rest).head? = some '/') := by
      rintro ⟨rfl, hnext⟩
      cases text with
      | nil => cases hnext
      | cons d text =>
        obtain rfl : d = '/' := by simpa using hnext
        exact h.1 ⟨text, rfl⟩
    have hstep : (inside .blockComment).step c (text ++ '*' :: '/' :: rest).head? =
        (.blockComment, .inside .blockComment) := by
      rw [step, if_neg hnext]
    rw [List.cons_append, markFrom, hstep, ih h.2]
    rfl

theorem markFrom_lineComment_of_end {text rest : List Char} (h : '\n' ∉ text)
    (hrest : ∀ c ∈ rest.head?, c = '\n') :
    markFrom (.inside .lineComment) (text ++ rest) = inZone .lineComment text ++ mark rest := by
  cases rest with
  | cons d rest =>
    obtain rfl : d = '\n' := hrest d rfl
    exact markFrom_lineComment h rest
  | nil => exact markFrom_lineComment_append h []

theorem Comment.mark_append (comment : Comment) {rest : List Char} (h : comment.EndsBefore rest) :
    mark (comment.body ++ rest) = inZone comment.zone comment.body ++ mark rest := by
  obtain ⟨kind, text, hholds⟩ := comment
  cases kind with
  | line =>
    rw [show mark (Comment.body ⟨.line, text, hholds⟩ ++ rest) = ('/', .lineComment) ::
      ('/', .lineComment) :: markFrom (.inside .lineComment) (text ++ rest) from rfl,
      markFrom_lineComment_of_end hholds (h rfl)]
    rfl
  | block =>
    rw [show mark (Comment.body ⟨.block, text, hholds⟩ ++ rest) = ('/', .blockComment) ::
      ('*', .blockComment) :: markFrom (.inside .blockComment) (text ++ ['*', '/'] ++ rest) from rfl,
      List.append_assoc, List.cons_append, List.singleton_append, markFrom_blockComment hholds]
    rfl

end FirmwareCatalog.Header
