import FirmwareCatalog.Proofs.Header.InvocationSource
import FirmwareCatalog.Proofs.Removal.Place

/-!
# Invocations around a comment

An invocation counts by what it takes from its name to its parenthesis. Where no
invocation that counts has a comment in it, with the comment or with a space in
its place, the same ones are listed.
-/

namespace FirmwareCatalog.Header

open Character

/-- No block that begins in a front reaches what follows it. -/
def ListsWithin (form : InvocationForm) (front rest : List Marked) : Prop :=
  ∀ n < front.length, ∀ block ∈ headBlock? form (behind none (plain (front.take n))) (front.drop n ++ rest),
    n + block.raw.length ≤ front.length

instance (form : InvocationForm) (front rest : List Marked) : Decidable (ListsWithin form front rest) :=
  inferInstanceAs (Decidable (∀ n < front.length,
    ∀ block ∈ headBlock? form (behind none (plain (front.take n))) (front.drop n ++ rest),
      n + block.raw.length ≤ front.length))

theorem ListsWithin.length_le {form : InvocationForm} {x y rest : List Marked}
    (h : ListsWithin form (x ++ y) rest) (hy : y ≠ []) {block : RawBlock}
    (hblock : headBlock? form (behind none (plain x)) (y ++ rest) = some block) :
    block.raw.toList.length ≤ y.length := by
  have hpos := List.length_pos_iff.mpr hy
  have hlength := h x.length (by rw [List.length_append]; omega) block
    (by rwa [List.take_left, List.drop_left])
  rw [List.length_append] at hlength
  rw [String.length_toList]
  omega

section
variable {form : InvocationForm} {first : Char} (hname : IsMacroName first form.macroName.toList)
include hname

theorem headBlock?_replace {text : List Char} {x y rest : List Marked} (hmark : mark text = x ++ (y ++ rest))
    {before : Option Char} {block : RawBlock} (h : headBlock? form before (y ++ rest) = some block)
    (hlength : block.raw.toList.length ≤ y.length) (rest' : List Marked) :
    headBlock? form before (y ++ rest') = some block := by
  obtain ⟨hedge, blanks, inner, left, hblanks, hy, hclosing, hblock⟩ := headBlock?_eq_some hname hmark h
  obtain ⟨hraw, -⟩ := invocationBlock?_eq_some hblock
  have hreplace (tail : List Marked) : headBlock? form before
      (inZone .code (openingOf form.macroName.toList blanks) ++ (inner ++ (')', .code) :: tail)) = some block := by
    rw [headBlock?_opening hname hblanks hedge, splitClosing_replace (by decide) hclosing]
    exact hblock
  have hsplit : y ++ rest = (inZone .code (openingOf form.macroName.toList blanks) ++
      (inner ++ [(')', .code)])) ++ left := by
    rw [hy]
    simp
  rcases List.append_eq_append_iff.mp hsplit with ⟨u, hu, -⟩ | ⟨u, rfl, -⟩
  · -- the block is no longer than the piece
    have hnil : u = [] := by
      rw [hraw] at hlength
      have := congrArg List.length hu
      simp only [List.length_append, inZone, List.length_map, plain, List.length_singleton] at this hlength
      exact List.length_eq_zero_iff.mp (by omega)
    rw [hnil, List.append_nil] at hu
    rw [← hu]
    simpa using hreplace rest'
  · simpa using hreplace (u ++ rest')

theorem headBlock?_alike {text text' : List Char} {front rest rest' : List Marked}
    (hmark : mark text = front ++ rest) (hmark' : mark text' = front ++ rest')
    (h : ListsWithin form front rest) (h' : ListsWithin form front rest') {x y : List Marked}
    (hsplit : front = x ++ y) (hy : y ≠ []) :
    headBlock? form (behind none (plain x)) (y ++ rest) =
      headBlock? form (behind none (plain x)) (y ++ rest') := by
  subst hsplit
  rw [List.append_assoc] at hmark hmark'
  cases hblock : headBlock? form (behind none (plain x)) (y ++ rest) with
  | some block => exact (headBlock?_replace hname hmark hblock (h.length_le hy hblock) rest').symm
  | none =>
    cases hblock' : headBlock? form (behind none (plain x)) (y ++ rest') with
    | none => rfl
    | some block =>
      rw [headBlock?_replace hname hmark' hblock' (h'.length_le hy hblock') rest] at hblock
      cases hblock

omit hname in
/-- Where the same blocks begin in a front, only what follows it tells two lists of blocks apart. -/
theorem blocksAlong_front {rest rest' : List Marked} : ∀ {front : List Marked} (before : Option Char),
    (∀ x y, front = x ++ y → y ≠ [] → headBlock? form (behind before (plain x)) (y ++ rest) =
      headBlock? form (behind before (plain x)) (y ++ rest')) →
      ∃ found, blocksAlong form before (front ++ rest) =
          found ++ blocksAlong form (behind before (plain front)) rest ∧
        blocksAlong form before (front ++ rest') =
          found ++ blocksAlong form (behind before (plain front)) rest' := by
  intro front
  induction front with
  | nil => exact fun before _ => ⟨[], rfl, rfl⟩
  | cons m front ih =>
    intro before h
    obtain ⟨found, hfound, hfound'⟩ := ih (some m.1) fun x y hsplit hy => by
      have := h (m :: x) y (by rw [hsplit]; rfl) hy
      rwa [plain_cons, behind_cons] at this
    have hhead := h [] (m :: front) rfl (List.cons_ne_nil _ _)
    refine ⟨(headBlock? form before (m :: front ++ rest)).toList ++ found, ?_, ?_⟩
    · rw [List.cons_append, blocksAlong, hfound, plain_cons, behind_cons, List.append_assoc]
    · rw [List.cons_append, blocksAlong, hfound', plain_cons, behind_cons, List.append_assoc]
      exact congrArg (fun b => Option.toList b ++ _) hhead.symm

/-- The character before an invocation counts only as one of a word or of none. -/
theorem blocksAlong_before {before before' : Option Char} {marked : List Marked}
    (h : before.any isWord = before'.any isWord ∨ ∀ m ∈ marked.head?, m.1 ≠ first) :
    blocksAlong form before marked = blocksAlong form before' marked := by
  cases marked with
  | nil => rfl
  | cons m rest =>
    have hhead : headBlock? form before (m :: rest) = headBlock? form before' (m :: rest) := by
      rcases h with h | h
      · have hread : invocationHead? form.macroName.toList before (plain (m :: rest)) =
            invocationHead? form.macroName.toList before' (plain (m :: rest)) := by
          rw [invocationHead?, invocationHead?, isWordEdge, isWordEdge, h]
        rw [headBlock?, headBlock?, hread]
      · rw [headBlock?_of_ne hname (h m rfl), headBlock?_of_ne hname (h m rfl)]
    rw [blocksAlong, blocksAlong, hhead]

end

namespace CommentPlace

variable (place : CommentPlace) (form : InvocationForm)

/-- No invocation that counts has the comment in it, nor the space in its place. -/
structure ApartFromInvocations : Prop where
  written : ListsWithin form place.front (place.gap ++ place.rear)
  spaced : ListsWithin form place.front (space ++ place.rear)

instance : Decidable (place.ApartFromInvocations form) :=
  decidable_of_iff (ListsWithin form place.front (place.gap ++ place.rear) ∧
    ListsWithin form place.front (space ++ place.rear))
    ⟨fun h => ⟨h.1, h.2⟩, fun h => ⟨h.written, h.spaced⟩⟩

theorem rear_behind_gap (before : Option Char) :
    (behind before (plain place.gap)).any isWord = (some ' ').any isWord ∨
      ∀ m ∈ place.rear.head?, m.1 = '\n' := by
  cases hkind : place.comment.kind with
  | block =>
    have hlast : plain place.gap = ('/' :: '*' :: (place.comment.text ++ ['*'])) ++ ['/'] := by
      rw [plain_gap, Comment.body, hkind]
      simp
    refine .inl ?_
    rw [hlast, behind, List.getLast?_concat, Option.some_or]
    decide
  | line =>
    refine .inr fun m hm => place.ends hkind m.1 ?_
    rw [← plain_rear, plain, List.head?_map, Option.mem_def.mp hm]
    rfl

variable {form} {first : Char} (hname : IsMacroName first form.macroName.toList)
include hname

theorem invocationBlocks?_spaced (h : place.ApartFromInvocations form) :
    invocationBlocks? form place.spaced = invocationBlocks? form place.written := by
  have hword := hname.isWord_first
  have hspace : first ∉ plain space := by
    rintro hmem
    rw [List.mem_singleton.mp hmem] at hword
    exact absurd hword (by decide)
  have hline : ∀ m : Marked, m.1 = '\n' → m.1 ≠ first := by
    rintro m hm rfl
    rw [hm] at hword
    exact absurd hword (by decide)
  obtain ⟨found, hwritten, hspaced⟩ := @blocksAlong_front form _ _ place.front none fun x y hsplit hy =>
    headBlock?_alike hname place.mark_written place.mark_spaced h.written h.spaced hsplit hy
  have hblocks : blocksAlong form none (mark place.spaced) = blocksAlong form none (mark place.written) := by
    rw [mark_written, mark_spaced, hwritten, hspaced, blocksAlong_of_notMem hname hspace,
      blocksAlong_of_unread (unread_of_noCode place.noCode_gap)]
    refine congrArg _ (blocksAlong_before hname ?_)
    exact (place.rear_behind_gap _).imp Eq.symm fun hrear m hm => hline m (hrear m hm)
  rw [invocationBlocks?_eq hname, invocationBlocks?_eq hname, hblocks]

end CommentPlace

end FirmwareCatalog.Header
