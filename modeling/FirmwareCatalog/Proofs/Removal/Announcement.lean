import FirmwareCatalog.Proofs.Header.Element
import FirmwareCatalog.Proofs.Removal.Delimiter
import FirmwareCatalog.Proofs.Removal.Stripped

/-!
# Announcements around a comment

Comments that touch are read as one, which announces what the first of them
announces: an announcement ends before the first comment does.
-/

namespace FirmwareCatalog.Header

open Character LexState Text

/-! ## Announcements end in their comment -/

theorem announcedIndex?_star (text rest : List Char) :
    announcedIndex? ('/' :: '*' :: (text ++ '*' :: rest)) = announcedIndex? ('/' :: '*' :: text) := by
  have hopens (text : List Char) :
      (text? "//" ('/' :: '*' :: text) <|> text? "/*" ('/' :: '*' :: text)) = some text := rfl
  have hblank : isBlank '*' = false := by decide
  have hdigit : isDecimalDigit '*' = false := by decide +kernel
  have hindex : '*' ∉ "Index".toList := by decide
  have hcolon : '*' ∉ ":".toList := by decide
  simp only [announcedIndex?, hopens, digits?, Option.bind_eq_bind, Option.bind_some, Option.bind_map,
    Function.comp_def, skipBlanks_before hblank, text?_before hindex, someBlanks?_before hblank,
    someOf?_before hdigit, text?_before hcolon]

theorem announcedIndex?_block {text : List Char} (h : '*' ∈ text) (rest : List Char) :
    announcedIndex? ('/' :: '*' :: (text ++ rest)) = announcedIndex? ('/' :: '*' :: text) := by
  obtain ⟨a, b, rfl⟩ := List.append_of_mem h
  rw [List.append_assoc, List.cons_append, announcedIndex?_star, announcedIndex?_star]

/-! ## Runs of comments -/

theorem markFrom_blockComment_of_notMem {text : List Char} (h : '*' ∉ text) :
    markFrom (.inside .blockComment) text = inZone .blockComment text := by
  induction text with
  | nil => rfl
  | cons c text ih =>
    rw [List.mem_cons, not_or] at h
    rw [markFrom, show (inside .blockComment).step c text.head? = (.blockComment, .inside .blockComment) from
      if_neg fun hc => h.1 hc.1.symm, ih h.2]
    rfl

theorem zone_eq_of_mem_inZone {m : Marked} {zone : Zone} {text : List Char} (h : m ∈ inZone zone text) :
    m.2 = zone := by
  obtain ⟨c, -, rfl⟩ := List.mem_map.mp h
  rfl

theorem space_notMem_lineComment {run : List Marked} (hrun : ∀ m ∈ run, m.2.isComment = true) :
    markFrom (.inside .lineComment) (plain run ++ [' ']) ≠ run ++ CommentPlace.space := by
  intro hmark
  by_cases hend : '\n' ∈ plain run
  · obtain ⟨a, b, hplain, ha⟩ := List.eq_append_cons_of_mem hend
    rw [hplain, List.append_assoc, List.cons_append, markFrom_lineComment ha] at hmark
    have hmem : ('\n', Zone.code) ∈ run ++ CommentPlace.space := by
      rw [← hmark]
      exact List.mem_append_right _ List.mem_cons_self
    rcases List.mem_append.mp hmem with hmem | hmem
    · cases hrun _ hmem
    · cases List.mem_singleton.mp hmem
  · have hend' : '\n' ∉ plain run ++ [' '] := by simpa using hend
    have hline := @markFrom_lineComment_of_end _ [] hend' (fun _ hc => nomatch hc)
    rw [List.append_nil, hmark, mark_nil, List.append_nil] at hline
    have hmem : (' ', Zone.code) ∈ run ++ CommentPlace.space := List.mem_append_right _ List.mem_cons_self
    rw [hline] at hmem
    cases zone_eq_of_mem_inZone hmem

theorem exists_block_of_run {run : List Marked} (hne : run ≠ []) (hrun : ∀ m ∈ run, m.2.isComment = true)
    (hmark : mark (plain run ++ [' ']) = run ++ CommentPlace.space) :
    ∃ text, plain run = '/' :: '*' :: text ∧ '*' ∈ text := by
  obtain ⟨⟨c, zone⟩, run, rfl⟩ := List.exists_cons_of_ne_nil hne
  obtain ⟨hzone, htailRun⟩ := List.forall_mem_cons.mp hrun
  rw [plain_cons, List.cons_append, mark, markFrom, List.cons_append, List.cons.injEq] at hmark
  obtain ⟨hhead, htail⟩ := hmark
  rw [← (Prod.mk.inj hhead).2] at hzone
  obtain rfl : c = '/' := eq_slash_of_step hzone
  cases run with
  | nil => cases hzone
  | cons m run =>
    obtain ⟨d, zone'⟩ := m
    obtain ⟨-, hrest⟩ := List.forall_mem_cons.mp htailRun
    by_cases hline : d = '/'
    · subst hline
      exact absurd (List.cons.inj htail).2 (space_notMem_lineComment hrest)
    · by_cases hblock : d = '*'
      · subst hblock
        refine ⟨plain run, rfl, ?_⟩
        by_contra hstar
        have hstar' : '*' ∉ plain run ++ [' '] := by simpa using hstar
        have hmem : (' ', Zone.code) ∈ run ++ CommentPlace.space := List.mem_append_right _ List.mem_cons_self
        rw [← show markFrom (.inside .blockComment) (plain run ++ [' ']) = run ++ CommentPlace.space from
          (List.cons.inj htail).2, markFrom_blockComment_of_notMem hstar'] at hmem
        cases zone_eq_of_mem_inZone hmem
      · simp [step, hline, hblock] at hzone
        cases hzone

namespace CommentPlace

variable (place : CommentPlace)

/-- The comment with those that touch it announces what the comments before it announce. -/
theorem announcedIndex?_behind {before run : List Marked} (hfront : place.front = before ++ run)
    (hbefore : ∀ m ∈ before.getLast?, m.2.isComment = false) (hne : run ≠ [])
    (hrun : ∀ m ∈ run, m.2.isComment = true) (rest : List Char) :
    announcedIndex? (plain run ++ rest) = announcedIndex? (plain run) := by
  have hmark := place.isFront_front ' ' (.inr rfl) []
  rw [hfront, List.append_assoc] at hmark
  obtain ⟨⟨c, zone⟩, run', hcons⟩ := List.exists_cons_of_ne_nil hne
  have hstart := eq_mark_of_comment hmark (by rw [hcons]; rfl) (hrun _ (hcons ▸ List.mem_cons_self)) hbefore
  rw [plain_append] at hstart
  obtain ⟨text, hplain, hstar⟩ := exists_block_of_run hne hrun hstart.symm
  rw [hplain]
  exact announcedIndex?_block hstar rest

/-- Before others, the comment announces nothing. -/
theorem announcedIndex?_gap {run : List Marked} (hrun : ∀ m ∈ run, m.2.isComment = true) {rest : List Marked}
    (hrear : place.rear = run ++ rest) : announcedIndex? (plain (place.gap ++ run)) = none := by
  rw [plain_append, plain_gap]
  have hunannounced := place.unannounced
  unfold Comment.body at hunannounced ⊢
  split at hunannounced
  · rename_i hkind
    -- only a line end may follow a line comment
    obtain rfl : run = [] := by
      by_contra hne
      obtain ⟨⟨c, zone⟩, run', rfl⟩ := List.exists_cons_of_ne_nil hne
      have hafter : place.after = c :: plain (run' ++ rest) := by
        rw [← plain_rear, hrear]
        rfl
      obtain rfl : c = '\n' := place.ends hkind c (by rw [hafter]; rfl)
      rw [rear, hafter] at hrear
      obtain rfl : Zone.code = zone := (Prod.mk.inj (List.cons.inj hrear).1).2
      cases hrun _ List.mem_cons_self
    simpa [hkind] using hunannounced
  · rename_i hkind
    rw [← hunannounced]
    simp only [List.cons_append]
    rw [announcedIndex?_block (by simp)]

end CommentPlace

end FirmwareCatalog.Header
