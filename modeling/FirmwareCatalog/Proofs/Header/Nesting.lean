import FirmwareCatalog.Proofs.Header.Bracket
import FirmwareCatalog.Proofs.Header.Lexed

/-!
# Items between commas

The brackets of an item close in the order in which they open, and its commas
stand inside them. Such an item changes no depth, so the search for a closer and
the split at the commas pass over it.
-/

namespace FirmwareCatalog.Header

open Character Text

/-! ## Nested brackets -/

def closerOf? : Char → Option Char
  | '(' => some ')'
  | '\x7b' => some '\x7d'
  | '[' => some ']'
  | _ => none

def isCloser (c : Char) : Bool := c = ')' || c = '\x7d' || c = ']'

/-- The closers that are awaited behind a piece. A closer out of order and a comma outside all brackets
are refused. -/
def awaited? : List Char → List Marked → Option (List Char)
  | awaited, [] => some awaited
  | awaited, (c, zone) :: rest =>
    if zone ≠ .code then awaited? awaited rest
    else match closerOf? c with
      | some closer => awaited? (closer :: awaited) rest
      | none =>
        if isCloser c then
          if awaited.head? = some c then awaited? awaited.tail rest else none
        else if c = ',' ∧ awaited = [] then none
        else awaited? awaited rest

theorem closerOf?_injective {c d closer : Char} (hc : closerOf? c = some closer)
    (hd : closerOf? d = some closer) : c = d := by
  unfold closerOf? at hc hd
  split at hc <;> cases hc <;> split at hd <;> first | rfl | exact absurd (Option.some.inj hd) (by decide) | cases hd

theorem nesting_of_closerOf? {c closer : Char} (h : closerOf? c = some closer) :
    nesting c = 1 ∧ c ≠ ',' ∧ isCloser c = false ∧ isCloser closer = true := by
  unfold closerOf? at h
  split at h <;> cases h <;> decide

theorem nesting_of_isCloser {c : Char} (h : isCloser c = true) : nesting c = -1 ∧ c ≠ ',' := by
  simp only [isCloser, Bool.or_eq_true, decide_eq_true_eq] at h
  rcases h with (rfl | rfl) | rfl <;> decide

theorem nesting_of_neither {c : Char} (hopener : closerOf? c = none) (hcloser : isCloser c = false) :
    nesting c = 0 := by
  unfold closerOf? at hopener
  split at hopener
  · cases hopener
  · cases hopener
  · cases hopener
  · rename_i hparen hbrace hbracket
    simp only [isCloser, Bool.or_eq_false_iff, decide_eq_false_iff_not] at hcloser
    simp [nesting, hcloser, show c ≠ '(' from hparen, show c ≠ '\x7b' from hbrace,
      show c ≠ '[' from hbracket]

/-- What a character does to the awaited closers. -/
inductive Awaits : List Char → Marked → List Char → Prop where
  | other {awaited c zone} (h : zone = .code → closerOf? c = none ∧ isCloser c = false ∧
      (c = ',' → awaited ≠ [])) : Awaits awaited (c, zone) awaited
  | opener {awaited c closer} (h : closerOf? c = some closer) :
      Awaits awaited (c, .code) (closer :: awaited)
  | closer {awaited c} (h : isCloser c = true) : Awaits (c :: awaited) (c, .code) awaited

theorem awaited?_cons {awaited awaited' : List Char} {m : Marked} {rest : List Marked}
    (h : awaited? awaited (m :: rest) = some awaited') :
    ∃ next, Awaits awaited m next ∧ awaited? next rest = some awaited' := by
  obtain ⟨c, zone⟩ := m
  rw [awaited?] at h
  by_cases hzone : zone = .code
  · subst hzone
    rw [if_neg (by simp)] at h
    cases hopener : closerOf? c with
    | some closer =>
      rw [hopener] at h
      exact ⟨_, .opener hopener, h⟩
    | none =>
      rw [hopener] at h
      simp only at h
      by_cases hcloser : isCloser c = true
      · rw [if_pos hcloser] at h
        split at h
        · rename_i hhead
          cases awaited with
          | nil => cases hhead
          | cons d awaited =>
            obtain rfl : d = c := by simpa using hhead
            exact ⟨_, .closer hcloser, h⟩
        · cases h
      · rw [if_neg hcloser] at h
        split at h
        · cases h
        · rename_i hcomma
          exact ⟨_, .other fun _ => ⟨hopener, by simpa using hcloser, fun hc hnil => hcomma ⟨hc, hnil⟩⟩, h⟩
  · rw [if_pos hzone] at h
    exact ⟨_, .other fun hcode => absurd hcode hzone, h⟩

theorem awaited?_append (a b : List Marked) (awaited : List Char) :
    awaited? awaited (a ++ b) = (awaited? awaited a).bind fun awaited' => awaited? awaited' b := by
  induction a generalizing awaited with
  | nil => rfl
  | cons m a ih =>
    obtain ⟨c, zone⟩ := m
    rw [List.cons_append, awaited?, awaited?]
    simp only [ih]
    repeat' split
    all_goals rfl

theorem awaited?_of_noCode {piece : List Marked} (h : ∀ m ∈ piece, m.2 ≠ .code) (awaited : List Char) :
    awaited? awaited piece = some awaited := by
  induction piece with
  | nil => rfl
  | cons m piece ih =>
    obtain ⟨hm, h⟩ := List.forall_mem_cons.mp h
    rw [awaited?, if_pos hm, ih h]

theorem splitClosing_awaits {opener closer : Char} (hpair : closerOf? opener = some closer)
    {awaited next : List Char} {m : Marked} (h : Awaits awaited m next) {depth : Int} (hdepth : 1 ≤ depth)
    (rest : List Marked) :
    splitClosing opener closer (depth + awaited.count closer) (m :: rest) =
      (splitClosing opener closer (depth + next.count closer) rest).map fun p => (m :: p.1, p.2) := by
  obtain ⟨-, -, -, hcloser⟩ := nesting_of_closerOf? hpair
  -- only the brackets of this kind count, and each open one awaits one closer
  cases h with
  | other h =>
    refine splitClosing_neutral (fun hcode => ⟨?_, ?_⟩) _ rest
    · rintro rfl
      rw [(h hcode).2.1] at hcloser
      cases hcloser
    · rintro rfl
      rw [(h hcode).1] at hpair
      cases hpair
  | @opener _ c closer' h =>
    by_cases hc : c = opener
    · subst hc
      obtain rfl : closer = closer' := Option.some.inj (hpair.symm.trans h)
      have hne : c ≠ closer := by
        rintro rfl
        rw [(nesting_of_closerOf? h).2.2.1] at hcloser
        cases hcloser
      rw [splitClosing_opener hne, List.count_cons_self]
      congr 2
      push_cast
      omega
    · have hcloser' : closer' ≠ closer := by
        rintro rfl
        exact hc (closerOf?_injective h hpair)
      rw [List.count_cons_of_ne hcloser', splitClosing_neutral fun _ => ⟨?_, hc⟩]
      rintro rfl
      rw [(nesting_of_closerOf? h).2.2.1] at hcloser
      cases hcloser
  | @closer _ c h =>
    by_cases hc : c = closer
    · subst hc
      rw [List.count_cons_self, splitClosing_closer (by push_cast; omega)]
      congr 2
      push_cast
      omega
    · rw [List.count_cons_of_ne hc, splitClosing_neutral fun _ => ⟨hc, ?_⟩]
      rintro rfl
      rw [(nesting_of_closerOf? hpair).2.2.1] at h
      cases h

theorem splitClosing_awaited? {opener closer : Char} (hpair : closerOf? opener = some closer)
    {piece : List Marked} :
    ∀ {awaited awaited' : List Char}, awaited? awaited piece = some awaited' →
      ∀ {depth : Int}, 1 ≤ depth → ∀ rest,
        splitClosing opener closer (depth + awaited.count closer) (piece ++ rest) =
          (splitClosing opener closer (depth + awaited'.count closer) rest).map
            fun p => (piece ++ p.1, p.2) := by
  induction piece with
  | nil =>
    intro awaited awaited' h depth _ rest
    cases h
    simp
  | cons m piece ih =>
    intro awaited awaited' h depth hdepth rest
    obtain ⟨next, hm, hpiece⟩ := awaited?_cons h
    rw [List.cons_append, splitClosing_awaits hpair hm hdepth, ih hpiece hdepth, Option.map_map]
    simp [Function.comp_def]

theorem balanced_of_awaited? {opener closer : Char} (hpair : closerOf? opener = some closer)
    {piece : List Marked} (h : awaited? [] piece = some []) : Balanced opener closer piece := by
  intro depth hdepth rest
  have := splitClosing_awaited? hpair h hdepth rest
  simpa using this

/-! ## Commas -/

def prepend (front : List Char) (parts : List (List Char)) : List (List Char) := front.foldr consFirst parts

theorem prepend_append (a b : List Char) (parts : List (List Char)) :
    prepend (a ++ b) parts = prepend a (prepend b parts) := List.foldr_append

theorem prepend_cons (front part : List Char) (parts : List (List Char)) :
    prepend front (part :: parts) = (front ++ part) :: parts := by
  induction front with
  | nil => rfl
  | cons c front ih => rw [show prepend (c :: front) _ = consFirst c (prepend front _) from rfl, ih]; rfl

/-- A piece over which the split outside all brackets passes. -/
def Uncut (piece : List Marked) : Prop :=
  ∀ rest, splitCommas 0 (piece ++ rest) = prepend (plain piece) (splitCommas 0 rest)

theorem splitCommas_awaits {awaited next : List Char} {m : Marked} (h : Awaits awaited m next)
    (rest : List Marked) :
    splitCommas awaited.length (m :: rest) = consFirst m.1 (splitCommas next.length rest) := by
  cases h with
  | @other _ c zone h =>
    have hcomma : ¬ (zone = .code ∧ c = ',' ∧ (awaited.length : Int) = 0) := by
      rintro ⟨hcode, hc, hlength⟩
      exact (h hcode).2.2 hc (List.length_eq_zero_iff.mp (by exact_mod_cast hlength))
    rw [splitCommas, if_neg hcomma]
    by_cases hzone : zone = .code
    · rw [if_pos hzone, nesting_of_neither (h hzone).1 (h hzone).2.1, Int.add_zero]
    · rw [if_neg hzone]
  | opener h =>
    obtain ⟨hdepth, hcomma, -⟩ := nesting_of_closerOf? h
    rw [splitCommas, if_neg (fun hc => hcomma hc.2.1), if_pos rfl, hdepth]
    simp
  | closer h =>
    obtain ⟨hdepth, hcomma⟩ := nesting_of_isCloser h
    rw [splitCommas, if_neg (fun hc => hcomma hc.2.1), if_pos rfl, hdepth, List.length_cons]
    congr 2
    push_cast
    omega

theorem splitCommas_awaited? {piece : List Marked} :
    ∀ {awaited awaited' : List Char}, awaited? awaited piece = some awaited' → ∀ rest,
      splitCommas awaited.length (piece ++ rest) =
        prepend (plain piece) (splitCommas awaited'.length rest) := by
  induction piece with
  | nil =>
    intro awaited awaited' h rest
    cases h
    rfl
  | cons m piece ih =>
    intro awaited awaited' h rest
    obtain ⟨next, hm, hpiece⟩ := awaited?_cons h
    rw [List.cons_append, splitCommas_awaits hm, ih hpiece]
    rfl

theorem uncut_of_awaited? {piece : List Marked} (h : awaited? [] piece = some []) : Uncut piece :=
  splitCommas_awaited? h

/-! ## Parts -/

/-- A text that begins and ends in code, with its brackets nested and no comma outside them. -/
structure IsPart (text : List Char) : Prop where
  lexed : IsLexed text
  nested : awaited? [] (mark text) = some []

theorem IsPart.append {a b : List Char} (ha : IsPart a) (hb : IsPart b) (h : Joins a b) :
    IsPart (a ++ b) where
  lexed := ha.lexed.append hb.lexed h
  nested := by rw [h.mark_append, awaited?_append, ha.nested, Option.bind_some, hb.nested]

theorem mark_comma (rest : List Char) : mark (',' :: rest) = (',', .code) :: mark rest :=
  @mark_append_of_plain [','] (by decide) rest

theorem splitCommas_comma (rest : List Marked) :
    splitCommas 0 ((',', .code) :: rest) = [] :: splitCommas 0 rest := by simp [splitCommas]

theorem IsPart.splitCommas_behind {part : List Char} (h : IsPart part) (rest : List Char) :
    splitCommas 0 (mark (part ++ ',' :: rest)) = part :: splitCommas 0 (mark rest) := by
  rw [h.lexed.mark_append _ ((stopsAt_cons _ _ _).mpr (by decide)), uncut_of_awaited? h.nested, mark_comma,
    splitCommas_comma, prepend_cons, plain_mark, List.append_nil]

theorem splitCommas_intercalate {parts : List (List Char)} (hne : parts ≠ [])
    (h : ∀ part ∈ parts, IsPart part) :
    splitCommas 0 (mark (List.intercalate [','] parts)) = parts := by
  induction parts with
  | nil => exact absurd rfl hne
  | cons part parts ih =>
    obtain ⟨hpart, h⟩ := List.forall_mem_cons.mp h
    cases parts with
    | nil =>
      have := uncut_of_awaited? hpart.nested []
      rw [List.append_nil, plain_mark, splitCommas, prepend_cons, List.append_nil] at this
      rw [List.intercalate_singleton, this]
    | cons part' parts =>
      rw [List.intercalate_cons_cons, List.append_assoc, List.singleton_append,
        hpart.splitCommas_behind, ih (List.cons_ne_nil _ _) h]

theorem joins_comma (behind : List Char) : Joins [','] behind := joins_of_plain (by decide) behind

theorem IsPart.joins_comma {part : List Char} (h : IsPart part) (behind : List Char) :
    Joins part ([','] ++ behind) := h.lexed.joins ((stopsAt_cons _ _ _).mpr (by decide))

theorem IsPart.intercalate {parts : List (List Char)} (h : ∀ part ∈ parts, IsPart part) :
    IsLexed (List.intercalate [','] parts) ∧ ∀ {opener closer : Char}, closerOf? opener = some closer →
      Balanced opener closer (mark (List.intercalate [','] parts)) := by
  induction parts with
  | nil => exact ⟨isLexed_nil, fun _ => balanced_nil⟩
  | cons part parts ih =>
    obtain ⟨hpart, h⟩ := List.forall_mem_cons.mp h
    cases parts with
    | nil =>
      rw [List.intercalate_singleton]
      exact ⟨hpart.lexed, fun hpair => balanced_of_awaited? hpair hpart.nested⟩
    | cons part' parts =>
      obtain ⟨hlexed, hbalanced⟩ := ih h
      rw [List.intercalate_cons_cons, List.append_assoc]
      refine ⟨hpart.lexed.append ((isLexed_of_plain (by decide)).append hlexed (Header.joins_comma _))
        (hpart.joins_comma _), fun hpair => ?_⟩
      rw [(hpart.joins_comma _).mark_append, (Header.joins_comma _).mark_append]
      refine (balanced_of_awaited? hpair hpart.nested).append
        ((balanced_of_neutral fun m hm => ?_).append (hbalanced hpair))
      obtain rfl : m = (',', .code) := List.mem_singleton.mp hm
      obtain ⟨-, hopener, -, hcloser⟩ := nesting_of_closerOf? hpair
      exact fun _ => ⟨(nesting_of_isCloser hcloser).2.symm, hopener.symm⟩

theorem dropBlankLast_of_last {parts : List (List Char)}
    (h : ∀ part ∈ parts.getLast?, isBlankText part = false) : dropBlankLast parts = parts := by
  induction parts with
  | nil => rfl
  | cons part parts ih =>
    cases parts with
    | nil => rw [dropBlankLast, h part rfl]; rfl
    | cons part' parts =>
      rw [dropBlankLast, ih fun p hp => h p (by rwa [List.getLast?_cons_cons])]
      exact List.cons_ne_nil _ _

theorem dropBlankLast_concat (parts : List (List Char)) {last : List Char} (h : isBlankText last = true) :
    dropBlankLast (parts ++ [last]) = parts := by
  induction parts with
  | nil => rw [List.nil_append, dropBlankLast, h]; rfl
  | cons part parts ih =>
    cases parts with
    | nil =>
      rw [List.cons_append, List.nil_append, dropBlankLast, dropBlankLast, if_pos h]
      exact List.cons_ne_nil _ _
    | cons part' parts =>
      rw [List.cons_append, List.cons_append, dropBlankLast, ← List.cons_append, ih]
      exact List.cons_ne_nil _ _

/-! ## Loose characters -/

/-- A character that begins no literal and no comment, no bracket and no next part. -/
def isLoose (c : Char) : Bool := !(['/', '"', '\'', '(', ')', '\x7b', '\x7d', '[', ']', ','].contains c)

theorem isLoose_of_class {p : Char → Bool} {c : Char} (hc : p c = true)
    (h : ['/', '"', '\'', '(', ')', '\x7b', '\x7d', '[', ']', ','].all (fun d => !p d) = true) :
    isLoose c = true := by
  rw [isLoose, Bool.not_eq_true', ← Bool.not_eq_true, List.contains_iff_mem]
  intro hmem
  have := List.all_eq_true.mp h c hmem
  rw [hc] at this
  cases this

theorem isLoose_of_isBlank {c : Char} (h : isBlank c = true) : isLoose c = true :=
  isLoose_of_class h (by decide)

theorem isLoose_of_isWord {c : Char} (h : isWord c = true) : isLoose c = true :=
  isLoose_of_class h (by decide)

theorem ne_of_isLoose {c d : Char} (h : isLoose c = true) (hd : isLoose d = false) : c ≠ d := by
  rintro rfl
  rw [h] at hd
  cases hd

theorem isPlain_of_isLoose {c : Char} (h : isLoose c = true) : IsPlain c :=
  ⟨ne_of_isLoose h (by decide), ne_of_isLoose h (by decide), ne_of_isLoose h (by decide)⟩

theorem isPlain_of_loose {text : List Char} (h : ∀ c ∈ text, isLoose c = true) : ∀ c ∈ text, IsPlain c :=
  fun c hc => isPlain_of_isLoose (h c hc)

theorem awaited?_of_loose {text : List Char} (h : ∀ c ∈ text, isLoose c = true) (awaited : List Char) :
    awaited? awaited (inZone .code text) = some awaited := by
  induction text with
  | nil => rfl
  | cons c text ih =>
    obtain ⟨hc, h⟩ := List.forall_mem_cons.mp h
    have hopener : closerOf? c = none := by
      unfold closerOf?
      split
      · cases hc
      · cases hc
      · cases hc
      · rfl
    have hcloser : isCloser c = false := by
      simp [isCloser, ne_of_isLoose hc (show isLoose ')' = false by decide),
        ne_of_isLoose hc (show isLoose '\x7d' = false by decide),
        ne_of_isLoose hc (show isLoose ']' = false by decide)]
    have hcomma : c ≠ ',' := ne_of_isLoose hc (by decide)
    rw [show inZone .code (c :: text) = (c, .code) :: inZone .code text from rfl, awaited?,
      if_neg (by simp), hopener]
    simp [hcloser, hcomma, ih h]

theorem isPart_of_loose {text : List Char} (h : ∀ c ∈ text, isLoose c = true) : IsPart text where
  lexed := isLexed_of_plain (isPlain_of_loose h)
  nested := by rw [mark_of_plain (isPlain_of_loose h), awaited?_of_loose h]

theorem stopsAt_isPairEnd_of_isBlank {blanks : List Char} (h : ∀ c ∈ blanks, isBlank c = true) :
    StopsAt isPairEnd blanks := by
  intro c hc
  have hblank := h c (List.mem_of_head? hc)
  by_contra hend
  rw [Bool.not_eq_false, isPairEnd, Bool.or_eq_true, decide_eq_true_eq, decide_eq_true_eq] at hend
  rcases hend with rfl | rfl <;> exact absurd hblank (by decide)

abbrev Blanks := {text : List Char // ∀ c ∈ text, isBlank c = true}

theorem Blanks.loose (blanks : Blanks) : ∀ c ∈ blanks.1, isLoose c = true :=
  fun c hc => isLoose_of_isBlank (blanks.2 c hc)

abbrev Identifier := {word : List Char // word ≠ [] ∧ ∀ c ∈ word, isWord c = true}

/-! ## Items -/

/-- A trimmed text without comments that leaves the lexer in code, with its brackets nested and its commas
inside brackets or literals. -/
structure IsItem (text : List Char) : Prop where
  trimmed : trim text = text
  noComment : ∀ m ∈ mark text, m.2.isComment = false
  back : (LexState.inside .code).after text = .inside .code
  nested : awaited? [] (mark text) = some []

instance (text : List Char) : Decidable (IsItem text) :=
  decidable_of_iff (trim text = text ∧ (∀ m ∈ mark text, m.2.isComment = false) ∧
    (LexState.inside .code).after text = .inside .code ∧ awaited? [] (mark text) = some [])
    ⟨fun h => ⟨h.1, h.2.1, h.2.2.1, h.2.2.2⟩, fun h => ⟨h.trimmed, h.noComment, h.back, h.nested⟩⟩

theorem IsItem.isPart {text : List Char} (h : IsItem text) : IsPart text where
  lexed := isLexed_of_after h.back h.noComment
  nested := h.nested

end FirmwareCatalog.Header
