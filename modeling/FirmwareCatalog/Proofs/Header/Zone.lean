import FirmwareCatalog.Header.Zone
import FirmwareCatalog.Proofs.Text.Infix
import Mathlib.Data.List.Basic

/-!
# Cutting marked texts

The zone of a character hangs on what stands before it and on one character
behind it. In code the lexer has forgotten what came before, so a piece of a
text that begins and ends in code is marked in any other place as it was.
-/

namespace FirmwareCatalog.Header

/-! ## Steps -/

namespace LexState

/-- A state that can follow a character of a zone. -/
def Behind (zone : Zone) : LexState → Prop
  | .inside zone' => zone' = zone ∨ zone' = .code
  | .second zone' after => zone' = zone ∧ zone ≠ .code ∧ (after = zone ∨ after = .code)

theorem behind_start : Behind .code (.inside .code) := .inl rfl

theorem behind_literalStep {zone : Zone} (hzone : zone ≠ .code) (quote c : Char) (next : Option Char) :
    Behind (literalStep zone quote c next).1 (literalStep zone quote c next).2 := by
  unfold literalStep
  split
  · exact ⟨rfl, hzone, .inl rfl⟩
  · split
    · exact .inr rfl
    · exact .inl rfl

theorem behind_step {zone : Zone} {s : LexState} (hs : Behind zone s) (c : Char) (next : Option Char) :
    Behind (s.step c next).1 (s.step c next).2 := by
  cases s with
  | second zone' after =>
    obtain ⟨rfl, -, hafter⟩ := hs
    exact hafter
  | inside zone' =>
    cases zone' with
    | code =>
      simp only [step]
      split
      · exact ⟨rfl, by decide, .inl rfl⟩
      · split
        · exact ⟨rfl, by decide, .inl rfl⟩
        · split
          · exact .inl rfl
          · split <;> exact .inl rfl
    | lineComment => simp only [step]; split <;> exact .inl rfl
    | blockComment =>
      simp only [step]
      split
      · exact ⟨rfl, by decide, .inr rfl⟩
      · exact .inl rfl
    | string => exact behind_literalStep (by decide) _ _ _
    | character => exact behind_literalStep (by decide) _ _ _

theorem behind_code {s : LexState} (hs : Behind .code s) : s = .inside .code := by
  cases s with
  | second zone after => exact absurd rfl hs.2.1
  | inside zone => rcases hs with rfl | rfl <;> rfl

theorem literalStep_zone (zone : Zone) (quote c : Char) (next : Option Char) :
    (literalStep zone quote c next).1 = zone := by
  unfold literalStep
  split
  · rfl
  · split <;> rfl

/-- In code a character is code, whatever follows it, unless it opens a literal or is a slash. -/
theorem step_code {c : Char} (hslash : c ≠ '/') (hquote : c ≠ '"') (happostrophe : c ≠ '\'')
    (next : Option Char) :
    (inside .code).step c next = (.code, .inside .code) := by
  simp [step, hslash, hquote, happostrophe]

/-- Only in code, and at the end of a line comment, is a character code. -/
theorem eq_of_step_code {zone : Zone} {s : LexState} (hs : Behind zone s) {c : Char}
    {next : Option Char}
    (h : (s.step c next).1 = .code) : s = .inside .code ∨ s = .inside .lineComment ∧ c = '\n' := by
  cases s with
  | second zone' after =>
    obtain ⟨rfl, hne, -⟩ := hs
    exact absurd h hne
  | inside zone' =>
    cases zone' with
    | code => exact .inl rfl
    | lineComment =>
      simp only [step] at h
      split at h
      · rename_i hc
        exact .inr ⟨rfl, hc⟩
      · cases h
    | blockComment =>
      simp only [step] at h
      split at h <;> cases h
    | string =>
      rw [step, literalStep_zone] at h
      cases h
    | character =>
      rw [step, literalStep_zone] at h
      cases h

theorem step_of_code {zone : Zone} {s : LexState} (hs : Behind zone s) {c : Char} {next : Option Char}
    (h : (s.step c next).1 = .code) :
    s.step c next = (.code, .inside .code) ∧ (inside .code).step c next = (.code, .inside .code) := by
  have hafter : s.step c next = (.code, .inside .code) := by
    have hbehind := behind_step hs c next
    rw [h] at hbehind
    exact Prod.ext h (behind_code hbehind)
  refine ⟨hafter, ?_⟩
  rcases eq_of_step_code hs h with rfl | ⟨rfl, rfl⟩
  · exact hafter
  · exact step_code (by decide) (by decide) (by decide) next

theorem step_of_code_of_ne {zone : Zone} {s : LexState} (hs : Behind zone s) {c : Char}
    (hslash : c ≠ '/')
    {next : Option Char} (h : (s.step c next).1 = .code) (next' : Option Char) :
    s.step c next' = (.code, .inside .code) := by
  rcases eq_of_step_code hs h with rfl | ⟨rfl, rfl⟩
  · have hquote : c ≠ '"' := by rintro rfl; simp [step] at h
    have happostrophe : c ≠ '\'' := by rintro rfl; simp [step] at h
    exact step_code hslash hquote happostrophe next'
  · rfl

theorem step_zone_none {c : Char} (hslash : c ≠ '/') (hstar : c ≠ '*') (s : LexState) (d : Char) :
    (s.step d (some c)).1 = (s.step d none).1 := by
  cases s with
  | second zone after => rfl
  | inside zone =>
    cases zone with
    | code => simp [step, hslash, hstar]
    | lineComment => rfl
    | blockComment =>
      simp only [step]
      split <;> split <;> rfl
    | string => rw [step, step, literalStep_zone, literalStep_zone]
    | character => rw [step, step, literalStep_zone, literalStep_zone]

theorem eq_code_of_comment {zone : Zone} {s : LexState} (hs : Behind zone s)
    (hzone : zone.isComment = false)
    {c : Char} {next : Option Char} (h : (s.step c next).1.isComment = true) : s = .inside .code := by
  cases s with
  | second zone' after =>
    obtain ⟨rfl, -⟩ := hs
    rw [step, hzone] at h
    cases h
  | inside zone' =>
    rcases hs with rfl | rfl
    · cases zone' with
      | code => rfl
      | lineComment => cases hzone
      | blockComment => cases hzone
      | string =>
        rw [step, literalStep_zone] at h
        cases h
      | character =>
        rw [step, literalStep_zone] at h
        cases h
    · rfl

end LexState

open LexState

/-! ## Pieces -/

@[simp] theorem plain_nil : plain [] = [] := rfl

@[simp] theorem plain_cons (m : Marked) (marked : List Marked) :
  plain (m :: marked) = m.1 :: plain marked := rfl

@[simp] theorem plain_append (a b : List Marked) : plain (a ++ b) = plain a ++ plain b :=
  List.map_append

@[simp] theorem plain_mark (text : List Char) : plain (mark text) = text := plain_markFrom _ text

@[simp] theorem length_plain (marked : List Marked) : (plain marked).length = marked.length :=
  List.length_map _

theorem mark_nil : mark [] = [] := rfl

/-- What stands behind a piece of a marked text is marked from a state that can follow the piece. -/
theorem exists_markFrom_of_append {zone : Zone} :
    ∀ {a b : List Marked} {s : LexState} {text : List Char},
    Behind zone s → markFrom s text = a ++ b →
      ∃ s', b = markFrom s' (plain b) ∧ Behind ((a.getLast?.map (·.2)).getD zone) s' ∧
        (a = [] → s' = s)
  | [], b, s, text, hs, h => by
    refine ⟨s, ?_, hs, fun _ => rfl⟩
    rw [List.nil_append] at h
    rw [← h, plain_markFrom]
  | (c, z) :: a, b, s, [], hs, h => by simp [markFrom] at h
  | (c, z) :: a, b, s, d :: text, hs, h => by
    rw [markFrom, List.cons_append, List.cons.injEq] at h
    obtain ⟨hhead, htail⟩ := h
    obtain ⟨hc, hz⟩ := Prod.mk.inj hhead
    obtain ⟨s', hb, hs', -⟩ := exists_markFrom_of_append (behind_step hs d text.head?) htail
    refine ⟨s', hb, ?_, fun he => absurd he (List.cons_ne_nil _ _)⟩
    rw [hz] at hs'
    cases a with
    | nil => simpa using hs'
    | cons m a =>
      rw [List.getLast?_cons_cons, List.getLast?_eq_some_getLast (List.cons_ne_nil m a)]
      rwa [List.getLast?_eq_some_getLast (List.cons_ne_nil m a)] at hs'

section
variable {text : List Char} {a b : List Marked} (h : mark text = a ++ b)
include h

theorem eq_mark_of_behind_code {c : Char} (ha : a.getLast? = some (c, .code)) :
    b = mark (plain b) := by
  obtain ⟨s, hb, hs, -⟩ := exists_markFrom_of_append behind_start h
  rw [ha] at hs
  rwa [behind_code hs] at hb

theorem eq_mark_of_code {c : Char} {rest : List Marked} (hb : b = (c, .code) :: rest) :
    b = mark (plain b) := by
  obtain ⟨s, hmark, hs, -⟩ := exists_markFrom_of_append behind_start h
  subst hb
  rw [plain_cons, markFrom, List.cons.injEq] at hmark
  obtain ⟨hhead, htail⟩ := hmark
  have hcode : (s.step c (plain rest).head?).1 = .code := ((Prod.mk.inj hhead).2).symm
  obtain ⟨hstep, hstart⟩ := step_of_code hs hcode
  rw [hstep] at htail
  rw [plain_cons, mark, markFrom, hstart, ← htail]

theorem eq_mark_of_comment {c : Char} {z : Zone} {rest : List Marked} (hb : b = (c, z) :: rest)
    (hz : z.isComment = true) (ha : ∀ m ∈ a.getLast?, m.2.isComment = false) : b = mark (plain b) := by
  obtain ⟨s, hmark, hs, -⟩ := exists_markFrom_of_append behind_start h
  have hzone : ((a.getLast?.map (·.2)).getD Zone.code).isComment = false := by
    cases hlast : a.getLast? with
    | none => rfl
    | some m => exact ha m hlast
  subst hb
  have hstep : (s.step c (plain rest).head?).1.isComment = true := by
    rw [plain_cons, markFrom, List.cons.injEq] at hmark
    rw [← (Prod.mk.inj hmark.1).2]
    exact hz
  rwa [eq_code_of_comment hs hzone hstep] at hmark

end

/-! ## Places -/

theorem zoneAt?_append {a b : List Marked} {n : Nat} (h : n = a.length) :
    zoneAt? (a ++ b) n = b.head?.map (·.2) := by
  rw [zoneAt?, h, List.getElem?_append_right (Nat.le_refl _), Nat.sub_self, List.head?_eq_getElem?]

theorem exists_append_of_plain {marked : List Marked} {a b : List Char} (h : plain marked = a ++ b) :
    ∃ x y, marked = x ++ y ∧ plain x = a ∧ plain y = b := List.map_eq_append_iff.mp h

theorem exists_cut_of_zoneAt? {text a b : List Char} (htext : text = a ++ b) {n : Nat}
    (hn : n = a.length)
    (hcode : zoneAt? (mark text) n = some .code) :
    ∃ x y, mark text = x ++ y ∧ plain x = a ∧ plain y = b ∧ ∃ c y', y = (c, .code) :: y' := by
  have hplain : plain (mark text) = a ++ b := by rw [plain_mark, htext]
  obtain ⟨x, y, hsplit, hx, hy⟩ := exists_append_of_plain hplain
  have hlength : n = x.length := by rw [hn, ← hx, length_plain]
  rw [hsplit, zoneAt?_append hlength] at hcode
  refine ⟨x, y, hsplit, hx, hy, ?_⟩
  cases y with
  | nil => cases hcode
  | cons m y =>
    obtain ⟨c, zone⟩ := m
    simp only [List.head?_cons, Option.map_some, Option.some.injEq] at hcode
    exact ⟨c, y, by rw [hcode]⟩

/-! ## Closed pieces -/

/-- A piece that is marked the same in front of anything, and leaves the lexer in code. -/
def Closed (piece : List Marked) : Prop := ∀ rest, mark (plain piece ++ rest) = piece ++ mark rest

theorem closed_nil : Closed [] := fun _ => rfl

theorem Closed.append {a b : List Marked} (ha : Closed a) (hb : Closed b) : Closed (a ++ b) := by
  intro rest
  rw [plain_append, List.append_assoc, ha, hb, List.append_assoc]

theorem closed_flatMap {α : Type} {items : List α} {f : α → List Marked}
    (h : ∀ item ∈ items, Closed (f item)) :
    Closed (items.flatMap f) := by
  induction items with
  | nil => exact closed_nil
  | cons item items ih =>
    obtain ⟨hitem, h⟩ := List.forall_mem_cons.mp h
    exact hitem.append (ih h)

theorem Closed.mark_plain {piece : List Marked} (h : Closed piece) : mark (plain piece) = piece := by
  have := h []
  rwa [List.append_nil, mark_nil, List.append_nil] at this

/-- Zones do not hang on what stands behind a character of code that begins no comment and ends none. -/
theorem markFrom_append_of_code {c : Char} {rest : List Char} (hslash : c ≠ '/') (hstar : c ≠ '*') :
    ∀ {text : List Char} {s : LexState} {zone : Zone} {a b : List Marked}, Behind zone s →
      markFrom s (text ++ c :: rest) = a ++ (c, .code) :: b → plain a = text →
        (∀ rest', markFrom s (text ++ c :: rest') = a ++ (c, .code) :: mark rest') ∧
          markFrom s text = a
  | [], s, zone, a, b, hs, h, ha => by
    obtain rfl : a = [] := List.map_eq_nil_iff.mp ha
    rw [List.nil_append, markFrom, List.nil_append, List.cons.injEq] at h
    have hstep := step_of_code_of_ne hs hslash ((Prod.mk.inj h.1).2)
    refine ⟨fun rest' => ?_, rfl⟩
    rw [List.nil_append, markFrom, hstep, List.nil_append, mark]
  | d :: text, s, zone, a, b, hs, h, ha => by
    cases a with
    | nil => cases ha
    | cons m a =>
      obtain ⟨hd, ha⟩ := List.cons.inj ha
      rw [List.cons_append, markFrom, List.cons_append, List.cons.injEq] at h
      obtain ⟨hhead, htail⟩ := h
      obtain ⟨hrest, htext⟩ := markFrom_append_of_code hslash hstar (behind_step hs d _) htail ha
      have hnext (rest' : List Char) : (text ++ c :: rest').head? = (text ++ c :: rest).head? := by
        rw [List.head?_append, List.head?_append, List.head?_cons, List.head?_cons]
      refine ⟨fun rest' => ?_, ?_⟩
      · rw [List.cons_append, markFrom, hnext, hhead, hrest, List.cons_append]
      · cases text with
        | nil =>
          obtain rfl : a = [] := List.map_eq_nil_iff.mp ha
          rw [markFrom, List.head?_nil, ← step_zone_none hslash hstar, markFrom]
          exact congrArg (fun m => [m]) hhead
        | cons e text => rw [markFrom]; exact congr (congrArg _ hhead) htext

theorem closed_of_mark {text : List Char} {a b : List Marked} {c : Char} (hslash : c ≠ '/')
    (hstar : c ≠ '*')
    (h : mark text = a ++ (c, .code) :: b) : Closed (a ++ [(c, .code)]) := by
  have htext : text = plain a ++ c :: plain b := by rw [← plain_mark text, h, plain_append, plain_cons]
  rw [htext] at h
  have hrest := (markFrom_append_of_code hslash hstar behind_start h rfl).1
  intro rest
  rw [plain_append, List.append_assoc, List.append_assoc]
  exact hrest rest

theorem mark_plain_of_mark {text : List Char} {a b : List Marked} {c : Char} (hslash : c ≠ '/')
    (hstar : c ≠ '*')
    (h : mark text = a ++ (c, .code) :: b) : mark (plain a) = a := by
  have htext : text = plain a ++ c :: plain b := by rw [← plain_mark text, h, plain_append, plain_cons]
  rw [htext] at h
  exact (markFrom_append_of_code hslash hstar behind_start h rfl).2

theorem mark_plain_behind {text : List Char} {a b : List Marked} {c : Char}
    (h : mark text = a ++ (c, .code) :: b) : mark (plain b) = b := by
  have hsplit : mark text = (a ++ [(c, .code)]) ++ b := by
    rw [h, List.append_assoc, List.singleton_append]
  exact (eq_mark_of_behind_code hsplit List.getLast?_concat).symm

theorem mark_plain_between {text : List Char} {a b rest : List Marked} {c d : Char} (hslash : d ≠ '/')
    (hstar : d ≠ '*') (h : mark text = a ++ (c, .code) :: (b ++ (d, .code) :: rest)) :
    mark (plain b) = b :=
  mark_plain_of_mark hslash hstar (mark_plain_behind h)

/-! ## Pieces of one kind -/

/-- A character that is code wherever code is. -/
def IsPlain (c : Char) : Prop := c ≠ '/' ∧ c ≠ '"' ∧ c ≠ '\''

instance : DecidablePred IsPlain := fun c => inferInstanceAs (Decidable (c ≠ '/' ∧ c ≠ '"' ∧ c ≠ '\''))

def inZone (zone : Zone) (text : List Char) : List Marked := text.map fun c => (c, zone)

@[simp] theorem plain_inZone (zone : Zone) (text : List Char) : plain (inZone zone text) = text := by
  rw [plain, inZone, List.map_map]
  exact List.map_id text

theorem mark_append_of_plain {text : List Char} (h : ∀ c ∈ text, IsPlain c) (rest : List Char) :
    mark (text ++ rest) = inZone .code text ++ mark rest := by
  induction text with
  | nil => rfl
  | cons c text ih =>
    obtain ⟨⟨hslash, hquote, happostrophe⟩, h⟩ := List.forall_mem_cons.mp h
    rw [List.cons_append, mark, markFrom, step_code hslash hquote happostrophe]
    exact congrArg _ (ih h)

theorem closed_of_plain {text : List Char} (h : ∀ c ∈ text, IsPlain c) :
    Closed (inZone .code text) := by
  intro rest
  rw [plain_inZone, mark_append_of_plain h]

theorem markFrom_lineComment_append {text : List Char} (h : '\n' ∉ text) (rest : List Char) :
    markFrom (.inside .lineComment) (text ++ rest) =
      inZone .lineComment text ++ markFrom (.inside .lineComment) rest := by
  induction text with
  | nil => rfl
  | cons c text ih =>
    rw [List.mem_cons, not_or] at h
    have hstep (next : Option Char) : (inside .lineComment).step c next =
        (.lineComment, .inside .lineComment) := by
      simp [step, Ne.symm h.1]
    rw [List.cons_append, markFrom, hstep, ih h.2]
    rfl

theorem markFrom_lineComment {text : List Char} (h : '\n' ∉ text) (rest : List Char) :
    markFrom (.inside .lineComment) (text ++ '\n' :: rest) =
      inZone .lineComment text ++ ('\n', .code) :: mark rest :=
  markFrom_lineComment_append h ('\n' :: rest)

def commentLine (text : List Char) : List Marked :=
  inZone .lineComment ('/' :: '/' :: text) ++ [('\n', .code)]

theorem plain_commentLine (text : List Char) : plain (commentLine text) = '/' :: '/' :: text ++
    ['\n'] := by
  rw [commentLine, plain_append, plain_inZone]
  rfl

theorem closed_commentLine {text : List Char} (h : '\n' ∉ text) : Closed (commentLine text) := by
  intro rest
  have hmark := markFrom_lineComment h rest
  rw [plain_commentLine, commentLine, mark]
  simp only [List.cons_append, List.append_assoc, List.nil_append, markFrom, List.head?_cons]
  rw [show (inside .code).step '/' (some '/') =
    (.lineComment, .second .lineComment .lineComment) from rfl]
  simp only [step, hmark]
  rfl

/-! ## Ends -/

/-- A piece is the whole text, or ends with a character in code. -/
def StopsWith (e : Char) (piece behind : List Marked) : Prop :=
  behind = [] ∨ piece.getLast? = some (e, .code)

theorem StopsWith.split {e : Char} {piece behind a rest : List Marked} (h : StopsWith e piece behind)
    (he : (e, Zone.code) ∉ a) (hsplit : piece ++ behind = a ++ rest) :
    ∃ piece', piece = a ++ piece' ∧ piece' ++ behind = rest ∧ StopsWith e piece' behind := by
  rcases h with rfl | hlast
  · exact ⟨rest, by simpa using hsplit, List.append_nil _, .inl rfl⟩
  · rcases List.append_eq_append_iff.mp hsplit with ⟨u, rfl, -⟩ | ⟨u, rfl, hu⟩
    · exact absurd (List.mem_append_left _ (List.mem_of_getLast? hlast)) he
    · refine ⟨u, rfl, hu.symm, .inr ?_⟩
      cases u with
      | nil =>
        rw [List.append_nil] at hlast
        exact absurd (List.mem_of_getLast? hlast) he
      | cons m u => rwa [List.getLast?_append_of_ne_nil _ (List.cons_ne_nil _ _)] at hlast

theorem notMem_inZone {e : Char} {text : List Char} (h : e ∉ text) :
    (e, Zone.code) ∉ inZone .code text := by
  simpa [inZone] using h

theorem notMem_inZone_string (e : Char) (text : List Char) : (e, Zone.code) ∉ inZone .string text := by
  simp [inZone]

end FirmwareCatalog.Header
