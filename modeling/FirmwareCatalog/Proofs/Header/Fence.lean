import FirmwareCatalog.Header.Bracket
import FirmwareCatalog.Proofs.Header.Scan
import FirmwareCatalog.Proofs.Header.Token
import FirmwareCatalog.Proofs.Header.Zone

/-!
# Fences

The heads that entries and arrays begin with are made of word characters, blanks
and a few brackets. A character that is none of these is a fence: what is read
before it ends before it. A head that begins in code is code as a whole.
-/

namespace FirmwareCatalog.Header

open Character

variable {α : Type} {read : Reader α}

/-! ## The characters of heads -/

def isHeadChar (c : Char) : Bool := isWord c || isBlank c || ['[', ']', '=', '\x7b', '('].contains c

theorem isHeadChar_of_isWord {c : Char} (h : isWord c = true) :
    isHeadChar c = true := by simp [isHeadChar, h]

theorem isHeadChar_of_isBlank {c : Char} (h : isBlank c = true) :
    isHeadChar c = true := by simp [isHeadChar, h]

theorem ne_of_isHeadChar {c d : Char} (h : isHeadChar c = true) (hd : isHeadChar d = false) :
    c ≠ d := by
  rintro rfl
  rw [h] at hd
  cases hd

theorem isPlain_of_isHeadChar {c : Char} (h : isHeadChar c = true) : IsPlain c :=
  ⟨ne_of_isHeadChar h (by decide), ne_of_isHeadChar h (by decide),
    ne_of_isHeadChar h (by decide)⟩

theorem isPlain_of_isWord {c : Char} (h : isWord c = true) : IsPlain c :=
  isPlain_of_isHeadChar (isHeadChar_of_isWord h)

def Taken (text rest : List Char) : Prop :=
  ∃ taken, text = taken ++ rest ∧ ∀ c ∈ taken, isHeadChar c = true

theorem Taken.trans {a b c : List Char} (hab : Taken a b) (hbc : Taken b c) : Taken a c := by
  obtain ⟨t, rfl, ht⟩ := hab
  obtain ⟨u, rfl, hu⟩ := hbc
  refine ⟨t ++ u, (List.append_assoc _ _ _).symm, fun d hd => ?_⟩
  rcases List.mem_append.mp hd with hd | hd
  · exact ht d hd
  · exact hu d hd

theorem taken_skipBlanks (text : List Char) : Taken text (skipBlanks text) := by
  obtain ⟨blanks, htext, hblanks, -⟩ := exists_skipBlanks text
  exact ⟨blanks, htext, fun c hc => isHeadChar_of_isBlank (hblanks c hc)⟩

theorem taken_someBlanks? {text rest : List Char} (h : someBlanks? text = some rest) :
    Taken text rest := by
  obtain ⟨blanks, -, htext, hblanks, -⟩ := someBlanks?_eq_some h
  exact ⟨blanks, htext, fun c hc => isHeadChar_of_isBlank (hblanks c hc)⟩

theorem taken_word? {text word rest : List Char} (h : word? text = some (word, rest)) :
    Taken text rest := by
  obtain ⟨htext, -, hword, -⟩ := someOf?_eq_some h
  exact ⟨word, htext, fun c hc => isHeadChar_of_isWord (hword c hc)⟩

theorem taken_text {s : String} (hs : s.toList.all isHeadChar = true) (rest : List Char) :
    Taken (s.toList ++ rest) rest :=
  ⟨s.toList, rfl, List.all_eq_true.mp hs⟩

/-! ## Readers of heads -/

/-- A text of the characters of heads between two given ones, all of a class. -/
structure IsHead (p : Char → Bool) (first last : Char) (head : List Char) : Prop where
  first : head.head? = some first
  last : head.getLast? = some last
  chars : ∀ c ∈ head, isHeadChar c = true
  within : ∀ c ∈ head, p c = true

def ReadsHead (read : Reader α) (p : Char → Bool) (first last : Char) : Prop :=
  ∀ ⦃before text value rest⦄, read before text = some (value, rest) → ∃ head, text = head ++ rest ∧
    IsHead p first last head

variable {p : Char → Bool} {first last : Char}

theorem ReadsHead.consumes (h : ReadsHead read p first last) : Consumes read := by
  intro before text value rest hr
  obtain ⟨head, htext, hhead⟩ := h hr
  refine ⟨head, ?_, htext⟩
  rintro rfl
  cases hhead.first

/-- Every place of a text from which a head could begin has a fence behind it. -/
def Fenced (p : Char → Bool) (first : Char) (text : List Char) : Prop :=
  ∃ a c tail, text = a ++ c :: tail ∧ p c = false ∧ first ∉ tail

theorem Fenced.behind {text : List Char} (h : Fenced p first text) (front : List Char) :
    Fenced p first (front ++ text) := by
  obtain ⟨a, c, tail, rfl, hc, htail⟩ := h
  exact ⟨front ++ a, c, tail, (List.append_assoc _ _ _).symm, hc, htail⟩

theorem Fenced.before {text : List Char} (h : Fenced p first text) {tail : List Char}
    (htail : first ∉ tail) :
    Fenced p first (text ++ tail) := by
  obtain ⟨a, c, b, rfl, hc, hb⟩ := h
  exact ⟨a, c, b ++ tail, by simp, hc, by simp [hb, htail]⟩

theorem ReadsHead.inside (h : ReadsHead read p first last) {text x y b : List Char}
    (htext : Fenced p first text)
    (hsplit : text = x ++ y) (hy : y ≠ []) {before : Option Char} {value : α} {rest : List Char}
    (hread : read before (y ++ b) = some (value, rest)) :
    ∃ head r, y = head ++ r ∧ rest = r ++ b ∧ IsHead p first last head := by
  obtain ⟨head, hyb, hhead⟩ := h hread
  rcases List.append_eq_append_iff.mp hyb with ⟨u, hu, hb⟩ | ⟨u, hu, hrest⟩
  · -- the head would hold the fence, or begin behind it
    obtain ⟨a, c, tail, rfl, hc, htail⟩ := htext
    have hnotMem : c ∉ y := fun hmem => by
      rw [hhead.within c (hu ▸ List.mem_append_left _ hmem)] at hc
      cases hc
    rcases List.append_eq_append_iff.mp hsplit with ⟨v, rfl, hv⟩ | ⟨v, rfl, rfl⟩
    · cases v with
      | nil =>
        rw [List.nil_append] at hv
        exact absurd (hv ▸ List.mem_cons_self) hnotMem
      | cons d v =>
        rw [List.cons_append, List.cons.injEq] at hv
        cases y with
        | nil => exact absurd rfl hy
        | cons e y =>
          have hfirst := hhead.first
          rw [hu, List.cons_append, List.head?_cons, Option.some.injEq] at hfirst
          exact absurd (by rw [hv.2, hfirst]; simp) htail
    · exact absurd (by simp) hnotMem
  · exact ⟨head, u, hu, hrest, hhead⟩

/-! ## Pieces without heads -/

def Unread (read : Reader α) (piece : List Marked) : Prop :=
  ∀ ⦃x c y⦄, piece = x ++ (c, .code) :: y → ∀ before rest, read before (c :: plain y ++ rest) = none

theorem unread_nil : Unread read [] := fun x c y h => by simp at h

theorem Unread.append {a b : List Marked} (ha : Unread read a) (hb : Unread read b) :
    Unread read (a ++ b) := by
  intro x c y h before rest
  rcases List.append_eq_append_iff.mp h with ⟨u, rfl, hu⟩ | ⟨u, rfl, hu⟩
  · exact hb hu before rest
  · cases u with
    | nil => exact hb (show b = [] ++ _ from hu.symm) before rest
    | cons d u =>
      rw [List.cons_append, List.cons.injEq] at hu
      obtain ⟨rfl, rfl⟩ := hu
      rw [plain_append, List.cons_append, List.append_assoc]
      exact ha rfl before _

theorem unread_flatMap {β : Type} {items : List β} {f : β → List Marked}
    (h : ∀ item ∈ items, Unread read (f item)) :
    Unread read (items.flatMap f) := by
  induction items with
  | nil => exact unread_nil
  | cons item items ih =>
    obtain ⟨hitem, h⟩ := List.forall_mem_cons.mp h
    exact hitem.append (ih h)

theorem unread_of_noCode {piece : List Marked} (h : ∀ m ∈ piece, m.2 ≠ .code) : Unread read piece := by
  intro x c y hpiece
  exact absurd rfl (h (c, .code) (by rw [hpiece]; simp))

def Quiet (read : Reader α) (text : List Char) : Prop :=
  ∀ ⦃x c y⦄, text = x ++ c :: y → ∀ before rest, read before (c :: y ++ rest) = none

theorem Quiet.unread {piece : List Marked} (h : Quiet read (plain piece)) : Unread read piece := by
  intro x c y hpiece before rest
  exact @h (plain x) c (plain y) (by rw [hpiece, plain_append, plain_cons]) before rest

theorem Quiet.scanFrom {text : List Char} (h : Quiet read text) (place : Nat) (before : Option Char)
    (rest : List Char) :
    scanFrom read place before 0 (text ++ rest) = Header.scanFrom read (place + text.length)
      (behind before text) 0 rest :=
  scanFrom_pass fun _ _ _ htext => h htext _ rest

theorem ReadsHead.quiet (h : ReadsHead read p first last) {text : List Char}
    (hfirst : first ∉ text) : Quiet read text := by
  intro x c y htext before rest
  by_contra hsome
  obtain ⟨⟨value, rest'⟩, hread⟩ := Option.ne_none_iff_exists'.mp hsome
  obtain ⟨head, hy, hhead⟩ := h hread
  have hc := congrArg List.head? hy
  rw [List.head?_append (l := head), hhead.first, List.cons_append, List.head?_cons, Option.some_or,
    Option.some.injEq] at hc
  exact hfirst (by rw [htext, hc]; simp)

/-- A head that begins in code is code up to its end. -/
theorem IsHead.eq_inZone {head : List Char} (h : IsHead p first last head) {text r : List Char}
    {x y : List Marked} (hmark : mark text = x ++ y) (hcode : ∃ c y', y = (c, .code) :: y')
    (hplain : plain y = head ++ r) :
    y = inZone .code head ++ mark r := by
  obtain ⟨c, y', hy⟩ := hcode
  rw [eq_mark_of_code hmark hy, hplain]
  exact mark_append_of_plain (fun c hc => isPlain_of_isHeadChar (h.chars c hc)) r

theorem bracketed?_head {opener closer : Char} {head : List Char} (h : IsHead p first opener head)
    {x rest : List Marked}
    {n : Nat} (hn : n = x.length + head.length - 1) :
    bracketed? opener closer (x ++ (inZone .code head ++ rest)) n =
      splitClosing opener closer 1 rest := by
  obtain ⟨front, rfl⟩ := List.getLast?_eq_some_iff.mp h.last
  have hdrop : (x ++ (inZone .code (front ++ [opener]) ++ rest)).drop n = (opener, .code) :: rest := by
    have hlist : x ++ (inZone .code (front ++ [opener]) ++ rest) = (x ++ inZone .code front) ++
        ((opener, .code) :: rest) := by
      simp [inZone]
    rw [hlist, hn]
    exact List.drop_left' (by simp [inZone])
  rw [bracketed?, hdrop]
  rfl

/-- Where a piece holds no character that a head must hold, there is no head. -/
theorem ReadsHead.unread (h : ReadsHead read p first last) {piece : List Marked}
    (hclosed : Closed piece)
    (hfenced : Fenced p first (plain piece)) (hlast : (last, Zone.code) ∉ piece) :
    Unread read piece := by
  intro x c y hpiece before rest
  by_contra hsome
  obtain ⟨⟨value, rest'⟩, hread⟩ := Option.ne_none_iff_exists'.mp hsome
  have hplain : plain piece = plain x ++ (c :: plain y) := by rw [hpiece, plain_append, plain_cons]
  obtain ⟨head, r, hy, -, hhead⟩ := h.inside hfenced hplain (List.cons_ne_nil _ _) hread
  have hmark : mark (plain piece) = x ++ (c, .code) :: y := by rw [hclosed.mark_plain, hpiece]
  refine hlast ?_
  rw [hpiece, hhead.eq_inZone hmark ⟨c, y, rfl⟩ hy]
  have hmem := List.mem_of_getLast? hhead.last
  simp [inZone, hmem]

end FirmwareCatalog.Header
