import FirmwareCatalog.Proofs.Elementwise
import FirmwareCatalog.Proofs.Header.Nesting
import Mathlib.Data.Nat.Find

/-!
# Cuts at commas

A text is cut at each comma in code that has no bracket open in front of it. There the
lexer is in code and the depth is zero, as at the beginning of a text, so a part is read
alone as it was read in its place: no comma cuts it again.
-/

namespace FirmwareCatalog.Header

open Text

/-! ## Cuts -/

def depthBehind : Int → List Marked → Int
  | depth, [] => depth
  | depth, (c, zone) :: rest => depthBehind (if zone = .code then depth + nesting c else depth) rest

theorem depthBehind_append (a b : List Marked) (depth : Int) :
    depthBehind depth (a ++ b) = depthBehind (depthBehind depth a) b := by
  induction a generalizing depth with
  | nil => rfl
  | cons m a ih => rw [List.cons_append, depthBehind, depthBehind, ih]

/-- A comma in code outside all brackets, with `depth` of them open in front of the text. -/
def CutAt (depth : Int) (marked : List Marked) (k : Nat) : Prop :=
  marked[k]? = some (',', .code) ∧ depthBehind depth (marked.take k) = 0

theorem cutAt_zero {depth : Int} {m : Marked} {rest : List Marked} :
    CutAt depth (m :: rest) 0 ↔ m = (',', .code) ∧ depth = 0 := by
  simp [CutAt, depthBehind]

theorem CutAt.lt_length {depth : Int} {marked : List Marked} {k : Nat} (h : CutAt depth marked k) :
    k < marked.length := (List.getElem?_eq_some_iff.mp h.1).1

theorem cutAt_append_left {depth : Int} {a b : List Marked} {k : Nat} (hk : k < a.length) :
    CutAt depth (a ++ b) k ↔ CutAt depth a k := by
  rw [CutAt, CutAt, List.getElem?_append_left hk, List.take_append_of_le_length (Nat.le_of_lt hk)]

theorem cutAt_append_right {depth : Int} {a b : List Marked} {k : Nat} :
    CutAt depth (a ++ b) (a.length + k) ↔ CutAt (depthBehind depth a) b k := by
  rw [CutAt, CutAt, List.getElem?_append_right (Nat.le_add_right _ _), Nat.add_sub_cancel_left,
    List.take_length_add_append, depthBehind_append]

theorem cutAt_succ {depth : Int} {m : Marked} {rest : List Marked} {k : Nat} :
    CutAt depth (m :: rest) (k + 1) ↔ CutAt (depthBehind depth [m]) rest k := by
  rw [Nat.add_comm]
  exact cutAt_append_right (a := [m])

theorem exists_first_cut {marked : List Marked} (h : ∃ k, CutAt 0 marked k) :
    ∃ front behind, marked = front ++ (',', .code) :: behind ∧ depthBehind 0 front = 0 ∧
      ∀ k, ¬ CutAt 0 front k := by
  classical
  obtain ⟨k, hk, hfirst⟩ : ∃ k, CutAt 0 marked k ∧ ∀ j < k, ¬ CutAt 0 marked j :=
    ⟨Nat.find h, Nat.find_spec h, fun _ => Nat.find_min h⟩
  obtain ⟨hcomma, hdepth⟩ := hk
  obtain ⟨front, behind, rfl, rfl⟩ := exists_append_of_getElem? hcomma
  rw [List.take_left] at hdepth
  refine ⟨front, behind, rfl, hdepth, fun j hj => ?_⟩
  apply hfirst j hj.lt_length
  exact (cutAt_append_left hj.lt_length).mpr hj

/-! ## Splitting -/

theorem splitCommas_ne_nil (depth : Int) (marked : List Marked) : splitCommas depth marked ≠ [] := by
  cases marked with
  | nil => exact List.cons_ne_nil _ _
  | cons m rest =>
    rw [splitCommas]
    split
    · exact List.cons_ne_nil _ _
    · cases splitCommas (if m.2 = .code then depth + nesting m.1 else depth) rest <;> exact List.cons_ne_nil _ _

theorem splitCommas_step {depth : Int} {m : Marked} (h : ¬ (m = (',', .code) ∧ depth = 0)) (rest : List Marked) :
    splitCommas depth (m :: rest) = consFirst m.1 (splitCommas (depthBehind depth [m]) rest) := by
  have hpass : ¬ (m.2 = .code ∧ m.1 = ',' ∧ depth = 0) := by
    intro ⟨hzone, hc, hdepth⟩
    exact h ⟨Prod.ext hc hzone, hdepth⟩
  exact if_neg hpass

theorem splitCommas_passes {piece : List Marked} : ∀ {depth : Int}, (∀ k, ¬ CutAt depth piece k) → ∀ rest,
    splitCommas depth (piece ++ rest) = prepend (plain piece) (splitCommas (depthBehind depth piece) rest) := by
  induction piece with
  | nil => exact fun _ _ => rfl
  | cons m piece ih =>
    intro depth h rest
    have hfirst : ¬ (m = (',', .code) ∧ depth = 0) := fun hm => h 0 (cutAt_zero.mpr hm)
    have hpiece : ∀ k, ¬ CutAt (depthBehind depth [m]) piece k := fun k hk => h (k + 1) (cutAt_succ.mpr hk)
    rw [List.cons_append, splitCommas_step hfirst, ih hpiece]
    rfl

theorem splitCommas_uncut {marked : List Marked} {depth : Int} (h : ∀ k, ¬ CutAt depth marked k) :
    splitCommas depth marked = [plain marked] := by
  have := splitCommas_passes h []
  rwa [List.append_nil, splitCommas, prepend_cons, List.append_nil] at this

theorem splitCommas_cut {front : List Marked} (h : ∀ k, ¬ CutAt 0 front k) (hlevel : depthBehind 0 front = 0)
    (behind : List Marked) :
    splitCommas 0 (front ++ (',', .code) :: behind) = plain front :: splitCommas 0 behind := by
  rw [splitCommas_passes h, hlevel, splitCommas_comma, prepend_cons, List.append_nil]

/-! ## Parts -/

/-- The parts of a text. No comma cuts a part, and each part but the last stands before one that cuts the text. -/
inductive CutInto : List Char → List (List Char) → Prop
  | last {text : List Char} (uncut : ∀ k, ¬ CutAt 0 (mark text) k) : CutInto text [text]
  | part {front behind : List Char} {parts : List (List Char)}
      (lexed : mark (front ++ ',' :: behind) = mark front ++ (',', .code) :: mark behind)
      (uncut : ∀ k, ¬ CutAt 0 (mark front) k) (level : depthBehind 0 (mark front) = 0)
      (rest : CutInto behind parts) :
      CutInto (front ++ ',' :: behind) (front :: parts)

theorem cutInto_splitCommas (text : List Char) : CutInto text (splitCommas 0 (mark text)) := by
  -- a part is passed at once, so the induction is on the length
  induction h : text.length using Nat.strongRecOn generalizing text with
  | ind n ih =>
    subst h
    by_cases hcut : ∃ k, CutAt 0 (mark text) k
    · obtain ⟨front, behind, hmark, hlevel, hfirst⟩ := exists_first_cut hcut
      have hfront := mark_plain_of_mark (by decide) (by decide) hmark
      have hbehind := mark_plain_behind hmark
      have htext : text = plain front ++ ',' :: plain behind := by
        rw [← plain_mark text, hmark, plain_append, plain_cons]
      have hlength : (plain behind).length < text.length := by
        rw [htext, List.length_append, List.length_cons]
        omega
      have hrest := ih _ hlength (plain behind) rfl
      rw [hbehind] at hrest
      rw [hmark, splitCommas_cut hfirst hlevel]
      rw [htext] at hmark ⊢
      exact .part (by rw [hmark, hfront, hbehind]) (by rwa [hfront]) (by rwa [hfront]) hrest
    · have huncut : ∀ k, ¬ CutAt 0 (mark text) k := fun k hk => hcut ⟨k, hk⟩
      rw [splitCommas_uncut huncut, plain_mark]
      exact .last huncut

/-- A position between two parts that are joined by commas. -/
def Joint (parts : List (List Char)) (k : Nat) : Prop :=
  ∃ before behind, parts = before ++ behind ∧ before ≠ [] ∧ behind ≠ [] ∧
    k = (List.intercalate [','] before).length

theorem not_joint_singleton (part : List Char) (k : Nat) : ¬ Joint [part] k := by
  intro ⟨before, behind, hparts, hbefore, hbehind, _⟩
  rcases List.append_eq_singleton_iff.mp hparts.symm with ⟨hnil, _⟩ | ⟨_, hnil⟩
  · exact hbefore hnil
  · exact hbehind hnil

theorem joint_cons {part : List Char} {parts : List (List Char)} (hne : parts ≠ []) {k : Nat} :
    Joint (part :: parts) k ↔ k = part.length ∨ ∃ j, k = part.length + 1 + j ∧ Joint parts j := by
  constructor
  · intro ⟨before, behind, hparts, hbefore, hbehind, hk⟩
    cases before with
    | nil => exact absurd rfl hbefore
    | cons first before =>
      obtain ⟨rfl, hrest⟩ := List.cons.inj hparts
      by_cases hnil : before = []
      · rw [hnil, List.intercalate_singleton] at hk
        exact .inl hk
      · rw [List.intercalate_cons_of_ne_nil hnil, List.length_append, List.length_append, List.length_singleton] at hk
        exact .inr ⟨_, hk, before, behind, hrest, hnil, hbehind, rfl⟩
  · intro h
    rcases h with hk | ⟨j, hk, before, behind, hparts, hbefore, hbehind, hj⟩
    · exact ⟨[part], parts, rfl, List.cons_ne_nil _ _, hne, by rw [hk, List.intercalate_singleton]⟩
    · refine ⟨part :: before, behind, by rw [hparts, List.cons_append], List.cons_ne_nil _ _, hbehind, ?_⟩
      rw [List.intercalate_cons_of_ne_nil hbefore, List.length_append, List.length_append, List.length_singleton,
        hk, hj]

theorem cutAt_part {front behind : List Marked} (huncut : ∀ k, ¬ CutAt 0 front k) (hlevel : depthBehind 0 front = 0)
    {k : Nat} : CutAt 0 (front ++ (',', .code) :: behind) k ↔
      k = front.length ∨ ∃ j, k = front.length + 1 + j ∧ CutAt 0 behind j := by
  by_cases hk : k < front.length
  · rw [cutAt_append_left hk]
    constructor
    · exact fun h => absurd h (huncut k)
    · intro h
      rcases h with h | ⟨j, h, _⟩
      · omega
      · omega
  · obtain ⟨n, rfl⟩ := Nat.exists_eq_add_of_le (Nat.le_of_not_lt hk)
    rw [cutAt_append_right, hlevel]
    cases n with
    | zero => exact iff_of_true (cutAt_zero.mpr ⟨rfl, rfl⟩) (.inl rfl)
    | succ n =>
      rw [cutAt_succ, show depthBehind 0 [(',', Zone.code)] = 0 from rfl]
      constructor
      · exact fun h => .inr ⟨n, by omega, h⟩
      · intro h
        rcases h with h | ⟨j, h, hj⟩
        · omega
        · obtain rfl : n = j := by omega
          exact hj

namespace CutInto

variable {text : List Char} {parts : List (List Char)} (h : CutInto text parts)
include h

theorem ne_nil : parts ≠ [] := by
  cases h with
  | last => exact List.cons_ne_nil _ _
  | part => exact List.cons_ne_nil _ _

theorem intercalate_eq : List.intercalate [','] parts = text := by
  induction h with
  | last => rw [List.intercalate_singleton]
  | part lexed uncut level rest ih =>
    rw [List.intercalate_cons_of_ne_nil rest.ne_nil, ih, List.append_assoc, List.singleton_append]

theorem mark_eq : mark text = List.intercalate [(',', .code)] (parts.map mark) := by
  induction h with
  | last => rw [List.map_singleton, List.intercalate_singleton]
  | part lexed uncut level rest ih =>
    rw [lexed, ih, List.map_cons, List.intercalate_cons_of_ne_nil fun hnil => rest.ne_nil (List.map_eq_nil_iff.mp hnil),
      List.append_assoc, List.singleton_append]

theorem uncut : ∀ part ∈ parts, ∀ k, ¬ CutAt 0 (mark part) k := by
  induction h with
  | last uncut => exact List.forall_mem_singleton.mpr uncut
  | part lexed uncut level rest ih => exact List.forall_mem_cons.mpr ⟨uncut, ih⟩

theorem cutAt_iff {k : Nat} : CutAt 0 (mark text) k ↔ Joint parts k := by
  induction h generalizing k with
  | last uncut => exact iff_of_false (uncut k) (not_joint_singleton _ k)
  | part lexed uncut level rest ih =>
    rw [lexed, cutAt_part uncut level, joint_cons rest.ne_nil, ← length_plain (mark _), plain_mark]
    simp only [ih]

end CutInto

/-! ## Lossless and final -/

theorem splitTopLevel_part {part : List Char} (huncut : ∀ k, ¬ CutAt 0 (mark part) k)
    (hblank : isBlankText part = false) : splitTopLevel part = [part] := by
  rw [splitTopLevel, splitCommas_uncut huncut, plain_mark, dropBlankLast, if_neg (by simp [hblank])]

theorem dropBlankLast_eq_ite (front : List (List Char)) (last : List Char) :
    dropBlankLast (front ++ [last]) = if isBlankText last then front else front ++ [last] := by
  by_cases hlast : isBlankText last = true
  · rw [dropBlankLast_concat front hlast, if_pos hlast]
  · rw [if_neg hlast]
    apply dropBlankLast_of_last
    simpa using hlast

/-- **Cuts at commas are lossless and final.** The parts joined with commas are the text, but for a blank last part,
which is left out with the comma before it. The commas between the parts are just those that cut the text, and around
them the text is marked as the parts are alone. No part is cut again. -/
theorem splitTopLevel_lossless_and_final (text : List Char) :
    ∃ front last, List.intercalate [','] (front ++ [last]) = text ∧
      splitTopLevel text = (if isBlankText last then front else front ++ [last]) ∧
      (∀ k, CutAt 0 (mark text) k ↔ Joint (front ++ [last]) k) ∧
      mark text = List.intercalate [(',', .code)] ((front ++ [last]).map mark) ∧
      ∀ part ∈ splitTopLevel text,
        (isBlankText part = false → splitTopLevel part = [part]) ∧ ∀ k, ¬ CutAt 0 (mark part) k := by
  have hcut := cutInto_splitCommas text
  have hparts := List.dropLast_append_getLast hcut.ne_nil
  generalize (splitCommas 0 (mark text)).dropLast = front at hparts
  generalize (splitCommas 0 (mark text)).getLast _ = last at hparts
  have hsplit : splitTopLevel text = if isBlankText last then front else front ++ [last] := by
    rw [splitTopLevel, ← hparts, dropBlankLast_eq_ite]
  rw [← hparts] at hcut
  refine ⟨front, last, hcut.intercalate_eq, hsplit, fun k => hcut.cutAt_iff, hcut.mark_eq, fun part hpart => ?_⟩
  have hmem : part ∈ front ++ [last] := by
    rw [hsplit] at hpart
    split at hpart
    · exact List.mem_append_left _ hpart
    · exact hpart
  have huncut := hcut.uncut part hmem
  exact ⟨splitTopLevel_part huncut, huncut⟩

-- a closer that nothing opened counts below zero
example : splitTopLevel "a),b,(c,d".toList = ["a),b,(c".toList, "d".toList] := by decide

end FirmwareCatalog.Header
