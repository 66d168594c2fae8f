import FirmwareCatalog.Proofs.Header.StringMacro
import FirmwareCatalog.Proofs.Removal.Place

/-!
# Readings around a comment

A reader that goes by what it takes alone reads the same in front of a comment as
in front of a space. Where nothing is taken across an end of the comment or across
the space in its place, only the matches inside the comment are lost.
-/

namespace FirmwareCatalog.Header

variable {α : Type} {read : Reader α}

/-! ## Local readers -/

/-- What is read hangs neither on the place nor on what follows it. -/
structure IsLocal (read : Reader α) : Prop where
  consumes : Consumes read
  anywhere : ∀ before text, read before text = read none text
  replace : ∀ ⦃taken rest value⦄, read none (taken ++ rest) = some (value, rest) →
    ∀ rest', read none (taken ++ rest') = some (value, rest')

theorem map_shift_zero (ms : List (Match α)) : ms.map (Match.shift 0) = ms := by
  induction ms with
  | nil => rfl
  | cons m ms ih => rw [List.map_cons, ih, Match.shift, Nat.zero_add]

theorem map_shift_shift (n k : Nat) (ms : List (Match α)) :
    (ms.map (Match.shift k)).map (Match.shift n) = ms.map (Match.shift (n + k)) := by
  rw [List.map_map]
  refine List.map_congr_left fun m _ => ?_
  rw [Function.comp_apply, Match.shift, Match.shift, Match.shift, Nat.add_assoc]

namespace IsLocal

variable (h : IsLocal read)
include h

theorem scanFrom_eq (place : Nat) (before : Option Char) (text : List Char) :
    scanFrom read place before 0 text = (scan read text).map (Match.shift place) := by
  have hbefore : scanFrom read place before 0 text = scanFrom read place none 0 text := by
    cases text with
    | nil => rfl
    | cons c text => rw [scanFrom, scanFrom, h.anywhere before]
  rw [hbefore, scan, ← scanFrom_shift, Nat.add_zero]

theorem scan_match {taken : List Char} {value : α} (htaken : taken ≠ [])
    (hread : ∀ rest, read none (taken ++ rest) = some (value, rest)) (text : List Char) :
    scan read (taken ++ text) = ⟨0, value, taken⟩ :: (scan read text).map (Match.shift taken.length) := by
  rw [scan, scanFrom_match 0 htaken (hread _), Nat.zero_add, h.scanFrom_eq]

theorem scan_skip {c : Char} {text : List Char} (hnone : read none (c :: text) = none) :
    scan read (c :: text) = (scan read text).map (Match.shift 1) := by
  rw [scan, scanFrom, hnone]
  exact h.scanFrom_eq _ _ _

end IsLocal

/-- A match that stands in a text and is read there whatever follows it. -/
def Match.IsIn (read : Reader α) (text : List Char) (m : Match α) : Prop :=
  m.text ≠ [] ∧ (∃ x left, text = x ++ (m.text ++ left) ∧ m.start = x.length) ∧
    ∀ rest, read none (m.text ++ rest) = some (m.value, rest)

theorem Match.IsIn.start_lt {text : List Char} {m : Match α} (h : m.IsIn read text) :
    m.start < text.length := by
  obtain ⟨hne, ⟨x, left, rfl, hstart⟩, -⟩ := h
  have := List.length_pos_iff.mpr hne
  rw [hstart, List.length_append, List.length_append]
  omega

theorem Match.IsIn.shift {text : List Char} {m : Match α} (h : m.IsIn read text) (front : List Char) :
    (m.shift front.length).IsIn read (front ++ text) := by
  obtain ⟨hne, ⟨x, left, rfl, hstart⟩, hreads⟩ := h
  refine ⟨hne, ⟨front ++ x, left, (List.append_assoc _ _ _).symm, ?_⟩, hreads⟩
  rw [List.length_append, Match.shift, hstart]

def Within (read : Reader α) (front rest : List Char) : Prop :=
  ∀ text ∈ front.tails, text ≠ [] → ∀ p ∈ read none (text ++ rest), rest.length ≤ p.2.length

instance (read : Reader α) (front rest : List Char) : Decidable (Within read front rest) :=
  inferInstanceAs (Decidable (∀ text ∈ front.tails, text ≠ [] → ∀ p ∈ read none (text ++ rest),
    rest.length ≤ p.2.length))

theorem Within.exists_left {front rest : List Char} (h : Within read front rest) (hread : Consumes read)
    {x y : List Char} (hsplit : front = x ++ y) (hy : y ≠ []) {value : α} {left : List Char}
    (hsome : read none (y ++ rest) = some (value, left)) :
    ∃ taken left', y = taken ++ left' ∧ left = left' ++ rest ∧ taken ≠ [] := by
  have hlength := h y ((List.mem_tails _ _).mpr ⟨x, hsplit.symm⟩) hy (value, left) hsome
  obtain ⟨taken, htaken, htext⟩ := hread hsome
  rcases List.append_eq_append_iff.mp htext with ⟨u, hu, hrest⟩ | ⟨u, hy', hleft⟩
  · -- what is taken ends with the front
    have hnil : u = [] := by
      have := congrArg List.length hrest
      rw [List.length_append] at this
      exact List.length_eq_zero_iff.mp (by simp only at hlength; omega)
    subst hnil
    exact ⟨y, [], (List.append_nil y).symm, hrest.symm, hy⟩
  · exact ⟨taken, u, hy', hleft, htaken⟩

theorem Within.tail {front rest : List Char} {x y : List Char} (h : Within read front rest)
    (hsplit : front = x ++ y) : Within read y rest := by
  intro text htext
  obtain ⟨z, hz⟩ := (List.mem_tails _ _).mp htext
  exact h text ((List.mem_tails _ _).mpr ⟨x ++ z, by rw [hsplit, ← hz, List.append_assoc]⟩)

def SharesMatches (read : Reader α) (front rest rest' : List Char) : Prop :=
  ∃ found, (∀ m ∈ found, m.IsIn read front) ∧
    scan read (front ++ rest) = found ++ (scan read rest).map (Match.shift front.length) ∧
    scan read (front ++ rest') = found ++ (scan read rest').map (Match.shift front.length)

theorem sharesMatches_nil (rest rest' : List Char) : SharesMatches read [] rest rest' :=
  ⟨[], fun _ hm => absurd hm List.not_mem_nil, (map_shift_zero _).symm, (map_shift_zero _).symm⟩

section
variable (hread : IsLocal read) {rest rest' : List Char}
include hread

theorem SharesMatches.match {taken front : List Char} (h : SharesMatches read front rest rest') {value : α}
    (htaken : taken ≠ []) (hreads : ∀ rest, read none (taken ++ rest) = some (value, rest)) :
    SharesMatches read (taken ++ front) rest rest' := by
  obtain ⟨found, hfound, hscan, hscan'⟩ := h
  refine ⟨⟨0, value, taken⟩ :: found.map (Match.shift taken.length), fun m hm => ?_, ?_, ?_⟩
  · rcases List.mem_cons.mp hm with rfl | hm
    · exact ⟨htaken, ⟨[], front, rfl, rfl⟩, hreads⟩
    · obtain ⟨m', hm', rfl⟩ := List.mem_map.mp hm
      exact (hfound m' hm').shift taken
  · rw [List.append_assoc, hread.scan_match htaken hreads, hscan, List.map_append, map_shift_shift,
      List.length_append]
    rfl
  · rw [List.append_assoc, hread.scan_match htaken hreads, hscan', List.map_append, map_shift_shift,
      List.length_append]
    rfl

theorem SharesMatches.skip {c : Char} {front : List Char} (h : SharesMatches read front rest rest')
    (hnone : read none (c :: (front ++ rest)) = none) (hnone' : read none (c :: (front ++ rest')) = none) :
    SharesMatches read (c :: front) rest rest' := by
  obtain ⟨found, hfound, hscan, hscan'⟩ := h
  refine ⟨found.map (Match.shift 1), fun m hm => ?_, ?_, ?_⟩
  · obtain ⟨m', hm', rfl⟩ := List.mem_map.mp hm
    exact (hfound m' hm').shift [c]
  · rw [List.cons_append, hread.scan_skip hnone, hscan, List.map_append, map_shift_shift, List.length_cons,
      Nat.add_comm]
  · rw [List.cons_append, hread.scan_skip hnone', hscan', List.map_append, map_shift_shift, List.length_cons,
      Nat.add_comm]

/-- Where nothing is taken across the end of a front, its matches do not hang on what follows it. -/
theorem IsLocal.sharesMatches : ∀ {front : List Char}, Within read front rest → Within read front rest' →
    SharesMatches read front rest rest' := by
  intro front
  induction h : front.length using Nat.strongRecOn generalizing front with
  | ind n ih =>
    intro hwithin hwithin'
    subst h
    cases front with
    | nil => exact sharesMatches_nil rest rest'
    | cons c front =>
      have hmatch {rest₁ : List Char} (h : Within read (c :: front) rest₁) {p : α × List Char}
          (hsome : read none (c :: front ++ rest₁) = some p) : SharesMatches read (c :: front) rest rest' := by
        obtain ⟨value, left⟩ := p
        obtain ⟨taken, left, hfront, rfl, htaken⟩ :=
          h.exists_left hread.consumes (List.nil_append _).symm (List.cons_ne_nil _ _) hsome
        rw [hfront, List.append_assoc] at hsome
        rw [hfront] at hwithin hwithin' ih ⊢
        have hpos := List.length_pos_iff.mpr htaken
        have hleft := ih left.length (by rw [List.length_append]; omega) rfl (hwithin.tail rfl)
          (hwithin'.tail rfl)
        exact hleft.match hread htaken (hread.replace hsome)
      cases hsome : read none (c :: front ++ rest) with
      | some p => exact hmatch hwithin hsome
      | none =>
        cases hsome' : read none (c :: front ++ rest') with
        | some p => exact hmatch hwithin' hsome'
        | none =>
          have htail := ih front.length (by simp) rfl (@Within.tail _ _ _ _ [c] front hwithin rfl)
            (@Within.tail _ _ _ _ [c] front hwithin' rfl)
          exact htail.skip hread hsome hsome'

end

/-! ## Matches in code -/

def codeMatches (marked : List Marked) (found : List (Match α)) : List (Match α) :=
  found.filter fun m => zoneAt? marked m.start = some .code

theorem codeMatches_append (marked : List Marked) (a b : List (Match α)) :
    codeMatches marked (a ++ b) = codeMatches marked a ++ codeMatches marked b := List.filter_append _ _

theorem zoneAt?_front {front rest : List Marked} {n : Nat} (h : n < front.length) :
    zoneAt? (front ++ rest) n = zoneAt? front n := by
  rw [zoneAt?, zoneAt?, List.getElem?_append_left h]

theorem codeMatches_front {front rest : List Marked} {found : List (Match α)}
    (h : ∀ m ∈ found, m.start < front.length) :
    codeMatches (front ++ rest) found = codeMatches front found := by
  refine List.filter_congr fun m hm => ?_
  rw [zoneAt?_front (h m hm)]

theorem codeMatches_shift (front rest : List Marked) (found : List (Match α)) :
    codeMatches (front ++ rest) (found.map (Match.shift front.length)) =
      (codeMatches rest found).map (Match.shift front.length) := by
  rw [codeMatches, codeMatches, List.filter_map]
  refine congrArg _ (List.filter_congr fun m _ => ?_)
  rw [Function.comp_apply, Match.shift, zoneAt?_add]

/-! ## The two texts -/

namespace CommentPlace

variable (place : CommentPlace)

/-- Nothing is read across an end of the comment, or across the space in its place. -/
structure Apart (read : Reader α) : Prop where
  start : Within read place.before (place.comment.body ++ place.after)
  stop : Within read place.comment.body place.after
  space : Within read place.before (' ' :: place.after)

instance (read : Reader α) : Decidable (place.Apart read) :=
  decidable_of_iff (Within read place.before (place.comment.body ++ place.after) ∧
    Within read place.comment.body place.after ∧ Within read place.before (' ' :: place.after))
    ⟨fun h => ⟨h.1, h.2.1, h.2.2⟩, fun h => ⟨h.start, h.stop, h.space⟩⟩

theorem zoneAt?_gap {n : Nat} (h : n < place.gap.length) :
    zoneAt? (mark place.written) (place.front.length + n) ≠ some .code := by
  rw [mark_written, zoneAt?_add, zoneAt?_front h, zoneAt?, List.getElem?_eq_getElem h]
  intro hcode
  exact place.noCode_gap _ (List.getElem_mem h) (Option.some.inj hcode)

/-- The matches before the comment stay, those inside it are lost, and those behind it move. -/
theorem codeMatches_spaced {place : CommentPlace} (hread : IsLocal read)
    (hblank : ∀ rest, read none (' ' :: rest) = none) (h : place.Apart read) :
    ∃ found, (∀ m ∈ found, m.IsIn read place.before ∧ zoneAt? place.front m.start = some .code) ∧
      codeMatches (mark place.written) (scan read place.written) = found ++
        (codeMatches place.rear (scan read place.after)).map (Match.shift (place.front ++ place.gap).length) ∧
      codeMatches (mark place.spaced) (scan read place.spaced) = found ++
        (codeMatches place.rear (scan read place.after)).map (Match.shift (place.front ++ space).length) := by
  have hgap : place.comment.body.length = place.gap.length := by rw [← place.plain_gap, length_plain]
  have hbefore : place.before.length = place.front.length := by rw [← place.plain_front, length_plain]
  obtain ⟨found, hfound, hwritten, hspaced⟩ := hread.sharesMatches h.start h.space
  obtain ⟨inside, hinside, hbody, -⟩ := hread.sharesMatches h.stop h.stop
  have hfront (rest : List Marked) : codeMatches (place.front ++ rest) found = codeMatches place.front found :=
    codeMatches_front fun m hm => hbefore ▸ (hfound m hm).start_lt
  have hlost : codeMatches (mark place.written) (inside.map (Match.shift place.front.length)) = [] := by
    refine List.filter_eq_nil_iff.mpr fun m hm hcode => ?_
    obtain ⟨m', hm', rfl⟩ := List.mem_map.mp hm
    exact place.zoneAt?_gap (hgap ▸ (hinside m' hm').start_lt) (of_decide_eq_true hcode)
  have hwritten' : scan read place.written = found ++ (inside.map (Match.shift place.front.length) ++
      (scan read place.after).map (Match.shift (place.front ++ place.gap).length)) := by
    rw [written, hwritten, hbody, List.map_append, map_shift_shift, hbefore, hgap, List.length_append]
  have hspaced' : scan read place.spaced = found ++
      (scan read place.after).map (Match.shift (place.front ++ space).length) := by
    rw [spaced, hspaced, hread.scan_skip (hblank _), map_shift_shift, hbefore, List.length_append]
    rfl
  refine ⟨codeMatches place.front found, fun m hm => ?_, ?_, ?_⟩
  · obtain ⟨hm, hcode⟩ := List.mem_filter.mp hm
    exact ⟨hfound m hm, of_decide_eq_true hcode⟩
  · rw [hwritten', codeMatches_append, codeMatches_append, hlost, List.nil_append, mark_written, hfront,
      ← List.append_assoc, codeMatches_shift]
  · rw [hspaced', codeMatches_append, mark_spaced, hfront, ← List.append_assoc, codeMatches_shift]

end CommentPlace

end FirmwareCatalog.Header
