import FirmwareCatalog.Proofs.Text.Lossy

/-!
# Cutting bytes

Where bytes are cut and each part is decoded on its own, the same text comes out
unless the cut stands inside a character, or inside the beginning of one. Such a
cut leaves a mark on each of its sides, so it always makes the text longer.
-/

namespace FirmwareCatalog.Utf8

def stateAfter : Option Pending → Bytes → Option Pending
  | state, [] => state
  | none, b :: bs =>
    match lead b with
    | .pending p => stateAfter (some p) bs
    | _ => stateAfter none bs
  | some p, b :: bs =>
    if p.low ≤ b.toNat ∧ b.toNat ≤ p.high then
      match p.push b with
      | .inl _ => stateAfter none bs
      | .inr p => stateAfter (some p) bs
    else
      match lead b with
      | .pending p => stateAfter (some p) bs
      | _ => stateAfter none bs

/-- The rest goes on with a character that is begun. -/
def CutsCharacter (front behind : Bytes) : Prop :=
  ∃ p ∈ stateAfter none front, ∃ b ∈ behind.head?, p.low ≤ b.toNat ∧ b.toNat ≤ p.high

theorem stateAfter_append : ∀ (a b : Bytes) (state : Option Pending),
    stateAfter state (a ++ b) = stateAfter (stateAfter state a) b
  | [], _, state => by cases state <;> rfl
  | c :: a, b, none => by
    simp only [List.cons_append, stateAfter]
    cases lead c <;> exact stateAfter_append a b _
  | c :: a, b, some p => by
    simp only [List.cons_append, stateAfter]
    split
    · cases p.push c <;> exact stateAfter_append a b _
    · cases lead c <;> exact stateAfter_append a b _

theorem stateAfter_sound : ∀ (bs : Bytes) {state : Option Pending}, (∀ p ∈ state, p.Sound) →
    ∀ p ∈ stateAfter state bs, p.Sound
  | [], state, h => by cases state <;> exact h
  | b :: bs, none, _ => by
    simp only [stateAfter]
    cases hlead : lead b with
    | char c => exact stateAfter_sound bs (by simp)
    | invalid => exact stateAfter_sound bs (by simp)
    | pending p => exact stateAfter_sound bs (by rintro q ⟨⟩; exact lead_sound hlead)
  | b :: bs, some p, _ => by
    simp only [stateAfter]
    split
    · cases hpush : p.push b with
      | inl c => exact stateAfter_sound bs (by simp)
      | inr q => exact stateAfter_sound bs (by rintro r ⟨⟩; exact push_sound hpush)
    · cases hlead : lead b with
      | char c => exact stateAfter_sound bs (by simp)
      | invalid => exact stateAfter_sound bs (by simp)
      | pending q => exact stateAfter_sound bs (by rintro r ⟨⟩; exact lead_sound hlead)

/-- What has been decoded stays, up to the mark for a character that is begun. -/
theorem exists_decodeFrom_append (behind : Bytes) : ∀ (front : Bytes) (state : Option Pending), ∃ decoded,
    decodeFrom state front = decoded ++ decodeFrom (stateAfter state front) [] ∧
      decodeFrom state (front ++ behind) = decoded ++ decodeFrom (stateAfter state front) behind
  | [], state => ⟨[], by cases state <;> exact ⟨rfl, rfl⟩⟩
  | b :: front, none => by
    simp only [List.cons_append, decodeFrom, stateAfter]
    cases lead b with
    | char c =>
      obtain ⟨decoded, hfront, hwhole⟩ := exists_decodeFrom_append behind front none
      exact ⟨some c :: decoded, by rw [hfront]; rfl, by rw [hwhole]; rfl⟩
    | pending p => exact exists_decodeFrom_append behind front (some p)
    | invalid =>
      obtain ⟨decoded, hfront, hwhole⟩ := exists_decodeFrom_append behind front none
      exact ⟨none :: decoded, by rw [hfront]; rfl, by rw [hwhole]; rfl⟩
  | b :: front, some p => by
    obtain ⟨decoded, hfront, hwhole⟩ := exists_decodeFrom_append behind front none
    simp only [List.cons_append, decodeFrom, stateAfter]
    split
    · cases p.push b with
      | inl c => exact ⟨some c :: decoded, by rw [hfront]; rfl, by rw [hwhole]; rfl⟩
      | inr q => exact exists_decodeFrom_append behind front (some q)
    · cases lead b with
      | char c => exact ⟨none :: some c :: decoded, by rw [hfront]; rfl, by rw [hwhole]; rfl⟩
      | pending q =>
        obtain ⟨decoded, hfront, hwhole⟩ := exists_decodeFrom_append behind front (some q)
        exact ⟨none :: decoded, congrArg (none :: ·) hfront, congrArg (none :: ·) hwhole⟩
      | invalid => exact ⟨none :: none :: decoded, by rw [hfront]; rfl, by rw [hwhole]; rfl⟩

/-! ## Going on with a character -/

theorem lead_of_continuation {b : UInt8} (h : IsContinuation b) : lead b = .invalid := by
  have hlow := h.1
  have hhigh := h.2
  simp only [lead]
  rw [if_neg (by omega), if_pos (by omega)]

theorem Pending.Sound.continuation {p : Pending} (h : p.Sound) {b : UInt8}
    (hrange : p.low ≤ b.toNat ∧ b.toNat ≤ p.high) : IsContinuation b := by
  unfold Pending.Sound at h
  unfold IsContinuation
  omega

theorem decodeFrom_continuation {b : UInt8} (h : IsContinuation b) (bs : Bytes) :
    decodeFrom none (b :: bs) = none :: decodeFrom none bs := by
  rw [decodeFrom, lead_of_continuation h]

theorem decodeFrom_outside {p : Pending} {b : UInt8} (h : ¬ (p.low ≤ b.toNat ∧ b.toNat ≤ p.high)) (bs : Bytes) :
    decodeFrom (some p) (b :: bs) = none :: decodeFrom none (b :: bs) := by
  simp only [decodeFrom, if_neg h]

theorem length_decodeFrom_some : ∀ (bs : Bytes) {p : Pending}, p.Sound →
    (decodeFrom (some p) bs).length ≤ 1 + (decodeFrom none bs).length
  | [], p, _ => by simp [decodeFrom]
  | b :: bs, p, hp => by
    by_cases hrange : p.low ≤ b.toNat ∧ b.toNat ≤ p.high
    · rw [decodeFrom_continuation (hp.continuation hrange), decodeFrom, if_pos hrange]
      cases hpush : p.push b with
      | inl c => simp
      | inr q =>
        have ih := length_decodeFrom_some bs (push_sound hpush)
        simp only [List.length_cons]
        omega
    · rw [decodeFrom_outside hrange]
      simp only [List.length_cons]
      omega

theorem length_decodeFrom_inside {p : Pending} (hp : p.Sound) {b : UInt8}
    (hrange : p.low ≤ b.toNat ∧ b.toNat ≤ p.high)
    (bs : Bytes) : (decodeFrom (some p) (b :: bs)).length < 1 + (decodeFrom none (b :: bs)).length := by
  rw [decodeFrom_continuation (hp.continuation hrange), decodeFrom, if_pos hrange]
  cases hpush : p.push b with
  | inl c =>
    simp only [List.length_cons]
    omega
  | inr q =>
    have hlength := length_decodeFrom_some bs (push_sound hpush)
    simp only [List.length_cons]
    omega

/-! ## Two parts -/

theorem decodeLossy_append_of_not_cuts {front behind : Bytes} (h : ¬ CutsCharacter front behind) :
    decodeLossy (front ++ behind) = decodeLossy front ++ decodeLossy behind := by
  obtain ⟨decoded, hfront, hwhole⟩ := exists_decodeFrom_append behind front none
  suffices decodeFrom (stateAfter none front) behind =
      decodeFrom (stateAfter none front) [] ++ decodeFrom none behind by
    unfold decodeLossy
    rw [hwhole, hfront, this]
    simp
  cases hstate : stateAfter none front with
  | none => rfl
  | some p =>
    cases behind with
    | nil => rfl
    | cons b behind =>
      have hrange : ¬ (p.low ≤ b.toNat ∧ b.toNat ≤ p.high) := fun hrange => h ⟨p, hstate, b, rfl, hrange⟩
      exact decodeFrom_outside hrange behind

theorem length_decodeLossy_of_cuts {front behind : Bytes} (h : CutsCharacter front behind) :
    (decodeLossy (front ++ behind)).length < (decodeLossy front).length + (decodeLossy behind).length := by
  obtain ⟨decoded, hfront, hwhole⟩ := exists_decodeFrom_append behind front none
  obtain ⟨p, hp, b, hb, hrange⟩ := h
  obtain ⟨rest, rfl⟩ := List.head?_eq_some_iff.mp hb
  have hsound := stateAfter_sound front (by simp) p hp
  rw [Option.mem_def.mp hp] at hfront hwhole
  have hlength := length_decodeFrom_inside hsound hrange rest
  have hmark : decodeFrom (some p) [] = [none] := rfl
  simp only [decodeLossy, List.length_map, hfront, hwhole, hmark, List.length_append, List.length_singleton]
  omega

theorem length_decodeLossy_append (front behind : Bytes) :
    (decodeLossy (front ++ behind)).length ≤ (decodeLossy front).length + (decodeLossy behind).length := by
  by_cases h : CutsCharacter front behind
  · exact (length_decodeLossy_of_cuts h).le
  · rw [decodeLossy_append_of_not_cuts h, List.length_append]

theorem decodeLossy_append_iff (front behind : Bytes) :
    decodeLossy (front ++ behind) = decodeLossy front ++ decodeLossy behind ↔ ¬ CutsCharacter front behind := by
  refine ⟨?_, decodeLossy_append_of_not_cuts⟩
  intro heq hcuts
  have hlength := length_decodeLossy_of_cuts hcuts
  rw [heq, List.length_append] at hlength
  omega

theorem not_cuts_nil (behind : Bytes) : ¬ CutsCharacter [] behind := by
  rintro ⟨p, hp, -⟩
  cases hp

theorem not_cuts_encode (text : List Char) (behind : Bytes) : ¬ CutsCharacter (encode text) behind := by
  rw [← decodeLossy_append_iff, decodeLossy_encode_append, decodeLossy_encode]

/-! ## Many parts -/

theorem cuts_append_iff {first front behind : Bytes} (hfirst : ¬ CutsCharacter first (front ++ behind))
    (hne : front ≠ []) : CutsCharacter (first ++ front) behind ↔ CutsCharacter front behind := by
  have hstate : stateAfter none (first ++ front) = stateAfter none front := by
    rw [stateAfter_append]
    cases hstate : stateAfter none first with
    | none => rfl
    | some p =>
      obtain ⟨b, rest, rfl⟩ := List.exists_cons_of_ne_nil hne
      have hrange : ¬ (p.low ≤ b.toNat ∧ b.toNat ≤ p.high) := fun hrange =>
        hfirst ⟨p, hstate, b, rfl, hrange⟩
      simp only [stateAfter, if_neg hrange]
  unfold CutsCharacter
  rw [hstate]

theorem length_decodeLossy_flatten (parts : List Bytes) :
    (decodeLossy parts.flatten).length ≤ (parts.flatMap decodeLossy).length := by
  induction parts with
  | nil => exact Nat.le_refl _
  | cons first parts ih =>
    have hlength := length_decodeLossy_append first parts.flatten
    rw [List.flatten_cons, List.flatMap_cons, List.length_append]
    omega

theorem decodeLossy_flatten_cons_iff (first : Bytes) (parts : List Bytes) :
    decodeLossy (first :: parts).flatten = (first :: parts).flatMap decodeLossy ↔
      ¬ CutsCharacter first parts.flatten ∧ decodeLossy parts.flatten = parts.flatMap decodeLossy := by
  rw [List.flatten_cons, List.flatMap_cons]
  constructor
  · intro heq
    have hwhole := congrArg List.length heq
    rw [List.length_append] at hwhole
    have hparts := length_decodeLossy_flatten parts
    -- a cut makes the text longer, and no later part makes up for it
    have hnot : ¬ CutsCharacter first parts.flatten := by
      intro hcuts
      have hlength := length_decodeLossy_of_cuts hcuts
      omega
    rw [decodeLossy_append_of_not_cuts hnot] at heq
    exact ⟨hnot, List.append_cancel_left heq⟩
  · rintro ⟨hnot, heq⟩
    rw [decodeLossy_append_of_not_cuts hnot, heq]

theorem not_cuts_cons_iff {first : Bytes} {front behind : List Bytes}
    (hfirst : ¬ CutsCharacter first (front ++ behind).flatten) :
    ¬ CutsCharacter (first :: front).flatten behind.flatten ↔ ¬ CutsCharacter front.flatten behind.flatten := by
  rw [List.flatten_append] at hfirst
  rw [List.flatten_cons]
  by_cases hempty : front.flatten = []
  · rw [hempty, List.nil_append] at hfirst
    rw [hempty, List.append_nil]
    exact iff_of_true hfirst (not_cuts_nil _)
  · rw [cuts_append_iff hfirst hempty]

/-- Parts decode to the text of the whole exactly if no cut between them stands inside a character. -/
theorem decodeLossy_flatten_iff (parts : List Bytes) :
    decodeLossy parts.flatten = parts.flatMap decodeLossy ↔
      ∀ front behind, parts = front ++ behind → ¬ CutsCharacter front.flatten behind.flatten := by
  induction parts with
  | nil =>
    constructor
    · intro _ front behind hsplit
      obtain ⟨rfl, rfl⟩ := List.append_eq_nil_iff.mp hsplit.symm
      exact not_cuts_nil _
    · exact fun _ => rfl
  | cons first parts ih =>
    rw [decodeLossy_flatten_cons_iff, ih]
    constructor
    · rintro ⟨hfirst, hrest⟩ front behind hsplit
      cases front with
      | nil => exact not_cuts_nil _
      | cons first' front =>
        obtain ⟨rfl, rfl⟩ := List.cons.inj hsplit
        exact (not_cuts_cons_iff hfirst).mpr (hrest front behind rfl)
    · intro h
      have hfirst : ¬ CutsCharacter first parts.flatten := by simpa using h [first] parts rfl
      refine ⟨hfirst, ?_⟩
      rintro front behind rfl
      exact (not_cuts_cons_iff hfirst).mp (h (first :: front) behind rfl)

end FirmwareCatalog.Utf8
