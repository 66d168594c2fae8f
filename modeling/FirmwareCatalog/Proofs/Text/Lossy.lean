import FirmwareCatalog.Proofs.Text.Utf8

/-!
# Decoding bytes that are no text

A character is decoded from its own bytes only, and decoding starts afresh at
every byte that is none inside a character. So decoded bytes can be cut at every
character and every mark, and a text without U+FFFD stands in the lossily decoded
bytes exactly where its own bytes stand.
-/

namespace FirmwareCatalog.Utf8

/-! ## One character -/

theorem lead_cases (b : UInt8) :
    (b.toNat < 0x80 ∧ lead b = .char (Char.ofNat b.toNat)) ∨
      (∃ v, 2 ≤ v ∧ v < 32 ∧ b = UInt8.ofNat (v + 0xC0) ∧ lead b = .pending ⟨v, 0, 0x80, 0xBF⟩) ∨
      (∃ v < 16, b = UInt8.ofNat (v + 0xE0)) ∨ (∃ v < 5, b = UInt8.ofNat (v + 0xF0)) ∨
      (0x80 ≤ b.toNat ∧ lead b = .invalid) := by
  have hb := b.toNat_lt
  have hof (n v : Nat) (h : b.toNat = v + n) : b = UInt8.ofNat (v + n) := by
    rw [← h, UInt8.ofNat_toNat]
  by_cases h1 : b.toNat < 0x80
  · exact .inl ⟨h1, by simp only [lead, if_pos h1]⟩
  by_cases h2 : b.toNat < 0xC2
  · refine .inr (.inr (.inr (.inr ⟨by omega, ?_⟩)))
    simp only [lead, if_neg h1, if_pos h2]
  by_cases h3 : b.toNat < 0xE0
  · refine .inr (.inl ⟨b.toNat - 0xC0, by omega, by omega, hof _ _ (by omega), ?_⟩)
    simp only [lead, if_neg h1, if_neg h2, if_pos h3]
  by_cases h4 : b.toNat < 0xF0
  · exact .inr (.inr (.inl ⟨b.toNat - 0xE0, by omega, hof _ _ (by omega)⟩))
  by_cases h5 : b.toNat < 0xF5
  · exact .inr (.inr (.inr (.inl ⟨b.toNat - 0xF0, by omega, hof _ _ (by omega)⟩)))
  · refine .inr (.inr (.inr (.inr ⟨by omega, ?_⟩)))
    simp only [lead]
    rw [if_neg h1, if_neg h2, if_neg h3, if_neg (by omega), if_neg (by omega), if_neg h4,
      if_neg (by omega), if_neg (by omega), if_neg (by omega)]

theorem exists_of_decodeFrom_last {p : Pending} (hmore : p.more = 0) {bs : Bytes} {c : Char}
    {cs : List (Option Char)} (h : decodeFrom (some p) bs = some c :: cs) :
    ∃ n rest, bs = UInt8.ofNat n :: rest ∧ n < 256 ∧ p.low ≤ n ∧ n ≤ p.high ∧
      c = Char.ofNat (p.code * 64 + (n - 0x80)) ∧ decodeFrom none rest = cs := by
  cases bs with
  | nil => simp [decodeFrom] at h
  | cons b rest =>
    simp only [decodeFrom] at h
    split at h
    · rename_i hrange
      simp only [Pending.push, hmore, List.cons.injEq, Option.some.injEq] at h
      exact ⟨b.toNat, rest, by rw [UInt8.ofNat_toNat], b.toNat_lt, hrange.1, hrange.2, h.1.symm, h.2⟩
    · simp at h

theorem exists_of_decodeFrom_inner {p : Pending} {more : Nat} (hmore : p.more = more + 1) {bs : Bytes}
    {c : Char} {cs : List (Option Char)} (h : decodeFrom (some p) bs = some c :: cs) :
    ∃ n rest, bs = UInt8.ofNat n :: rest ∧ n < 256 ∧ p.low ≤ n ∧ n ≤ p.high ∧
      decodeFrom (some ⟨p.code * 64 + (n - 0x80), more, 0x80, 0xBF⟩) rest = some c :: cs := by
  cases bs with
  | nil => simp [decodeFrom] at h
  | cons b rest =>
    simp only [decodeFrom] at h
    split at h
    · rename_i hrange
      simp only [Pending.push, hmore] at h
      exact ⟨b.toNat, rest, by rw [UInt8.ofNat_toNat], b.toNat_lt, hrange.1, hrange.2, h⟩
    · simp at h

theorem toNat_ofNat_char {n : Nat} (h : n < 0xD800 ∨ (0xDFFF < n ∧ n < 0x110000)) :
    (Char.ofNat n).toNat = n := by
  have hv : n.isValidChar := h
  rw [Char.ofNat, dif_pos hv]
  rfl

theorem encodeChar_two {v n : Nat} (hv : 2 ≤ v) (hv' : v < 32) (hn : 0x80 ≤ n) (hn' : n ≤ 0xBF) :
    String.utf8EncodeChar (Char.ofNat (v * 64 + (n - 0x80))) =
      [UInt8.ofNat (v + 0xC0), UInt8.ofNat n] := by
  have hc := toNat_ofNat_char (n := v * 64 + (n - 0x80)) (by omega)
  unfold String.utf8EncodeChar
  simp only [show ∀ c : Char, c.val.toNat = c.toNat from fun _ => rfl, hc]
  rw [if_neg (by omega), if_pos (by omega),
    show (v * 64 + (n - 0x80)) / 64 % 32 + 192 = v + 0xC0 by omega,
    show (v * 64 + (n - 0x80)) % 64 + 128 = n by omega]

theorem encodeChar_three {v n m : Nat} (hv : v < 16) (hn : (if v = 0 then 0xA0 else 0x80) ≤ n)
    (hn' : n ≤ if v = 13 then 0x9F else 0xBF) (hm : 0x80 ≤ m) (hm' : m ≤ 0xBF) :
    String.utf8EncodeChar (Char.ofNat ((v * 64 + (n - 0x80)) * 64 + (m - 0x80))) =
      [UInt8.ofNat (v + 0xE0), UInt8.ofNat n, UInt8.ofNat m] := by
  have hlow : 0x80 ≤ n ∧ (v = 0 → 0xA0 ≤ n) := by split at hn <;> omega
  have hhigh : n ≤ 0xBF ∧ (v = 13 → n ≤ 0x9F) := by split at hn' <;> omega
  have hc := toNat_ofNat_char (n := (v * 64 + (n - 0x80)) * 64 + (m - 0x80)) (by omega)
  unfold String.utf8EncodeChar
  simp only [show ∀ c : Char, c.val.toNat = c.toNat from fun _ => rfl, hc]
  rw [if_neg (by omega), if_neg (by omega), if_pos (by omega),
    show ((v * 64 + (n - 0x80)) * 64 + (m - 0x80)) / 4096 % 16 + 224 = v + 0xE0 by omega,
    show ((v * 64 + (n - 0x80)) * 64 + (m - 0x80)) / 64 % 64 + 128 = n by omega,
    show ((v * 64 + (n - 0x80)) * 64 + (m - 0x80)) % 64 + 128 = m by omega]

theorem encodeChar_four {v n m k : Nat} (hv : v < 5) (hn : (if v = 0 then 0x90 else 0x80) ≤ n)
    (hn' : n ≤ if v = 4 then 0x8F else 0xBF) (hm : 0x80 ≤ m) (hm' : m ≤ 0xBF) (hk : 0x80 ≤ k)
    (hk' : k ≤ 0xBF) :
    String.utf8EncodeChar
        (Char.ofNat (((v * 64 + (n - 0x80)) * 64 + (m - 0x80)) * 64 + (k - 0x80))) =
      [UInt8.ofNat (v + 0xF0), UInt8.ofNat n, UInt8.ofNat m, UInt8.ofNat k] := by
  have hlow : 0x80 ≤ n ∧ (v = 0 → 0x90 ≤ n) := by split at hn <;> omega
  have hhigh : n ≤ 0xBF ∧ (v = 4 → n ≤ 0x8F) := by split at hn' <;> omega
  have hc := toNat_ofNat_char (n := ((v * 64 + (n - 0x80)) * 64 + (m - 0x80)) * 64 + (k - 0x80))
    (by omega)
  unfold String.utf8EncodeChar
  simp only [show ∀ c : Char, c.val.toNat = c.toNat from fun _ => rfl, hc]
  rw [if_neg (by omega), if_neg (by omega), if_neg (by omega),
    show (((v * 64 + (n - 0x80)) * 64 + (m - 0x80)) * 64 + (k - 0x80)) / 262144 % 8 + 240 =
      v + 0xF0 by omega,
    show (((v * 64 + (n - 0x80)) * 64 + (m - 0x80)) * 64 + (k - 0x80)) / 4096 % 64 + 128 = n by omega,
    show (((v * 64 + (n - 0x80)) * 64 + (m - 0x80)) * 64 + (k - 0x80)) / 64 % 64 + 128 = m by omega,
    show (((v * 64 + (n - 0x80)) * 64 + (m - 0x80)) * 64 + (k - 0x80)) % 64 + 128 = k by omega]

theorem exists_of_decodeFrom_char {bs : Bytes} {c : Char} {cs : List (Option Char)}
    (h : decodeFrom none bs = some c :: cs) :
    ∃ rest, bs = String.utf8EncodeChar c ++ rest ∧ decodeFrom none rest = cs := by
  cases bs with
  | nil => simp [decodeFrom] at h
  | cons b bs =>
    rcases lead_cases b with ⟨hb, hlead⟩ | ⟨v, hv, hv', rfl, hlead⟩ | ⟨v, hv, rfl⟩ | ⟨v, hv, rfl⟩ |
      ⟨-, hlead⟩
    · simp only [decodeFrom, hlead, List.cons.injEq, Option.some.injEq] at h
      obtain ⟨rfl, hrest⟩ := h
      refine ⟨bs, ?_, hrest⟩
      unfold String.utf8EncodeChar
      have hc := toNat_ofNat_char (n := b.toNat) (by omega)
      simp only [show ∀ c : Char, c.val.toNat = c.toNat from fun _ => rfl, hc]
      rw [if_pos (by omega), UInt8.ofNat_toNat]
      rfl
    · rw [decodeFrom_pending hlead] at h
      obtain ⟨n, rest, rfl, -, hn, hn', hc, hrest⟩ := exists_of_decodeFrom_last rfl h
      refine ⟨rest, ?_, hrest⟩
      simp only [hc, encodeChar_two hv hv' hn hn', List.cons_append, List.nil_append]
    · rw [decodeFrom_pending (lead_three hv)] at h
      obtain ⟨n, rest, rfl, -, hn, hn', h⟩ := exists_of_decodeFrom_inner rfl h
      obtain ⟨m, rest, rfl, -, hm, hm', hc, hrest⟩ := exists_of_decodeFrom_last rfl h
      refine ⟨rest, ?_, hrest⟩
      simp only [hc, encodeChar_three hv hn hn' hm hm', List.cons_append, List.nil_append]
    · rw [decodeFrom_pending (lead_four hv)] at h
      obtain ⟨n, rest, rfl, -, hn, hn', h⟩ := exists_of_decodeFrom_inner rfl h
      obtain ⟨m, rest, rfl, -, hm, hm', h⟩ := exists_of_decodeFrom_inner rfl h
      obtain ⟨k, rest, rfl, -, hk, hk', hc, hrest⟩ := exists_of_decodeFrom_last rfl h
      refine ⟨rest, ?_, hrest⟩
      simp only [hc, encodeChar_four hv hn hn' hm hm' hk hk', List.cons_append, List.nil_append]
    · simp [decodeFrom, hlead] at h

theorem exists_of_decodeFrom_chars {text : List Char} : ∀ {bs : Bytes} {cs : List (Option Char)},
    decodeFrom none bs = text.map some ++ cs →
    ∃ rest, bs = encode text ++ rest ∧ decodeFrom none rest = cs := by
  induction text with
  | nil => exact fun h => ⟨_, rfl, h⟩
  | cons c text ih =>
    intro bs cs h
    rw [List.map_cons, List.cons_append] at h
    obtain ⟨behind, rfl, hbehind⟩ := exists_of_decodeFrom_char h
    obtain ⟨rest, rfl, hrest⟩ := ih hbehind
    exact ⟨rest, by rw [encode_cons, List.append_assoc], hrest⟩

/-! ## Cuts -/

/-- A state that waits for bytes inside a character only. -/
def Pending.Sound (p : Pending) : Prop := 0x80 ≤ p.low ∧ p.high < 0xC0

theorem lead_sound {b : UInt8} {p : Pending} (h : lead b = .pending p) : p.Sound := by
  rcases lead_cases b with ⟨-, hlead⟩ | ⟨v, -, -, -, hlead⟩ | ⟨v, hv, rfl⟩ | ⟨v, hv, rfl⟩ |
    ⟨-, hlead⟩
  · rw [hlead] at h
    cases h
  · rw [hlead] at h
    cases h
    exact ⟨by simp, by simp⟩
  · rw [lead_three hv] at h
    cases h
    constructor <;> simp only <;> split <;> omega
  · rw [lead_four hv] at h
    cases h
    constructor <;> simp only <;> split <;> omega
  · rw [hlead] at h
    cases h

theorem push_sound {p q : Pending} {b : UInt8} (h : p.push b = .inr q) : q.Sound := by
  unfold Pending.push at h
  split at h
  · simp at h
  · simp only [Sum.inr.injEq] at h
    subst h
    exact ⟨by simp, by simp⟩

/-- Where a byte follows that is none inside a character, decoding starts afresh. -/
theorem decodeFrom_append {tail : Bytes} (htail : ∀ b ∈ tail.head?, ¬ IsContinuation b) :
    ∀ (bs : Bytes) (state : Option Pending), (∀ p ∈ state, p.Sound) →
      decodeFrom state (bs ++ tail) = decodeFrom state bs ++ decodeFrom none tail
  | [], none, _ => rfl
  | [], some p, hp => by
    cases tail with
    | nil => rfl
    | cons b tail =>
      have hb := htail b rfl
      have hsound := hp p rfl
      have hrange : ¬ (p.low ≤ b.toNat ∧ b.toNat ≤ p.high) := by
        intro hrange
        apply hb
        unfold IsContinuation
        unfold Pending.Sound at hsound
        omega
      simp only [List.nil_append, decodeFrom, if_neg hrange, List.cons_append]
  | b :: bs, none, _ => by
    simp only [List.cons_append, decodeFrom]
    cases hlead : lead b with
    | char c => simp only [decodeFrom_append htail bs none (by simp), List.cons_append]
    | pending p =>
      exact decodeFrom_append htail bs (some p) (by rintro q ⟨⟩; exact lead_sound hlead)
    | invalid => simp only [decodeFrom_append htail bs none (by simp), List.cons_append]
  | b :: bs, some p, hp => by
    -- a byte out of range ends the character at hand with a mark and is then read as a first byte
    have hnone := decodeFrom_append htail bs none (by simp)
    simp only [List.cons_append, decodeFrom]
    split
    · cases hpush : p.push b with
      | inl c => simp only [hnone, List.cons_append]
      | inr q => exact decodeFrom_append htail bs (some q) (by rintro r ⟨⟩; exact push_sound hpush)
    · cases hlead : lead b with
      | char c => simp only [hnone, List.cons_append]
      | pending q =>
        simp only [List.cons_append]
        rw [decodeFrom_append htail bs (some q) (by rintro r ⟨⟩; exact lead_sound hlead)]
      | invalid => simp only [hnone, List.cons_append]

/-- Wherever decoded characters and marks are cut, the bytes can be; within a character only behind it. -/
def Cuts (state : Option Pending) (bs : Bytes) : Prop :=
  ∀ left right, (state = none ∨ left ≠ []) → decodeFrom state bs = left ++ right →
    ∃ a b, bs = a ++ b ∧ decodeFrom state a = left ∧ decodeFrom none b = right

theorem cuts_nil (state : Option Pending) : Cuts state [] := by
  intro left right hstate h
  cases state with
  | none =>
    obtain ⟨rfl, rfl⟩ := List.append_eq_nil_iff.mp h.symm
    exact ⟨[], [], rfl, rfl, rfl⟩
  | some p =>
    cases left with
    | nil => simp at hstate
    | cons x left =>
      simp only [decodeFrom, List.cons_append, List.cons.injEq] at h
      obtain ⟨rfl, h⟩ := h
      obtain ⟨rfl, rfl⟩ := List.append_eq_nil_iff.mp h.symm
      exact ⟨[], [], rfl, rfl, rfl⟩

theorem Cuts.cons {state : Option Pending} {b : UInt8} {bs : Bytes} {x : Option Char}
    (hstep : ∀ bs, decodeFrom state (b :: bs) = x :: decodeFrom none bs) (h : Cuts none bs) :
    ∀ {left right}, left ≠ [] → decodeFrom state (b :: bs) = left ++ right →
      ∃ a c, b :: bs = a ++ c ∧ decodeFrom state a = left ∧ decodeFrom none c = right := by
  intro left right hleft heq
  obtain ⟨y, left, rfl⟩ := List.exists_cons_of_ne_nil hleft
  rw [hstep, List.cons_append, List.cons.injEq] at heq
  obtain ⟨a, c, rfl, ha, hc⟩ := h left right (.inl rfl) heq.2
  exact ⟨b :: a, c, rfl, by rw [hstep, ha, heq.1], hc⟩

theorem Cuts.wait {state : Option Pending} {p : Pending} {b : UInt8} {bs : Bytes}
    (hstep : ∀ bs, decodeFrom state (b :: bs) = decodeFrom (some p) bs) (h : Cuts (some p) bs) :
    ∀ {left right}, left ≠ [] → decodeFrom state (b :: bs) = left ++ right →
      ∃ a c, b :: bs = a ++ c ∧ decodeFrom state a = left ∧ decodeFrom none c = right := by
  intro left right hleft heq
  rw [hstep] at heq
  obtain ⟨a, c, rfl, ha, hc⟩ := h left right (.inr hleft) heq
  exact ⟨b :: a, c, rfl, by rw [hstep, ha], hc⟩

theorem cuts_none {b : UInt8} {bs : Bytes} (h : ∀ state, Cuts state bs) : Cuts none (b :: bs) := by
  intro left right _ heq
  by_cases hleft : left = []
  · subst hleft
    exact ⟨[], b :: bs, rfl, rfl, heq⟩
  · cases hlead : lead b with
    | char c => exact (h none).cons (x := some c) (by simp [decodeFrom, hlead]) hleft heq
    | pending p => exact (h (some p)).wait (by simp [decodeFrom, hlead]) hleft heq
    | invalid => exact (h none).cons (x := none) (by simp [decodeFrom, hlead]) hleft heq

theorem cuts : ∀ (bs : Bytes) (state : Option Pending), Cuts state bs
  | [], state => cuts_nil state
  | b :: bs, none => cuts_none (cuts bs)
  | b :: bs, some p => by
    intro left right hstate heq
    have hleft : left ≠ [] := by simpa using hstate
    by_cases hrange : p.low ≤ b.toNat ∧ b.toNat ≤ p.high
    · cases hpush : p.push b with
      | inl c => exact (cuts bs none).cons (x := some c) (by simp [decodeFrom, hrange, hpush]) hleft heq
      | inr q => exact (cuts bs (some q)).wait (by simp [decodeFrom, hrange, hpush]) hleft heq
    · -- the byte marks what waits as invalid and is read again from the start
      have hstep (bs : Bytes) : decodeFrom (some p) (b :: bs) = none :: decodeFrom none (b :: bs) := by
        simp only [decodeFrom, if_neg hrange]
      obtain ⟨y, left, rfl⟩ := List.exists_cons_of_ne_nil hleft
      rw [hstep, List.cons_append, List.cons.injEq] at heq
      obtain ⟨rfl, heq⟩ := heq
      obtain ⟨a, c, hac, ha, hc⟩ := cuts_none (cuts bs) left right (.inl rfl) heq
      cases a with
      | nil =>
        subst ha
        exact ⟨[], b :: bs, rfl, rfl, by rw [hac]; exact hc⟩
      | cons b' a =>
        rw [List.cons_append, List.cons.injEq] at hac
        obtain ⟨rfl, rfl⟩ := hac
        exact ⟨b :: a, c, rfl, by rw [hstep, ha], hc⟩

/-! ## Texts in lossily decoded bytes -/

theorem decodeLossy_append {tail : Bytes} (htail : ∀ b ∈ tail.head?, ¬ IsContinuation b) (bs : Bytes) :
    decodeLossy (bs ++ tail) = decodeLossy bs ++ decodeLossy tail := by
  unfold decodeLossy
  rw [decodeFrom_append htail bs none (by simp), List.map_append]

theorem decodeLossy_encode_append (cs : List Char) (bs : Bytes) :
    decodeLossy (encode cs ++ bs) = cs ++ decodeLossy bs := by
  unfold decodeLossy
  rw [decodeFrom_encode_append, List.map_append, List.map_map]
  exact congrArg (· ++ _) (List.map_id cs)

/-- A text without U+FFFD is decoded from its own bytes. -/
theorem exists_of_decodeLossy {needle : List Char} (hneedle : Char.ofNat 0xFFFD ∉ needle) {bs : Bytes}
    {left right : List Char} (h : decodeLossy bs = left ++ (needle ++ right)) :
    ∃ a b, bs = a ++ (encode needle ++ b) ∧ decodeLossy a = left ∧ decodeLossy b = right := by
  unfold decodeLossy at h
  obtain ⟨xs, rest, hbs, rfl, hrest⟩ := List.map_eq_append_iff.mp h
  obtain ⟨ys, zs, rfl, hneedle', rfl⟩ := List.map_eq_append_iff.mp hrest
  have hys : ys = needle.map some := by
    subst hneedle'
    rw [List.map_map]
    refine (List.map_id ys).symm.trans (List.map_congr_left fun y hy => ?_)
    cases y with
    | none => exact absurd (List.mem_map.mpr ⟨none, hy, rfl⟩) hneedle
    | some c => rfl
  subst hys
  obtain ⟨a, behind, rfl, rfl, hbehind⟩ := cuts bs none xs _ (.inl rfl) hbs
  obtain ⟨b, rfl, rfl⟩ := exists_of_decodeFrom_chars hbehind
  exact ⟨a, b, rfl, rfl, rfl⟩

theorem decodeFrom_eq_nil : ∀ {bs : Bytes} {state : Option Pending},
    decodeFrom state bs = [] → state = none ∧ bs = []
  | [], none, _ => ⟨rfl, rfl⟩
  | [], some p, h => by simp [decodeFrom] at h
  | b :: bs, none, h => by
    simp only [decodeFrom] at h
    cases hlead : lead b with
    | char c => simp [hlead] at h
    | pending p =>
      rw [hlead] at h
      cases (decodeFrom_eq_nil h).1
    | invalid => simp [hlead] at h
  | b :: bs, some p, h => by
    simp only [decodeFrom] at h
    split at h
    · cases hpush : p.push b with
      | inl c => simp [hpush] at h
      | inr q =>
        rw [hpush] at h
        cases (decodeFrom_eq_nil h).1
    · cases h

theorem decodeLossy_eq_nil {bs : Bytes} (h : decodeLossy bs = []) : bs = [] :=
  (decodeFrom_eq_nil (List.map_eq_nil_iff.mp h)).2

end FirmwareCatalog.Utf8
