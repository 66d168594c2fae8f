import FirmwareCatalog.Text.Utf8
import Mathlib.Tactic.IntervalCases
import Mathlib.Tactic.SplitIfs

/-!
# UTF-8 round trip

Decoding is a left inverse of encoding, also in front of other bytes, so the
code is prefix-free. The bytes of a text can be cut only between characters,
unless the cut stands before a continuation byte.
-/

namespace FirmwareCatalog.Utf8

/-! ## Decoding one character -/

theorem toNat_byte {n : Nat} (h : n < 256) : (UInt8.ofNat n).toNat = n := by
  rw [UInt8.toNat_ofNat', Nat.mod_eq_of_lt h]

theorem decodeFrom_last {p : Pending} {n : Nat} {c : Char} (hmore : p.more = 0) (hlow : p.low ≤ n)
    (hhigh : n ≤ p.high)
    (hbyte : n < 256) (hc : p.code * 64 + (n - 0x80) = c.toNat) (bs : Bytes) :
    decodeFrom (some p) (UInt8.ofNat n :: bs) = some c :: decodeFrom none bs := by
  simp only [decodeFrom, toNat_byte hbyte, hlow, hhigh, and_self, if_true, Pending.push, hmore, hc]
  rw [Char.ofNat_toNat]

theorem decodeFrom_inner {p : Pending} {n more : Nat} (hmore : p.more = more + 1) (hlow : p.low ≤ n)
    (hhigh : n ≤ p.high)
    (hbyte : n < 256) (bs : Bytes) :
    decodeFrom (some p) (UInt8.ofNat n :: bs) =
      decodeFrom (some ⟨p.code * 64 + (n - 0x80), more, 0x80, 0xBF⟩) bs := by
  simp only [decodeFrom, toNat_byte hbyte, hlow, hhigh, and_self, if_true, Pending.push, hmore]

theorem decodeFrom_pending {n : Nat} {p : Pending} (h : lead (UInt8.ofNat n) = .pending p)
    (bs : Bytes) :
    decodeFrom none (UInt8.ofNat n :: bs) = decodeFrom (some p) bs := by
  simp only [decodeFrom, h]

theorem lead_three {v : Nat} (h : v < 16) :
    lead (UInt8.ofNat (v + 0xE0)) = .pending ⟨v, 1, if v = 0 then 0xA0 else 0x80, if v =
      13 then 0x9F else 0xBF⟩ := by
  interval_cases v <;> rfl

theorem lead_four {v : Nat} (h : v < 5) :
    lead (UInt8.ofNat (v + 0xF0)) = .pending ⟨v, 2, if v = 0 then 0x90 else 0x80, if v =
      4 then 0x8F else 0xBF⟩ := by
  interval_cases v <;> rfl

theorem decodeFrom_encodeChar (c : Char) (bs : Bytes) :
    decodeFrom none (String.utf8EncodeChar c ++ bs) = some c :: decodeFrom none bs := by
  have hv : c.toNat < 0xD800 ∨ (0xDFFF < c.toNat ∧ c.toNat < 0x110000) := c.valid
  unfold String.utf8EncodeChar
  simp only [show c.val.toNat = c.toNat from rfl]
  split_ifs with h1 h2 h3
  · simp only [List.cons_append, List.nil_append, decodeFrom, lead,
      toNat_byte (show c.toNat < 256 by omega)]
    rw [if_pos (by omega)]
    simp only [Char.ofNat_toNat]
  · have hlead : lead (UInt8.ofNat (c.toNat / 64 % 32 + 192)) =
        .pending ⟨c.toNat / 64, 0, 0x80, 0xBF⟩ := by
      simp only [lead, toNat_byte (show c.toNat / 64 % 32 + 192 < 256 by omega)]
      rw [if_neg (by omega), if_neg (by omega), if_pos (by omega),
        show c.toNat / 64 % 32 + 192 - 0xC0 = c.toNat / 64 by omega]
    rw [List.cons_append, decodeFrom_pending hlead, List.cons_append, List.nil_append]
    exact decodeFrom_last rfl (by simp) (by simp only; omega) (by omega) (by simp only; omega) bs
  · have hlead := lead_three (v := c.toNat / 4096 % 16) (by omega)
    rw [List.cons_append, decodeFrom_pending hlead, List.cons_append,
      decodeFrom_inner rfl (by simp only; split <;> omega) (by simp only; split <;> omega) (by omega),
      List.cons_append, List.nil_append]
    exact decodeFrom_last rfl (by simp) (by simp only; omega) (by omega) (by simp only; omega) bs
  · have hlead := lead_four (v := c.toNat / 262144 % 8) (by omega)
    rw [List.cons_append, decodeFrom_pending hlead, List.cons_append,
      decodeFrom_inner rfl (by simp only; split <;> omega) (by simp only; split <;> omega) (by omega),
      List.cons_append, decodeFrom_inner rfl (by simp) (by simp only; omega) (by omega),
      List.cons_append, List.nil_append]
    exact decodeFrom_last rfl (by simp) (by simp only; omega) (by omega) (by simp only; omega) bs

/-! ## Decoding texts -/

theorem encode_nil : encode [] = [] := rfl

theorem encode_cons (c : Char) (cs : List Char) :
    encode (c :: cs) = String.utf8EncodeChar c ++ encode cs := by
  rw [encode, List.flatMap_cons, encode]

@[simp] theorem encode_append (a b : List Char) : encode (a ++ b) = encode a ++ encode b := by
  rw [encode, List.flatMap_append, encode, encode]

theorem decodeFrom_encode_append (cs : List Char) (bs : Bytes) :
    decodeFrom none (encode cs ++ bs) = cs.map some ++ decodeFrom none bs := by
  induction cs with
  | nil => rfl
  | cons c cs ih => rw [encode_cons, List.append_assoc, decodeFrom_encodeChar, ih, List.map_cons,
      List.cons_append]

theorem decodeFrom_encode (cs : List Char) : decodeFrom none (encode cs) = cs.map some := by
  have h := decodeFrom_encode_append cs []
  rwa [List.append_nil, decodeFrom, List.append_nil] at h

theorem decodeLossy_encode (cs : List Char) : decodeLossy (encode cs) = cs := by
  rw [decodeLossy, decodeFrom_encode, List.map_map]
  exact List.map_id cs

theorem decodeLossy_textBytes (text : String) : decodeLossy (textBytes text) = text.toList :=
  decodeLossy_encode _

theorem decode?_encode (cs : List Char) : decode? (encode cs) = some cs := by
  unfold decode?
  rw [decodeFrom_encode]
  induction cs with
  | nil => rfl
  | cons c cs ih => simp [ih]

theorem encode_injective {a b : List Char} (h : encode a = encode b) : a = b := by
  rw [← decodeLossy_encode a, h, decodeLossy_encode]

theorem encode_ne_nil {cs : List Char} (h : cs ≠ []) : encode cs ≠ [] :=
  fun he => h (encode_injective he)

theorem eq_append_of_encode_eq {needle cs : List Char} {rest : Bytes}
    (h : encode cs = encode needle ++ rest) :
    ∃ b, cs = needle ++ b ∧ rest = encode b := by
  have hd := decodeFrom_encode_append needle rest
  rw [← h, decodeFrom_encode] at hd
  obtain ⟨a, b, rfl, ha, -⟩ := List.map_eq_append_iff.mp hd
  obtain rfl : a = needle := (List.map_inj_right fun _ _ => Option.some.inj).mp ha
  refine ⟨b, rfl, ?_⟩
  rw [encode_append] at h
  exact (List.append_cancel_left h).symm

/-! ## Boundaries -/

def IsContinuation (b : UInt8) : Prop := 0x80 ≤ b.toNat ∧ b.toNat < 0xC0

/-- The first byte of a character is none inside one, the others are. -/
theorem encodeChar_shape (c : Char) : ∃ b bs, String.utf8EncodeChar c = b :: bs ∧ ¬ IsContinuation b ∧
    ∀ b' ∈ bs, IsContinuation b' := by
  have hv : c.toNat < 0xD800 ∨ (0xDFFF < c.toNat ∧ c.toNat < 0x110000) := c.valid
  have tail (n : Nat) (h : n < 64) : IsContinuation (UInt8.ofNat (n + 0x80)) := by
    unfold IsContinuation; rw [toNat_byte (by omega)]; omega
  have first (n : Nat) (h : n < 256) (hn : n < 0x80 ∨ 0xC0 ≤ n) :
      ¬ IsContinuation (UInt8.ofNat n) := by
    unfold IsContinuation; rw [toNat_byte h]; omega
  unfold String.utf8EncodeChar
  simp only [show c.val.toNat = c.toNat from rfl]
  split_ifs with h1 h2 h3
  · exact ⟨_, _, rfl, first _ (by omega) (by omega), by simp⟩
  · refine ⟨_, _, rfl, first _ (by omega) (by omega), ?_⟩
    simp only [List.mem_singleton, forall_eq]
    exact tail _ (by omega)
  · refine ⟨_, _, rfl, first _ (by omega) (by omega), ?_⟩
    simp only [List.mem_cons, List.not_mem_nil, or_false, forall_eq_or_imp, forall_eq]
    exact ⟨tail _ (by omega), tail _ (by omega)⟩
  · refine ⟨_, _, rfl, first _ (by omega) (by omega), ?_⟩
    simp only [List.mem_cons, List.not_mem_nil, or_false, forall_eq_or_imp, forall_eq]
    exact ⟨tail _ (by omega), tail _ (by omega), tail _ (by omega)⟩

/-- The bytes of a text are cut between two characters where no continuation byte follows. -/
theorem exists_split_of_encode_eq {cs : List Char} : ∀ {x y : Bytes}, encode cs = x ++ y →
    (∀ b ∈ y.head?, ¬ IsContinuation b) → ∃ a b, cs = a ++ b ∧ x = encode a ∧ y = encode b := by
  induction cs with
  | nil =>
    intro x y h _
    obtain ⟨rfl, rfl⟩ := List.append_eq_nil_iff.mp h.symm
    exact ⟨[], [], rfl, rfl, rfl⟩
  | cons c cs ih =>
    intro x y h hy
    cases x with
    | nil => exact ⟨[], c :: cs, rfl, rfl, h.symm⟩
    | cons b x =>
      obtain ⟨lead, tail, hc, -, htail⟩ := encodeChar_shape c
      rw [encode_cons, hc, List.cons_append, List.cons_append, List.cons.injEq] at h
      obtain ⟨rfl, h⟩ := h
      rcases List.append_eq_append_iff.mp h with ⟨x', rfl, h'⟩ | ⟨y', htail', h'⟩
      · obtain ⟨a, b', rfl, rfl, rfl⟩ := ih h' hy
        exact ⟨c :: a, b', rfl, by rw [encode_cons, hc]; rfl, rfl⟩
      · -- the cut would leave bytes of `c` behind it
        cases y' with
        | nil =>
          rw [List.append_nil] at htail'
          rw [List.nil_append] at h'
          exact ⟨[c], cs, rfl, by rw [encode_cons, hc, htail', encode_nil, List.append_nil], h'⟩
        | cons b' y' =>
          subst h'
          exact absurd (htail b' (by simp [htail'])) (hy b' (by simp))

theorem head?_encode_not_continuation (cs : List Char) :
    ∀ b ∈ (encode cs).head?, ¬ IsContinuation b := by
  cases cs with
  | nil => simp [encode_nil]
  | cons c cs =>
    obtain ⟨b, bs, hc, hb, -⟩ := encodeChar_shape c
    simp [encode_cons, hc, hb]

/-! ## ASCII characters -/

theorem mem_encode_of_lt {cs : List Char} {b : UInt8} (hb : b ∈ encode cs) (h : b.toNat < 0x80) :
    Char.ofNat b.toNat ∈ cs := by
  obtain ⟨c, hc, hbc⟩ := List.mem_flatMap.mp hb
  have hv : c.toNat < 0xD800 ∨ (0xDFFF < c.toNat ∧ c.toNat < 0x110000) := c.valid
  have big (n : Nat) (hn : n < 256) (h' : 0x80 ≤ n) : b ≠ UInt8.ofNat n := by
    rintro rfl; rw [toNat_byte hn] at h; omega
  unfold String.utf8EncodeChar at hbc
  simp only [show c.val.toNat = c.toNat from rfl] at hbc
  split_ifs at hbc with h1 h2 h3
  · rw [List.mem_singleton.mp hbc, toNat_byte (by omega), Char.ofNat_toNat]
    exact hc
  all_goals simp only [List.mem_cons, List.not_mem_nil, or_false] at hbc
  · rcases hbc with hbc | hbc <;> exact absurd hbc (big _ (by omega) (by omega))
  · rcases hbc with hbc | hbc | hbc <;> exact absurd hbc (big _ (by omega) (by omega))
  · rcases hbc with hbc | hbc | hbc | hbc <;> exact absurd hbc (big _ (by omega) (by omega))

end FirmwareCatalog.Utf8
