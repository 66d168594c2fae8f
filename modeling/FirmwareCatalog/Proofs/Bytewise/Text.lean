import FirmwareCatalog.Proofs.Text.Utf8

/-!
# Texts by byte offsets

A text may be cut at byte offsets, which have to be in order, inside the text
and between two characters. A program that cuts texts in this way either answers
or faults.
-/

namespace FirmwareCatalog.Bytewise

open Utf8

inductive Fault where
  | index
  /-- A slice that runs backward, out of the text or through a character. -/
  | slice
  | underflow
deriving DecidableEq

abbrev Checked := Except Fault

@[simp] theorem ok_bind {α β : Type} (a : α) (f : α → Checked β) : ((.ok a : Checked α) >>= f) = f a := rfl

@[simp] theorem pure_eq_ok {α : Type} (a : α) : (pure a : Checked α) = .ok a := rfl

section

variable {α β : Type} {l : List α}

theorem mapM_ok {f : α → Checked β} {g : α → β} (h : ∀ a ∈ l, f a = .ok (g a)) :
    l.mapM f = .ok (l.map g) := by
  induction l with
  | nil => rfl
  | cons a l ih =>
    obtain ⟨ha, h⟩ := List.forall_mem_cons.mp h
    rw [List.mapM_cons, ha, ok_bind, ih h]
    rfl

variable {f : α → Checked (Option β)} {g : α → Option β} (h : ∀ a ∈ l, f a = .ok (g a))
include h

theorem filterMapM_ok : l.filterMapM f = .ok (l.filterMap g) := by
  induction l with
  | nil => rfl
  | cons a l ih =>
    obtain ⟨ha, h⟩ := List.forall_mem_cons.mp h
    rw [List.filterMapM_cons, ha, ok_bind, ih h, List.filterMap_cons]
    cases g a <;> rfl

theorem findSomeM?_ok : l.findSomeM? f = .ok (l.findSome? g) := by
  induction l with
  | nil => rfl
  | cons a l ih =>
    obtain ⟨ha, h⟩ := List.forall_mem_cons.mp h
    rw [List.findSomeM?_cons, ha, ok_bind, ih h, List.findSome?_cons]
    cases g a <;> rfl

end

def decrement : Nat → Checked Nat
  | 0 => .error .underflow
  | n + 1 => .ok n

/-! ## Widths -/

def width (text : List Char) : Nat := (encode text).length

theorem width_nil : width [] = 0 := rfl

theorem width_append (a b : List Char) : width (a ++ b) = width a + width b := by
  rw [width, encode_append, List.length_append]
  rfl

theorem add_width_append (n : Nat) (a b : List Char) : n + width a + width b = n + width (a ++ b) := by
  rw [width_append, Nat.add_assoc]

theorem encode_cons_append (c : Char) (text : List Char) : encode (c :: text) = encode [c] ++ encode text :=
  encode_append [c] text

theorem exists_encode_eq (c : Char) : ∃ b bs, encode [c] = b :: bs :=
  List.exists_cons_of_ne_nil (encode_ne_nil (List.cons_ne_nil c []))

theorem width_cons (c : Char) (text : List Char) : width (c :: text) = width [c] + width text :=
  width_append [c] text

theorem width_pos (c : Char) : 0 < width [c] :=
  List.length_pos_iff.mpr (encode_ne_nil (List.cons_ne_nil c []))

theorem width_eq_zero_iff {text : List Char} : width text = 0 ↔ text = [] := by
  cases text with
  | nil => simp [width_nil]
  | cons c text =>
    have := width_pos c
    rw [width_cons]
    simp
    omega

theorem drop_encode (a b : List Char) : (encode (a ++ b)).drop (width a) = encode b := by
  rw [encode_append]
  exact List.drop_left' rfl

/-! ## Slices -/

def dropBytes? : List Char → Nat → Option (List Char)
  | text, 0 => some text
  | [], _ + 1 => none
  | c :: text, n + 1 => if width [c] ≤ n + 1 then dropBytes? text (n + 1 - width [c]) else none

def takeBytes? : List Char → Nat → Option (List Char)
  | _, 0 => some []
  | [], _ + 1 => none
  | c :: text, n + 1 =>
    if width [c] ≤ n + 1 then (takeBytes? text (n + 1 - width [c])).map (c :: ·) else none

def slice (text : List Char) (start stop : Nat) : Checked (List Char) :=
  if start ≤ stop then
    match (dropBytes? text start).bind (takeBytes? · (stop - start)) with
    | some piece => .ok piece
    | none => .error .slice
  else .error .slice

def sliceFrom (text : List Char) (start : Nat) : Checked (List Char) := slice text start (width text)

theorem dropBytes?_append (a b : List Char) : dropBytes? (a ++ b) (width a) = some b := by
  induction a with
  | nil =>
    rw [width_nil]
    cases b <;> rfl
  | cons c a ih =>
    have hwidth := width_cons c a
    have hpos := width_pos c
    obtain ⟨n, hn⟩ : ∃ n, width (c :: a) = n + 1 := Nat.exists_eq_succ_of_ne_zero (by omega)
    have hrest : n + 1 - width [c] = width a := by omega
    rw [List.cons_append, hn, dropBytes?, if_pos (by omega), hrest, ih]

theorem takeBytes?_append (a b : List Char) : takeBytes? (a ++ b) (width a) = some a := by
  induction a with
  | nil =>
    rw [width_nil]
    cases b <;> rfl
  | cons c a ih =>
    have hwidth := width_cons c a
    have hpos := width_pos c
    obtain ⟨n, hn⟩ : ∃ n, width (c :: a) = n + 1 := Nat.exists_eq_succ_of_ne_zero (by omega)
    have hrest : n + 1 - width [c] = width a := by omega
    rw [List.cons_append, hn, takeBytes?, if_pos (by omega), hrest, ih]
    rfl

theorem slice_append (a piece b : List Char) :
    slice (a ++ (piece ++ b)) (width a) (width a + width piece) = .ok piece := by
  unfold slice
  rw [if_pos (Nat.le_add_right _ _), dropBytes?_append, Option.bind_some, Nat.add_sub_cancel_left, takeBytes?_append]

theorem sliceFrom_append (a b : List Char) : sliceFrom (a ++ b) (width a) = .ok b := by
  have h := slice_append a b []
  rwa [List.append_nil, ← width_append] at h

-- no slice ends inside a character
example : slice ['ä', 'b'] 1 2 = .error .slice := rfl

theorem length_of_dropBytes? : ∀ {text rest : List Char} {n : Nat}, dropBytes? text n = some rest → 0 < n →
    rest.length < text.length
  | [], rest, n + 1, h, _ => by simp [dropBytes?] at h
  | c :: text, rest, n + 1, h, _ => by
    simp only [dropBytes?] at h
    split at h
    · cases hm : n + 1 - width [c] with
      | zero =>
        rw [hm] at h
        cases text <;> cases h <;> simp
      | succ m =>
        rw [hm] at h
        have := length_of_dropBytes? h (Nat.succ_pos m)
        rw [List.length_cons]
        omega
    · cases h

theorem length_of_takeBytes? : ∀ {text piece : List Char} {n : Nat}, takeBytes? text n = some piece →
    piece.length ≤ text.length
  | text, piece, 0, h => by
    cases text <;> cases h <;> simp
  | [], piece, n + 1, h => by simp [takeBytes?] at h
  | c :: text, piece, n + 1, h => by
    simp only [takeBytes?] at h
    split at h
    · obtain ⟨piece, hpiece, rfl⟩ := Option.map_eq_some_iff.mp h
      have := length_of_takeBytes? hpiece
      simp only [List.length_cons]
      omega
    · cases h

theorem length_of_sliceFrom {text rest : List Char} {n : Nat} (h : sliceFrom text n = .ok rest) (hn : 0 < n) :
    rest.length < text.length := by
  unfold sliceFrom slice at h
  split at h
  · split at h
    · rename_i piece hpiece
      cases h
      obtain ⟨dropped, hdropped, htaken⟩ := Option.bind_eq_some_iff.mp hpiece
      have := length_of_dropBytes? hdropped hn
      have := length_of_takeBytes? htaken
      omega
    · cases h
  · cases h

/-! ## ASCII characters -/

def IsAscii (c : Char) : Prop := c.toNat < 0x80

instance : DecidablePred IsAscii := fun c => inferInstanceAs (Decidable (c.toNat < 0x80))

def byte (c : Char) : UInt8 := UInt8.ofNat c.toNat

theorem encode_ascii {c : Char} (h : IsAscii c) : encode [c] = [byte c] := by
  have hle : c.val.toNat ≤ 0x7f := Nat.le_of_lt_succ h
  rw [encode_cons, encode_nil, List.append_nil]
  unfold String.utf8EncodeChar
  simp only
  rw [if_pos hle]
  rfl

theorem encode_cons_ascii {c : Char} (h : IsAscii c) (text : List Char) :
    encode (c :: text) = byte c :: encode text := by
  rw [encode_cons_append, encode_ascii h, List.singleton_append]

theorem width_ascii {c : Char} (h : IsAscii c) : width [c] = 1 := by rw [width, encode_ascii h]; rfl

theorem width_cons_ascii {c : Char} (h : IsAscii c) (text : List Char) : width (c :: text) = width text + 1 := by
  rw [width_cons, width_ascii h, Nat.add_comm]

theorem width_of_ascii {text : List Char} (h : ∀ c ∈ text, IsAscii c) : width text = text.length := by
  induction text with
  | nil => rfl
  | cons c text ih =>
    obtain ⟨hc, h⟩ := List.forall_mem_cons.mp h
    rw [width_cons_ascii hc, ih h, List.length_cons]

theorem toNat_byte_ascii {c : Char} (h : IsAscii c) : (byte c).toNat = c.toNat :=
  toNat_byte (Nat.lt_trans h (by decide))

theorem notMem_encode {c d : Char} (hd : IsAscii d) (hne : c ≠ d) : byte d ∉ encode [c] := by
  intro hmem
  have htoNat := toNat_byte_ascii hd
  have h := mem_encode_of_lt hmem (by rw [htoNat]; exact hd)
  rw [htoNat, Char.ofNat_toNat, List.mem_singleton] at h
  exact hne h.symm

end FirmwareCatalog.Bytewise
