/-!
# ASCII

What holds of 128 characters is decided by going through them. The case maps of
single characters move letters of ASCII only, and within it.
-/

namespace FirmwareCatalog.Character

theorem forall_ascii {p : Char → Prop} (h : ∀ n < 128, p (Char.ofNat n)) {c : Char} (hc : c.toNat < 128) : p c := by
  have hp := h c.toNat hc
  rwa [Char.ofNat_toNat] at hp

theorem toNat_toUpper_lt {c : Char} (h : c.toNat < 128) : c.toUpper.toNat < 128 :=
  forall_ascii (p := fun c => c.toUpper.toNat < 128) (by decide) h

theorem toUpper_of_le {c : Char} (h : 128 ≤ c.toNat) : c.toUpper = c := by
  unfold Char.toUpper
  split
  · rename_i hletter
    have hlast : c.toNat ≤ 122 := UInt32.le_iff_toNat_le.mp hletter.2
    omega
  · rfl

theorem toLower_of_le {c : Char} (h : 128 ≤ c.toNat) : c.toLower = c := by
  unfold Char.toLower
  split
  · rename_i hletter
    have hlast : c.toNat ≤ 90 := UInt32.le_iff_toNat_le.mp hletter.2
    omega
  · rfl

theorem toUpper_toLower (c : Char) : c.toLower.toUpper = c.toUpper := by
  by_cases hc : c.toNat < 128
  · exact forall_ascii (p := fun c => c.toLower.toUpper = c.toUpper) (by decide) hc
  · rw [toLower_of_le (Nat.not_lt.mp hc)]

theorem toLower_toUpper (c : Char) : c.toUpper.toLower = c.toLower := by
  by_cases hc : c.toNat < 128
  · exact forall_ascii (p := fun c => c.toUpper.toLower = c.toLower) (by decide) hc
  · rw [toUpper_of_le (Nat.not_lt.mp hc)]

theorem toLower_eq_iff {c d : Char} : c.toLower = d.toLower ↔ c.toUpper = d.toUpper := by
  constructor
  · intro h
    rw [← toUpper_toLower c, h, toUpper_toLower]
  · intro h
    rw [← toLower_toUpper c, h, toLower_toUpper]

end FirmwareCatalog.Character
