import FirmwareCatalog.NameHash
import FirmwareCatalog.Proofs.Character.Ascii
import FirmwareCatalog.Proofs.Table
import Mathlib.Algebra.BigOperators.Fin
import Mathlib.Data.Nat.ModEq
import Mathlib.Tactic.Ring

/-!
# A name hash is a polynomial

What the shift and the additions of a step lose are multiples of 2^32, so the
low 16 bits are those of Horner's scheme at 33 in unbounded numbers. They depend
on a name through its upper-cased characters only, and on the front of a name
through its hash only.
-/

namespace FirmwareCatalog

open Character

/-! ## Upper case -/

theorem upperCase_ne_nil (c : Char) : Character.upperCase c ≠ [] := by
  unfold Character.upperCase Character.upperCaseBeyondAscii
  split
  · simp
  · cases h : Character.caseExpansions.lookup c.toNat with
    | some codes =>
      have hall : Character.caseExpansions.all (fun p => !p.2.isEmpty) = true := by decide
      have := List.all_eq_true.mp hall _ (mem_of_lookup_eq_some h)
      simpa using this
    | none => simp only; split <;> simp

theorem upperCased_eq_nil_iff (name : String) : upperCased name = [] ↔ name.isEmpty = true := by
  rw [upperCased, List.flatMap_eq_nil_iff]
  constructor
  · intro h
    cases hcs : name.toList with
    | nil => simpa using hcs
    | cons c cs => exact absurd (h c (by simp [hcs])) (upperCase_ne_nil c)
  · intro h c hc
    rw [String.isEmpty_iff] at h
    simp [h] at hc

theorem upperCased_append (a b : String) : upperCased (a ++ b) = upperCased a ++ upperCased b := by
  simp [upperCased]

theorem nameHash_eq_of_upperCased_eq {a b : String} (h : upperCased a = upperCased b) :
    nameHash a = nameHash b := by
  have hempty : a.isEmpty = b.isEmpty := by
    rw [Bool.eq_iff_iff, ← upperCased_eq_nil_iff, ← upperCased_eq_nil_iff, h]
  simp only [nameHash, hempty, h]

theorem upperCase_eq_of_toUpper_eq {c d : Char} (h : c.toUpper = d.toUpper) :
    Character.upperCase c = Character.upperCase d := by
  unfold Character.upperCase
  rcases Nat.lt_or_ge c.toNat 128 with hc | hc <;> rcases Nat.lt_or_ge d.toNat 128 with hd | hd
  · rw [if_pos hc, if_pos hd, h]
  · have hupper := toNat_toUpper_lt hc
    rw [h, toUpper_of_le hd] at hupper
    omega
  · have hupper := toNat_toUpper_lt hd
    rw [← h, toUpper_of_le hc] at hupper
    omega
  · rw [toUpper_of_le hc, toUpper_of_le hd] at h
    rw [h]

theorem flatMap_upperCase_eq {cs ds : List Char} (h : cs.map Char.toUpper = ds.map Char.toUpper) :
    cs.flatMap Character.upperCase = ds.flatMap Character.upperCase := by
  induction cs generalizing ds with
  | nil =>
    obtain rfl : ds = [] := by simpa using h.symm
    rfl
  | cons c cs ih =>
    cases ds with
    | nil => simp at h
    | cons d ds =>
      rw [List.map_cons, List.map_cons, List.cons.injEq] at h
      rw [List.flatMap_cons, List.flatMap_cons, upperCase_eq_of_toUpper_eq h.1, ih h.2]

/-! ## Horner's scheme -/

namespace NameHash

/-- The code points of a text as the coefficients of a polynomial, the last of them constant, at 33. -/
def polynomial (cs : List Char) : Nat := ∑ i : Fin cs.length, cs[i].toNat * 33 ^ (cs.length - 1 - i)

theorem polynomial_nil : polynomial [] = 0 := rfl

theorem polynomial_cons (c : Char) (cs : List Char) :
    polynomial (c :: cs) = c.toNat * 33 ^ cs.length + polynomial cs := by
  have hsplit : polynomial (c :: cs) = c.toNat * 33 ^ (cs.length + 1 - 1 - 0) +
      ∑ i : Fin cs.length, cs[i].toNat * 33 ^ (cs.length + 1 - 1 - (i + 1)) := Fin.sum_univ_succ _
  rw [hsplit, polynomial]
  congr 1
  refine Finset.sum_congr rfl fun i _ => ?_
  have hplace : cs.length + 1 - 1 - ((i : Nat) + 1) = cs.length - 1 - i := by omega
  rw [hplace]

theorem step_modEq (hash : UInt32) (c : Char) : (step hash c).toNat ≡ hash.toNat * 33 + c.toNat [MOD 65536] := by
  have hshift : (hash <<< 5).toNat = hash.toNat * 32 % 4294967296 := by
    rw [UInt32.toNat_shiftLeft, Nat.shiftLeft_eq]
    rfl
  have hchar : c.val.toNat = c.toNat := rfl
  unfold Nat.ModEq
  rw [step, UInt32.toNat_add, UInt32.toNat_add, hshift, hchar]
  omega

/-- From any hash on, a text adds its polynomial. -/
theorem foldl_step_modEq (cs : List Char) (hash : UInt32) :
    (cs.foldl step hash).toNat ≡ hash.toNat * 33 ^ cs.length + polynomial cs [MOD 65536] := by
  induction cs generalizing hash with
  | nil => simp [polynomial_nil, Nat.ModEq]
  | cons c cs ih =>
    calc (cs.foldl step (step hash c)).toNat
      _ ≡ (step hash c).toNat * 33 ^ cs.length + polynomial cs [MOD 65536] := ih _
      _ ≡ (hash.toNat * 33 + c.toNat) * 33 ^ cs.length + polynomial cs [MOD 65536] :=
        ((step_modEq hash c).mul_right _).add_right _
      _ = hash.toNat * 33 ^ (cs.length + 1) + (c.toNat * 33 ^ cs.length + polynomial cs) := by ring
      _ = hash.toNat * 33 ^ (c :: cs).length + polynomial (c :: cs) := by rw [polynomial_cons, List.length_cons]

theorem toNat_nameHash {name : String} (h : name ≠ "") :
    (nameHash name).toNat = ((upperCased name).foldl step seed).toNat % 65536 := by
  have hempty : ¬ name.isEmpty = true := fun he => h (String.isEmpty_iff.mp he)
  rw [nameHash, if_neg hempty, UInt32.toNat_toUInt16]

end NameHash

open NameHash

/-- **The hash of a name is its polynomial.** The upper-cased code points of a name that is not empty are the
coefficients behind the seed, in numbers without bound. More text behind a name adds its own polynomial to the hash,
and the case of ASCII letters does not count. -/
theorem nameHash_eq_polynomial :
    (∀ name : String, name ≠ "" →
      (nameHash name).toNat =
          (5381 * 33 ^ (upperCased name).length + polynomial (upperCased name)) % 2 ^ 16 ∧
        ∀ more : String, (nameHash (name ++ more)).toNat =
          ((nameHash name).toNat * 33 ^ (upperCased more).length + polynomial (upperCased more)) % 2 ^ 16) ∧
      ∀ a b : String, a.toList.map Char.toUpper = b.toList.map Char.toUpper → nameHash a = nameHash b := by
  refine ⟨fun name h => ⟨?_, fun more => ?_⟩, fun a b h => ?_⟩
  · rw [toNat_nameHash h]
    exact foldl_step_modEq (upperCased name) seed
  · have hmore : name ++ more ≠ "" := fun he => h (String.append_eq_empty_iff.mp he).1
    rw [toNat_nameHash hmore, upperCased_append, List.foldl_append]
    have hfront : ((upperCased name).foldl step seed).toNat ≡ (nameHash name).toNat [MOD 65536] := by
      rw [toNat_nameHash h]
      exact (Nat.mod_modEq _ _).symm
    exact (foldl_step_modEq (upperCased more) _).trans ((hfront.mul_right _).add_right _)
  · exact nameHash_eq_of_upperCased_eq (flatMap_upperCase_eq h)

/-- A name of three letters with four in upper case. -/
theorem nameHash_eq_polynomial_sharp :
    "Maß" ≠ "" ∧ upperCased "Maß" = ['M', 'A', 'S', 'S'] ∧
      (nameHash "Maß").toNat = (5381 * 33 ^ 4 + polynomial ['M', 'A', 'S', 'S']) % 2 ^ 16 ∧
      (nameHash ("Maß" ++ "e")).toNat = ((nameHash "Maß").toNat * 33 ^ 1 + polynomial ['E']) % 2 ^ 16 ∧
      nameHash "mAß" = nameHash "Maß" := by
  have hne : "Maß" ≠ "" := by decide
  have hupper : upperCased "Maß" = ['M', 'A', 'S', 'S'] := by decide
  have hmore : upperCased "e" = ['E'] := by decide
  obtain ⟨hname, hbehind⟩ := nameHash_eq_polynomial.1 "Maß" hne
  have hlonger := hbehind "e"
  rw [hupper] at hname
  rw [hmore] at hlonger
  exact ⟨hne, hupper, hname, hlonger, nameHash_eq_polynomial.2 "mAß" "Maß" (by decide)⟩

end FirmwareCatalog
