import FirmwareCatalog.Validation.Repetition
import Mathlib.Data.Finset.Card
import Mathlib.Data.Finset.Dedup

/-!
# Repeated keys

A walk that remembers the first owner of every key reports a key at its end
exactly if an owner in front has it, with the first such owner. So it reports as
many owners as there are more of them than keys, and none if all keys differ.
-/

namespace FirmwareCatalog

section
variable {κ α : Type} [BEq κ] [LawfulBEq κ]

theorem repetitionsFrom_concat (seen owned : List (κ × α)) (key : κ) (owner : α) :
    repetitionsFrom seen (owned ++ [(key, owner)]) = repetitionsFrom seen owned ++
      (((seen.lookup key).or (owned.lookup key)).map fun first => ⟨key, first, owner⟩).toList := by
  induction owned generalizing seen with
  | nil =>
    simp only [List.nil_append, repetitionsFrom, List.lookup_nil, Option.or_none]
    cases seen.lookup key <;> rfl
  | cons p owned ih =>
    obtain ⟨k, o⟩ := p
    simp only [List.cons_append, repetitionsFrom, List.lookup_cons]
    cases hseen : seen.lookup k with
    | some first =>
      simp only
      rw [ih, List.cons_append]
      by_cases hkey : key = k
      · subst hkey
        simp [hseen]
      · simp only [beq_false_of_ne hkey]
    | none =>
      simp only
      rw [ih, List.lookup_cons]
      by_cases hkey : key = k
      · subst hkey
        simp [hseen]
      · simp only [beq_false_of_ne hkey]

theorem repetitions_concat (owned : List (κ × α)) (key : κ) (owner : α) :
    repetitions (owned ++ [(key, owner)]) =
      repetitions owned ++ ((owned.lookup key).map fun first => ⟨key, first, owner⟩).toList := by
  rw [repetitions, repetitionsFrom_concat, List.lookup_nil, Option.none_or]
  rfl

theorem lookup_eq_none_iff_notMem {k : κ} {owned : List (κ × α)} :
    owned.lookup k = none ↔ k ∉ owned.map Prod.fst := by
  simp only [List.lookup_eq_none_iff, bne_iff_ne, List.mem_map, not_exists, not_and]
  exact ⟨fun h p hp he => h p hp he.symm, fun h p hp he => h p hp he.symm⟩

theorem length_repetitions [DecidableEq κ] (owned : List (κ × α)) :
    (repetitions owned).length + (owned.map Prod.fst).toFinset.card = owned.length := by
  induction owned using List.reverseRecOn with
  | nil => rfl
  | append_singleton owned p ih =>
    obtain ⟨key, owner⟩ := p
    rw [repetitions_concat, List.map_append, List.toFinset_append, List.length_append, List.length_append]
    cases hlookup : owned.lookup key with
    | some first =>
      have hmem : key ∈ (owned.map Prod.fst).toFinset := by
        by_contra hnot
        rw [List.mem_toFinset] at hnot
        rw [lookup_eq_none_iff_notMem.mpr hnot] at hlookup
        cases hlookup
      have hsame : (owned.map Prod.fst).toFinset ∪ [key].toFinset = (owned.map Prod.fst).toFinset := by
        simpa using hmem
      simp only [List.map_cons, List.map_nil, hsame, Option.map_some, Option.toList_some, List.length_singleton]
      omega
    | none =>
      have hnot : key ∉ (owned.map Prod.fst).toFinset := by
        rw [List.mem_toFinset]
        exact lookup_eq_none_iff_notMem.mp hlookup
      have hnew : ((owned.map Prod.fst).toFinset ∪ [key].toFinset).card = (owned.map Prod.fst).toFinset.card + 1 := by
        simp [Finset.card_insert_of_notMem hnot, Finset.union_comm]
      simp only [List.map_cons, List.map_nil, hnew, Option.map_none, Option.toList_none, List.length_nil,
        List.length_singleton]
      omega

theorem repetitions_eq_nil_iff (owned : List (κ × α)) :
    repetitions owned = [] ↔ (owned.map Prod.fst).Nodup := by
  classical
  have hlength := length_repetitions owned
  have hcard : (owned.map Prod.fst).toFinset.card = owned.length ↔ (owned.map Prod.fst).Nodup := by
    rw [← List.length_map Prod.fst]
    exact Multiset.toFinset_card_eq_card_iff_nodup
  rw [← hcard, ← List.length_eq_zero_iff]
  omega

end

end FirmwareCatalog
