import FirmwareCatalog.Table
import Mathlib.Data.List.Basic

/-!
# What a table holds

A table built by insertions holds for each key the value that was put in last.
-/

namespace FirmwareCatalog

variable {α : Type}

theorem mem_of_lookup_eq_some {κ β : Type} [BEq κ] [LawfulBEq κ] {entries : List (κ × β)} {key : κ} {value : β}
    (h : entries.lookup key = some value) : (key, value) ∈ entries := by
  obtain ⟨before, behind, rfl, -⟩ := List.lookup_eq_some_iff.mp h
  simp

theorem lookup_cons_eq_ite (k : String) (e : String × α) (entries : List (String × α)) :
    (e :: entries).lookup k = if k = e.1 then some e.2 else entries.lookup k := by
  by_cases h : k = e.1
  · rw [if_pos h, List.lookup_cons, beq_iff_eq.mpr h]
  · rw [if_neg h, List.lookup_cons, beq_eq_false_iff_ne.mpr h]

theorem lookup_insertEntry (key : String) (value : α) (k : String) : ∀ entries : List (String × α),
    (insertEntry key value entries).lookup k = if k = key then some value else entries.lookup k
  | [] => by rw [insertEntry, lookup_cons_eq_ite]
  | (j, v) :: rest => by
    have ih := lookup_insertEntry key value k rest
    simp only [insertEntry]
    split
    · rename_i hkey
      rw [lookup_cons_eq_ite, lookup_cons_eq_ite, hkey]
      by_cases h : k = j <;> simp [h]
    · split
      · rw [lookup_cons_eq_ite]
      · rename_i hkey _
        rw [lookup_cons_eq_ite, lookup_cons_eq_ite, ih]
        by_cases hj : k = j
        · rw [if_pos hj, if_pos hj, if_neg (hj ▸ Ne.symm hkey)]
        · rw [if_neg hj, if_neg hj]

namespace Table

theorem find?_empty (k : String) : (empty : Table α).find? k = none := rfl

theorem find?_insert (t : Table α) (key : String) (value : α) (k : String) :
    (t.insert key value).find? k = if k = key then some value else t.find? k :=
  lookup_insertEntry key value k t.entries

theorem find?_erase (t : Table α) (key k : String) :
    (t.erase key).find? k = if k = key then none else t.find? k := by
  simp only [find?, erase, eraseEntry]
  induction t.entries with
  | nil => simp
  | cons e entries ih =>
    rw [List.filter_cons, lookup_cons_eq_ite]
    by_cases he : e.1 = key
    · simp only [he, ne_eq, not_true_eq_false, decide_false, Bool.false_eq_true, if_false, ih]
      by_cases hk : k = key <;> simp [hk]
    · simp only [ne_eq, he, not_false_eq_true, decide_true, if_true, lookup_cons_eq_ite, ih]
      by_cases hk : k = key
      · simp [hk, Ne.symm he]
      · simp [hk]

theorem any_key_eq (t : Table α) (key : String) :
    t.entries.any (·.1 = key) = (t.find? key).isSome := by
  rw [find?]
  induction t.entries with
  | nil => rfl
  | cons e entries ih =>
    rw [List.any_cons, ih, lookup_cons_eq_ite]
    by_cases h : e.1 = key
    · simp [h]
    · simp [h, Ne.symm h]

theorem find?_insertNew (t : Table α) (key : String) (value : α) (k : String) :
    (t.insertNew key value).find? k = (t.find? k).or (if k = key then some value else none) := by
  unfold insertNew
  rw [any_key_eq]
  by_cases hsome : (t.find? key).isSome = true
  · rw [if_pos hsome]
    by_cases hk : k = key
    · subst hk
      obtain ⟨v, hv⟩ := Option.isSome_iff_exists.mp hsome
      rw [hv]
      rfl
    · simp [hk]
  · rw [if_neg hsome, find?_insert]
    by_cases hk : k = key
    · subst hk
      rw [Option.not_isSome_iff_eq_none.mp hsome]
      simp
    · simp [hk]

theorem insertEntry_of_forall_lt {key : String} {value : α} {entries : List (String × α)}
    (h : ∀ e ∈ entries, e.1 < key) : insertEntry key value entries = entries ++ [(key, value)] := by
  induction entries with
  | nil => rfl
  | cons e entries ih =>
    obtain ⟨he, hrest⟩ := List.forall_mem_cons.mp h
    have ne : ¬ key = e.1 := fun heq => String.lt_irrefl _ (heq ▸ he)
    have notLt : ¬ key < e.1 := fun hlt => String.lt_irrefl _ (String.lt_trans hlt he)
    rw [insertEntry, if_neg ne, if_neg notLt, ih hrest, List.cons_append]

theorem entries_ofList {entries : List (String × α)} (h : SortedKeys entries) :
    (ofList entries).entries = entries := by
  have onto : ∀ (rest : List (String × α)) (t : Table α), SortedKeys (t.entries ++ rest) →
      (rest.foldl (fun t e => t.insert e.1 e.2) t).entries = t.entries ++ rest := by
    intro rest
    induction rest with
    | nil => intro t _; simp
    | cons e rest ih =>
      intro t hsorted
      have last : (t.insert e.1 e.2).entries = t.entries ++ [e] :=
        insertEntry_of_forall_lt fun d hd =>
          (List.pairwise_append.mp hsorted).2.2 d hd e List.mem_cons_self
      rw [List.foldl_cons, ih _ (by rw [last]; simpa using hsorted), last]
      simp
  exact onto entries empty h

theorem ofList_entries (t : Table α) : ofList t.entries = t := Table.ext (entries_ofList t.sorted)

theorem find?_foldl_insert (entries : List (String × α)) (t : Table α) (k : String) :
    (entries.foldl (fun t e => t.insert e.1 e.2) t).find? k = (entries.reverse.lookup k).or
    (t.find? k) := by
  induction entries generalizing t with
  | nil => rfl
  | cons e entries ih =>
    rw [List.foldl_cons, ih, find?_insert, List.reverse_cons, List.lookup_append, Option.or_assoc,
      lookup_cons_eq_ite]
    congr 1
    by_cases h : k = e.1 <;> simp [h]

theorem find?_ofList (entries : List (String × α)) (k : String) :
    (ofList entries).find? k = entries.reverse.lookup k := by
  rw [ofList, find?_foldl_insert, find?_empty, Option.or_none]

theorem mem_of_find?_ofList {entries : List (String × α)} {k : String} {value : α}
    (h : (ofList entries).find? k = some value) : (k, value) ∈ entries := by
  rw [find?_ofList] at h
  exact List.mem_reverse.mp (mem_of_lookup_eq_some h)

theorem map_find?_ofList {β : Type} {f : α → β} {g : String → Option β} {entries : List (String × α)}
    (h : ∀ e ∈ entries, some (f e.2) = g e.1) (k : String) :
    ((ofList entries).find? k).map f = if k ∈ entries.map (·.1) then g k else none := by
  have hlookup : ∀ entries : List (String × α), (∀ e ∈ entries, some (f e.2) = g e.1) →
      (entries.lookup k).map f = if k ∈ entries.map (·.1) then g k else none := by
    intro entries
    induction entries with
    | nil => exact fun _ => rfl
    | cons e entries ih =>
      intro h
      obtain ⟨he, h⟩ := List.forall_mem_cons.mp h
      rw [lookup_cons_eq_ite, List.map_cons]
      by_cases hk : k = e.1
      · rw [if_pos hk, if_pos (hk ▸ List.mem_cons_self), hk, ← he]
        rfl
      · rw [if_neg hk, ih h]
        exact if_congr (by simp [hk]) rfl rfl
  rw [find?_ofList, hlookup _ fun e he => h e (List.mem_reverse.mp he)]
  exact if_congr (by simp) rfl rfl

theorem find?_foldl_insertNew {β : Type} (f : β → String × α) (items : List β) (t : Table α)
    (k : String) :
    (items.foldl (fun t d => t.insertNew (f d).1 (f d).2) t).find? k = (t.find? k).or
    ((items.map f).lookup k) := by
  induction items generalizing t with
  | nil => simp
  | cons d items ih =>
    rw [List.foldl_cons, ih, find?_insertNew, Option.or_assoc, List.map_cons, lookup_cons_eq_ite]
    congr 1
    by_cases h : k = (f d).1 <;> simp [h]

end Table

end FirmwareCatalog
