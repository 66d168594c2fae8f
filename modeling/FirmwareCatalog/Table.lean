/-!
# Tables

A finite map from texts, kept as its entries in ascending order of the keys.
Equal contents are equal tables, whatever the order of insertion.
-/

namespace FirmwareCatalog

/-! ## Sorted entries -/

/-- Puts a value under a key, in the place of the value that stood there. -/
def insertEntry {α : Type} (key : String) (value : α) : List (String × α) → List (String × α)
  | [] => [(key, value)]
  | (k, v) :: rest =>
    if key = k then (key, value) :: rest
    else if key < k then (key, value) :: (k, v) :: rest
    else (k, v) :: insertEntry key value rest

def SortedKeys {α : Type} (entries : List (String × α)) : Prop :=
  entries.Pairwise fun a b => a.1 < b.1

theorem lt_of_ne_of_not_lt {a b : String} (hne : ¬ a = b) (h : ¬ a < b) : b < a := by
  rcases Decidable.em (b < a) with hlt | hlt
  · exact hlt
  · exact absurd (String.le_antisymm (String.not_lt.mp hlt) (String.not_lt.mp h)) hne

theorem mem_insertEntry {α : Type} {key : String} {value : α} {e : String × α} :
    ∀ {entries : List (String × α)}, e ∈ insertEntry key value entries → e = (key, value) ∨ e ∈ entries
  | [], h => by simpa [insertEntry] using h
  | (k, v) :: rest, h => by
    simp only [insertEntry] at h
    split at h
    · rcases List.mem_cons.mp h with h | h
      · exact .inl h
      · exact .inr (List.mem_cons_of_mem _ h)
    · split at h
      · exact List.mem_cons.mp h
      · rcases List.mem_cons.mp h with h | h
        · exact .inr (h ▸ List.mem_cons_self)
        · exact (mem_insertEntry h).imp_right (List.mem_cons_of_mem _)

theorem SortedKeys.insertEntry {α : Type} {key : String} {value : α} :
    ∀ {entries : List (String × α)}, SortedKeys entries → SortedKeys (insertEntry key value entries)
  | [], _ => List.pairwise_singleton _ _
  | (k, v) :: rest, h => by
    obtain ⟨hk, hrest⟩ := List.pairwise_cons.mp h
    simp only [FirmwareCatalog.insertEntry]
    split
    · rename_i heq
      exact List.pairwise_cons.mpr ⟨fun e he => heq ▸ hk e he, hrest⟩
    · rename_i hne
      split
      · rename_i hlt
        refine List.pairwise_cons.mpr ⟨fun e he => ?_, h⟩
        rcases List.mem_cons.mp he with he | he
        · exact he ▸ hlt
        · exact String.lt_trans hlt (hk e he)
      · rename_i hnlt
        refine List.pairwise_cons.mpr ⟨fun e he => ?_, SortedKeys.insertEntry hrest⟩
        rcases mem_insertEntry he with he | he
        · exact he ▸ lt_of_ne_of_not_lt hne hnlt
        · exact hk e he

def eraseEntry {α : Type} (key : String) (entries : List (String × α)) : List (String × α) :=
  entries.filter fun e => e.1 ≠ key

/-! ## The table -/

structure Table (α : Type) where
  entries : List (String × α)
  sorted : SortedKeys entries

namespace Table

variable {α : Type}

def empty : Table α := ⟨[], List.Pairwise.nil⟩

instance : Inhabited (Table α) := ⟨empty⟩

instance [BEq α] : BEq (Table α) := ⟨fun a b => a.entries == b.entries⟩

instance [DecidableEq α] : DecidableEq (Table α) := fun a b =>
  decidable_of_iff (a.entries = b.entries) ⟨fun h => by cases a; cases b; cases h; rfl, fun h => h ▸ rfl⟩

/-- Tables with the same entries are the same. -/
theorem ext {a b : Table α} (h : a.entries = b.entries) : a = b := by
  cases a; cases b; cases h; rfl

def insert (t : Table α) (key : String) (value : α) : Table α :=
  ⟨insertEntry key value t.entries, t.sorted.insertEntry⟩

/-- Keeps the value of a key that is there. -/
def insertNew (t : Table α) (key : String) (value : α) : Table α :=
  if t.entries.any (·.1 = key) then t else t.insert key value

def erase (t : Table α) (key : String) : Table α :=
  ⟨eraseEntry key t.entries, t.sorted.filter _⟩

def find? (t : Table α) (key : String) : Option α := t.entries.lookup key

def contains (t : Table α) (key : String) : Bool := (t.find? key).isSome

def keys (t : Table α) : List String := t.entries.map (·.1)

/-- The last of several values of one key stays. -/
def ofList (entries : List (String × α)) : Table α :=
  entries.foldl (fun t e => t.insert e.1 e.2) empty

end Table

end FirmwareCatalog
