/-!
# Repeated keys

Walks a list of keys with their owners and lists every owner whose key an
earlier owner holds, with the first of them.
-/

namespace FirmwareCatalog

/-- A key with two owners. -/
structure Repetition (κ α : Type) where
  key : κ
  first : α
  second : α

/-- The repetitions, when the keys of `seen` have been taken. -/
def repetitionsFrom {κ α : Type} [BEq κ] (seen : List (κ × α)) : List (κ × α) → List (Repetition κ α)
  | [] => []
  | (key, owner) :: rest =>
    match seen.lookup key with
    | some first => ⟨key, first, owner⟩ :: repetitionsFrom seen rest
    | none => repetitionsFrom ((key, owner) :: seen) rest

def repetitions {κ α : Type} [BEq κ] (owned : List (κ × α)) : List (Repetition κ α) := repetitionsFrom [] owned

end FirmwareCatalog
