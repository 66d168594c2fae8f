/-!
# Raw blocks

One entry of a header before its fields are resolved.
-/

namespace FirmwareCatalog

/-- How an entry is declared. -/
inductive EntryForm where
  /-- `{ .field = value, … }` in an array. -/
  | structLiteral
  /-- A macro with its arguments. -/
  | invocation
deriving DecidableEq, Inhabited

structure RawBlock where
  /-- The index of an `Index N:` comment before the entry. -/
  announced : Option Nat
  /-- The source of the entry, from that comment on. -/
  raw : String
  /-- Names and texts of the fields, in source order. -/
  fields : List (String × String)
  form : EntryForm
deriving DecidableEq

/-- A raw block with its place in the registry. -/
structure IndexedBlock where
  index : Nat
  block : RawBlock

/-- The announced index counts, else the position among the blocks. A position is not cut to the 32 bits of an index:
a text would need as many blocks as there are such numbers for that to make a difference. -/
def assignIndices (blocks : List RawBlock) : List IndexedBlock :=
  blocks.zipIdx.map fun (block, position) => ⟨block.announced.getD position, block⟩

end FirmwareCatalog
