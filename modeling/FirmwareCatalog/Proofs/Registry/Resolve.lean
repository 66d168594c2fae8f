import FirmwareCatalog.Proofs.Table
import FirmwareCatalog.Registry.Resolve

/-!
# Resolution hangs on the values of macros

A field is resolved by the value of the macro that its text names, so symbols
that give the texts of a block the same values give the same record.
-/

namespace FirmwareCatalog.Symbols

open Text

/-! ## Names -/

theorem mem_foldl_addName {name : String} (new : List String) : ∀ names : List String,
    name ∈ new.foldl addName names ↔ name ∈ names ∨ name ∈ new := by
  induction new with
  | nil => simp
  | cons n new ih =>
    intro names
    rw [List.foldl_cons, ih, List.mem_cons, addName]
    split
    · rename_i hn
      have hmem : n ∈ names := by simpa using hn
      constructor
      · rintro (h | h)
        · exact .inl h
        · exact .inr (.inr h)
      · rintro (h | rfl | h)
        · exact .inl h
        · exact .inl hmem
        · exact .inr h
    · rw [List.mem_append, List.mem_singleton, or_assoc]

/-! ## Values -/

def value? (symbols : Symbols) (name : String) : Option String :=
  (symbols.macros.find? name).map (·.value)

theorem contains_eq_isSome_value? (symbols : Symbols) (name : String) :
    symbols.macros.contains name = (symbols.value? name).isSome := by
  rw [Table.contains, value?, Option.isSome_map]

theorem mem_usedMacros {symbols : Symbols} {fields : List (String × String)} {name : String} :
    name ∈ symbols.usedMacros fields ↔ (∃ f ∈ fields, trimmed f.2 = name) ∧
      (symbols.value? name).isSome = true := by
  rw [usedMacros, mem_foldl_addName, List.mem_filter, List.mem_map, contains_eq_isSome_value?]
  simp

theorem resolveBlock_index (symbols : Symbols) (b : IndexedBlock) (index : Nat) :
    symbols.resolveBlock ⟨index, b.block⟩ = { symbols.resolveBlock b with index := index } := rfl

section
variable {symbols symbols' : Symbols} (henums : symbols.enums = symbols'.enums)
include henums

theorem resolveTrimmed_congr {text : String} (h : symbols.value? text = symbols'.value? text) :
    symbols.resolveTrimmed text = symbols'.resolveTrimmed text := by
  rw [value?, value?] at h
  rw [resolveTrimmed, resolveTrimmed, henums]
  cases hfind : symbols.macros.find? text <;> cases hfind' :
    symbols'.macros.find? text <;> rw [hfind, hfind'] at h
  · cases h
  · cases h
  · exact congrArg FieldValue.string (Option.some.inj h)

theorem resolveBlock_congr {b : IndexedBlock}
    (h : ∀ f ∈ b.block.fields, symbols.value? (trimmed f.2) = symbols'.value? (trimmed f.2)) :
    symbols.resolveBlock b = symbols'.resolveBlock b := by
  have hfields : symbols.resolveFields b.block.fields = symbols'.resolveFields b.block.fields := by
    refine congrArg Table.ofList (List.map_congr_left fun f hf => ?_)
    rw [resolve, resolve, resolveTrimmed_congr henums (h f hf)]
  have hused : symbols.usedMacros b.block.fields = symbols'.usedMacros b.block.fields := by
    refine congrArg (List.foldl addName []) (List.filter_congr fun name hname => ?_)
    obtain ⟨f, hf, rfl⟩ := List.mem_map.mp hname
    rw [contains_eq_isSome_value?, contains_eq_isSome_value?, h f hf]
  rw [resolveBlock, resolveBlock, hfields, hused]

end

end FirmwareCatalog.Symbols
