import FirmwareCatalog.Proofs.Header.Literal
import FirmwareCatalog.Proofs.Table
import FirmwareCatalog.Proofs.Text.Digits
import FirmwareCatalog.Registry.Entry
import FirmwareCatalog.Registry.Resolve
import Mathlib.Data.List.DropRight

/-!
# Integer literals

A field is an integer exactly if it is written as one, in base ten or sixteen,
and fits into 64 bits. What is written as a hash is such an integer, so text
that stays as it is has no hash.
-/

namespace FirmwareCatalog

open Numeral Text

/-! ## Literals -/

/-- An integer and letters that name its type. -/
inductive Suffixed (base : Nat) : List Char → Int → Prop
  | intro {number suffix : List Char} {v : Int} (written : Signed base number v)
      (letters : ∀ c ∈ suffix, c ∈ ['u', 'U', 'l', 'L']) : Suffixed base (number ++ suffix) v

/-- A numeral in base ten, or behind `0x` in base sixteen. -/
inductive Prefixed {α : Type} (form : Nat → List Char → α → Prop) : List Char → α → Prop
  | decimal {cs : List Char} {v : α} (written : form 10 cs v) : Prefixed form cs v
  | hexadecimal {x : Char} {cs : List Char} {v : α} (mark : x = 'x' ∨ x = 'X') (written : form 16 cs v) :
      Prefixed form ('0' :: x :: cs) v

def IntegerLiteral : List Char → Int → Prop := Prefixed Suffixed

/-- Hashes have neither a minus sign nor letters behind them. -/
def HashLiteral : List Char → Nat → Prop := Prefixed Unsigned

theorem Suffixed.of_unsigned {base : Nat} {cs : List Char} {n : Nat} (h : Unsigned base cs n) : Suffixed base cs n := by
  have hsuffixed : Suffixed base (cs ++ []) n := .intro (.natural h) (by simp)
  rwa [List.append_nil] at hsuffixed

theorem HashLiteral.integerLiteral {cs : List Char} {n : Nat} (h : HashLiteral cs n) : IntegerLiteral cs n := by
  cases h with
  | decimal written => exact .decimal (.of_unsigned written)
  | hexadecimal mark written => exact .hexadecimal mark (.of_unsigned written)

section
variable {α : Type} {form : Nat → List Char → α → Prop} {cs : List Char} {v : α}

theorem Prefixed.marked_iff {x : Char} (hx : x = 'x' ∨ x = 'X') (hdecimal : ¬ form 10 ('0' :: x :: cs) v) :
    Prefixed form ('0' :: x :: cs) v ↔ form 16 cs v := by
  refine ⟨fun h => ?_, .hexadecimal hx⟩
  cases h with
  | decimal written => exact absurd written hdecimal
  | hexadecimal _ written => exact written

theorem Prefixed.unmarked_iff (hlower : ∀ digits, cs ≠ '0' :: 'x' :: digits)
    (hupper : ∀ digits, cs ≠ '0' :: 'X' :: digits) : Prefixed form cs v ↔ form 10 cs v := by
  refine ⟨fun h => ?_, .decimal⟩
  cases h with
  | decimal written => exact written
  | hexadecimal mark written =>
    obtain rfl | rfl := mark
    · exact absurd rfl (hlower _)
    · exact absurd rfl (hupper _)

end

/-! ## Suffixes -/

theorem isIntegerSuffix_iff (c : Char) : isIntegerSuffix c = true ↔ c ∈ ['u', 'U', 'l', 'L'] := by
  simp [isIntegerSuffix, or_assoc]

theorem le_weight_of_isIntegerSuffix {c : Char} (h : isIntegerSuffix c = true) : 16 ≤ weight c := by
  rw [isIntegerSuffix_iff] at h
  revert c
  decide

theorem dropEndWhile_append {p : Char → Bool} {front behind : List Char} (hbehind : ∀ c ∈ behind, p c = true)
    (hlast : ∀ c ∈ front.getLast?, p c = false) : dropEndWhile p (front ++ behind) = front := by
  rw [dropEndWhile, List.reverse_append, List.dropWhile_append_of_pos fun c hc => hbehind c (List.mem_reverse.mp hc)]
  refine (List.rdropWhile_eq_self_iff (p := p) (l := front)).mpr fun hne => ?_
  simp [hlast _ (List.getLast?_eq_some_getLast hne)]

theorem signed?_dropEndWhile_iff {base : Nat} (hbase : base ≤ 16) {cs : List Char} {v : Int} :
    signed? base (dropEndWhile isIntegerSuffix cs) = some v ↔
      Suffixed base cs v ∧ -2 ^ 63 ≤ v ∧ v < 2 ^ 63 := by
  rw [signed?_eq_some_iff (Nat.le_trans hbase (by decide))]
  refine and_congr_left fun _ => ?_
  constructor
  · intro h
    have hsplit : dropEndWhile isIntegerSuffix cs ++ cs.rtakeWhile isIntegerSuffix = cs :=
      List.rdropWhile_append_rtakeWhile
    rw [← hsplit]
    exact .intro h fun c hc => (isIntegerSuffix_iff c).mp (List.mem_rtakeWhile_imp hc)
  · rintro ⟨written, letters⟩
    have hletters := fun c hc => (isIntegerSuffix_iff c).mpr (letters c hc)
    rwa [dropEndWhile_append hletters fun c hc => ?_]
    have hdigit := written.weight_getLast c hc
    by_contra hsuffix
    have hle := le_weight_of_isIntegerSuffix (by simpa using hsuffix)
    omega

/-! ## Integers -/

theorem Suffixed.mem {base : Nat} {cs : List Char} {v : Int} (h : Suffixed base cs v) :
    ∀ c ∈ cs, (c = '+' ∨ c = '-') ∨ weight c < base ∨ c ∈ ['u', 'U', 'l', 'L'] := by
  obtain ⟨written, letters⟩ := h
  intro c hc
  rcases List.mem_append.mp hc with hc | hc
  · exact (written.sign_or_digit c hc).imp_right .inl
  · exact .inr (.inr (letters c hc))

theorem isDigit_of_weight {c : Char} (h : weight c < 10) : c.isDigit = true :=
  forall_weight (p := fun c => c.isDigit = true) (by decide) (by decide +kernel) h

theorem Suffixed.head_startsNumber {cs : List Char} {v : Int} (h : Suffixed 10 cs v) :
    cs.head?.any startsNumber = true := by
  obtain ⟨written, -⟩ := h
  obtain ⟨c, number, hnumber⟩ := List.exists_cons_of_ne_nil written.ne_nil
  have hc := written.sign_or_digit c (hnumber ▸ List.mem_cons_self)
  rw [hnumber, List.cons_append, List.head?_cons, Option.any_some, startsNumber]
  obtain (rfl | rfl) | hdigit := hc
  · decide
  · decide
  · simp [isDigit_of_weight hdigit]

theorem exists_float_of_readFloat? {cs : List Char} {value : FieldValue} (h : readFloat? cs = some value) :
    ∃ x, value = .float x := by
  obtain ⟨x, -, rfl⟩ := Option.map_eq_some_iff.mp h
  exact ⟨x, rfl⟩

theorem readDecimal?_cases {cs : List Char} {value : FieldValue} (h : readDecimal? cs = some value) :
    (∃ x, value = .float x) ∨ ∃ v, value = .int v ∧ signed? 10 (dropEndWhile isIntegerSuffix cs) = some v := by
  unfold readDecimal? at h
  split at h
  · cases h
  · split at h
    · exact .inl (exists_float_of_readFloat? h)
    · split at h
      · rename_i v hsigned
        exact .inr ⟨v, (Option.some.inj h).symm, hsigned⟩
      · split at h
        · exact .inl (exists_float_of_readFloat? h)
        · cases h

theorem readDecimal?_eq_int_iff {cs : List Char} {v : Int} :
    readDecimal? cs = some (.int v) ↔ Suffixed 10 cs v ∧ -2 ^ 63 ≤ v ∧ v < 2 ^ 63 := by
  rw [← signed?_dropEndWhile_iff (by decide)]
  constructor
  · intro h
    obtain ⟨x, hx⟩ | ⟨w, hw, hsigned⟩ := readDecimal?_cases h
    · cases hx
    · rwa [FieldValue.int.inj hw]
  · intro h
    obtain ⟨written, -⟩ := (signed?_dropEndWhile_iff (by decide)).mp h
    have hpoint : '.' ∉ cs := by
      intro hmem
      have hchar := written.mem '.' hmem
      revert hchar
      decide
    simp [readDecimal?, written.head_startsNumber, hpoint, h]

theorem not_suffixed_of_mark {x : Char} (hx : x = 'x' ∨ x = 'X') (cs : List Char) (v : Int) :
    ¬ Suffixed 10 ('0' :: x :: cs) v := by
  intro h
  have hchar := h.mem x (by simp)
  revert hchar
  rcases hx with rfl | rfl <;> decide

theorem readNumber?_eq_int_iff {cs : List Char} {v : Int} :
    readNumber? cs = some (.int v) ↔ IntegerLiteral cs v ∧ -2 ^ 63 ≤ v ∧ v < 2 ^ 63 := by
  have hmarked {x : Char} (hx : x = 'x' ∨ x = 'X') (digits : List Char) :
      (signed? 16 (dropEndWhile isIntegerSuffix digits)).map FieldValue.int = some (.int v) ↔
        IntegerLiteral ('0' :: x :: digits) v ∧ -2 ^ 63 ≤ v ∧ v < 2 ^ 63 := by
    have hmap : (signed? 16 (dropEndWhile isIntegerSuffix digits)).map FieldValue.int = some (.int v) ↔
        signed? 16 (dropEndWhile isIntegerSuffix digits) = some v := by simp
    rw [hmap, signed?_dropEndWhile_iff (by decide), IntegerLiteral,
      Prefixed.marked_iff hx (not_suffixed_of_mark hx digits v)]
  unfold readNumber?
  split
  · exact hmarked (.inl rfl) _
  · exact hmarked (.inr rfl) _
  · rename_i hlower hupper
    rw [readDecimal?_eq_int_iff, IntegerLiteral, Prefixed.unmarked_iff hlower hupper]

theorem readNumber?_ne_raw (cs : List Char) (r : String) : readNumber? cs ≠ some (.raw r) := by
  intro h
  unfold readNumber? at h
  split at h
  · simp at h
  · simp at h
  · obtain ⟨x, hx⟩ | ⟨v, hv, -⟩ := readDecimal?_cases h
    · cases hx
    · cases hv

theorem readLiteral_cases (text : String) :
    readNumber? text.toList = some (readLiteral text) ∨ readLiteral text = .raw text ∨
      (∀ v, readLiteral text ≠ .int v) ∧ ∀ r, readLiteral text ≠ .raw r := by
  unfold readLiteral
  split
  · exact .inr (.inr ⟨by simp, by simp⟩)
  · split
    · exact .inr (.inr ⟨by simp, by simp⟩)
    · split
      · exact .inr (.inr ⟨by simp, by simp⟩)
      · split
        · rename_i hnumber
          exact .inl hnumber
        · split
          · exact .inr (.inr ⟨by simp, by simp⟩)
          · exact .inr (.inl rfl)

theorem readLiteral_eq_raw {text r : String} (h : readLiteral text = .raw r) : r = text := by
  obtain hnumber | hraw | ⟨-, hnone⟩ := readLiteral_cases text
  · exact absurd (h ▸ hnumber) (readNumber?_ne_raw text.toList r)
  · exact FieldValue.raw.inj (h.symm.trans hraw)
  · exact absurd h (hnone r)

theorem readLiteral_eq_int_iff {text : String} {v : Int} :
    readLiteral text = .int v ↔ IntegerLiteral text.toList v ∧ -2 ^ 63 ≤ v ∧ v < 2 ^ 63 := by
  rw [← readNumber?_eq_int_iff]
  constructor
  · intro h
    obtain hnumber | hraw | ⟨hnone, -⟩ := readLiteral_cases text
    · rw [hnumber, h]
    · rw [h] at hraw
      cases hraw
    · exact absurd h (hnone v)
  · intro h
    -- no word that stands for another value begins as a number does
    have hword (word : String) (hnone : readNumber? word.toList = none) : text ≠ word := by
      rintro rfl
      rw [hnone] at h
      cases h
    have hnullptr := hword "nullptr" rfl
    have hnull := hword "NULL" rfl
    have htrue := hword "true" rfl
    have hfalse := hword "false" rfl
    simp [readLiteral, hnullptr, hnull, htrue, hfalse, h]

/-! ## Hashes -/

theorem NameHash.read?_eq_some_iff {text : String} {hash : UInt16} :
    NameHash.read? text = some hash ↔ HashLiteral (trim text.toList) hash.toNat := by
  have hvalue {base : Nat} (hbase : base ≤ 36) (digits : List Char) :
      (unsigned? 16 base digits).map UInt16.ofNat = some hash ↔ Unsigned base digits hash.toNat := by
    simp only [Option.map_eq_some_iff, unsigned?_eq_some_iff hbase]
    constructor
    · rintro ⟨n, ⟨written, hn⟩, rfl⟩
      rwa [UInt16.toNat_ofNat_of_lt' hn]
    · exact fun written => ⟨hash.toNat, ⟨written, hash.toNat_lt⟩, UInt16.ofNat_toNat⟩
  have hmarked {x : Char} (hx : x = 'x' ∨ x = 'X') (digits : List Char) :
      (unsigned? 16 16 digits).map UInt16.ofNat = some hash ↔ HashLiteral ('0' :: x :: digits) hash.toNat := by
    have hdecimal : ¬ Unsigned 10 ('0' :: x :: digits) hash.toNat := fun written =>
      not_suffixed_of_mark hx digits hash.toNat (.of_unsigned written)
    rw [hvalue (by decide), HashLiteral, Prefixed.marked_iff hx hdecimal]
  unfold NameHash.read?
  generalize trim text.toList = cs
  split
  · exact hmarked (.inl rfl) _
  · exact hmarked (.inr rfl) _
  · rename_i hlower hupper
    exact (hvalue (by decide) cs).trans (Prefixed.unmarked_iff hlower hupper).symm

theorem readLiteral_of_read? {text : String} {hash : UInt16} (h : NameHash.read? text = some hash) :
    readLiteral (trimmed text) = .int hash.toNat := by
  rw [readLiteral_eq_int_iff, trimmed, String.toList_ofList]
  have hbound := hash.toNat_lt
  exact ⟨(NameHash.read?_eq_some_iff.mp h).integerLiteral, by omega, by omega⟩

/-! ## Fields -/

namespace Symbols

variable {symbols : Symbols} {text : String}

theorem resolve_of_free (hmacros : symbols.macros.find? (trimmed text) = none)
    (henums : symbols.enums.find? (trimmed text) = none) : symbols.resolve text = readLiteral (trimmed text) := by
  rw [resolve, resolveTrimmed, hmacros, henums]

theorem resolve_eq_raw {r : String} (h : symbols.resolve text = .raw r) :
    symbols.macros.find? (trimmed text) = none ∧ symbols.enums.find? (trimmed text) = none ∧ r = trimmed text := by
  rw [resolve, resolveTrimmed] at h
  split at h
  · cases h
  · rename_i hmacros
    split at h
    · cases h
    · rename_i henums
      exact ⟨hmacros, henums, readLiteral_eq_raw h⟩

theorem trimmed_trimmed (text : String) : trimmed (trimmed text) = trimmed text := by
  unfold trimmed
  rw [String.toList_ofList, Header.trim_eq_self (Header.stopsAt_trim _) Header.not_isBlank_of_mem_getLast?_trim]

theorem read?_of_resolve_eq_raw {r : String} (h : symbols.resolve text = .raw r) : NameHash.read? r = none := by
  obtain ⟨hmacros, henums, rfl⟩ := resolve_eq_raw h
  rw [resolve_of_free hmacros henums] at h
  cases hread : NameHash.read? (trimmed text) with
  | none => rfl
  | some hash =>
    have hint := readLiteral_of_read? hread
    rw [trimmed_trimmed, h] at hint
    cases hint

theorem exists_of_field? {indexed : IndexedBlock} {name : String} {value : FieldValue}
    (h : (symbols.resolveBlock indexed).field? name = some value) : ∃ text, symbols.resolve text = value := by
  obtain ⟨f, -, hf⟩ := List.mem_map.mp (Table.mem_of_find?_ofList h)
  exact ⟨f.2, congrArg Prod.snd hf⟩

end Symbols

/-- **Two readers of integers.** Text that names neither a macro nor a constant is resolved to an integer exactly if it
is written as that integer and 64 bits hold it. What is read as a hash is written as one and resolved to that same
number, so neither text that was not resolved nor a field of a record that holds such text gives a hash. -/
theorem integer_readers_agree (symbols : Symbols) :
    (∀ text, symbols.macros.find? (trimmed text) = none → symbols.enums.find? (trimmed text) = none →
        (∀ v, symbols.resolve text = .int v ↔
          IntegerLiteral (trim text.toList) v ∧ -2 ^ 63 ≤ v ∧ v < 2 ^ 63) ∧
        ∀ hash, NameHash.read? text = some hash → symbols.resolve text = .int hash.toNat) ∧
      (∀ text hash, NameHash.read? text = some hash ↔ HashLiteral (trim text.toList) hash.toNat) ∧
      (∀ text r, symbols.resolve text = .raw r → NameHash.read? r = none) ∧
      ∀ indexed name r, (symbols.resolveBlock indexed).field? name = some (.raw r) →
        (symbols.resolveBlock indexed).hashField? name = none := by
  refine ⟨fun text hmacros henums => ⟨fun v => ?_, fun hash hread => ?_⟩,
    fun text hash => NameHash.read?_eq_some_iff, fun text r => Symbols.read?_of_resolve_eq_raw,
    fun indexed name r hfield => ?_⟩
  · rw [Symbols.resolve_of_free hmacros henums, readLiteral_eq_int_iff, trimmed, String.toList_ofList]
  · rw [Symbols.resolve_of_free hmacros henums, readLiteral_of_read? hread]
  · obtain ⟨text, hraw⟩ := Symbols.exists_of_field? hfield
    rw [EntryRecord.hashField?, hfield]
    exact Symbols.read?_of_resolve_eq_raw hraw

/-- A negative number with its type, a hash with a sign, and the first number that 64 bits do not hold. -/
theorem integer_readers_agree_literals :
    let symbols : Symbols := ⟨Table.ofList [("PSTR_A", ⟨"A", none⟩)], Table.ofList [("ADC_MAX", 4095)]⟩
    let large := "9223372036854775808"
    let block : RawBlock := ⟨none, "", [("nameHash", large)], .structLiteral⟩
    symbols.resolve "\t0X-7fuL\n" = .int (-127) ∧
      (NameHash.read? "+0042" = some 42 ∧ symbols.resolve "+0042" = .int 42) ∧
      (symbols.resolve large = .raw large ∧ NameHash.read? large = none) ∧
      (symbols.resolveBlock ⟨0, block⟩).hashField? "nameHash" = none := by
  intro symbols large block
  obtain ⟨hreads, -, hraw, hfield⟩ := integer_readers_agree symbols
  have hwritten : Signed 16 ['-', '7', 'f'] (-127) := .minus ⟨by decide, by decide⟩
  have hnegative : IntegerLiteral (trim "\t0X-7fuL\n".toList) (-127) :=
    .hexadecimal (.inr rfl) (.intro hwritten (by decide : ∀ c ∈ ['u', 'L'], c ∈ ['u', 'U', 'l', 'L']))
  have hread : NameHash.read? "+0042" = some 42 := by decide
  have hresolve : symbols.resolve large = .raw large := by
    have hnumber : readNumber? large.toList = none := Option.isNone_iff_eq_none.mp (by decide +kernel)
    have hstring : Header.stringValue? large.toList = none := by
      have hfirst : (trim large.toList).head? ≠ some '"' := by decide
      rw [Header.stringValue?, Header.literals_of_ne fun rest htrim => hfirst (by rw [htrim]; rfl)]
    rw [Symbols.resolve_of_free (by decide) (by decide), show trimmed large = large by decide, readLiteral, hnumber,
      hstring]
    rfl
  have hkept : (symbols.resolveBlock ⟨0, block⟩).field? "nameHash" = some (.raw large) := by
    rw [← hresolve]
    rfl
  exact ⟨((hreads "\t0X-7fuL\n" (by decide) (by decide)).1 (-127)).mpr ⟨hnegative, by decide, by decide⟩,
    ⟨hread, (hreads "+0042" (by decide) (by decide)).2 42 hread⟩, ⟨hresolve, hraw large large hresolve⟩,
    hfield ⟨0, block⟩ "nameHash" large hkept⟩

end FirmwareCatalog
