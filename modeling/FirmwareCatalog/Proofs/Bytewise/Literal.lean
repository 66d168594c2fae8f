import FirmwareCatalog.Header.Literal
import FirmwareCatalog.Proofs.Bytewise.Classes
import FirmwareCatalog.Proofs.Bytewise.Match
import FirmwareCatalog.Proofs.Header.Literal

/-!
# String literals by byte offsets

Escapes are read from byte to byte, so the second byte of an escape may be the
first one of a longer character; the bytes behind it are passed on as they are.
Only the digits behind `\x` are sliced from the text, and those are ASCII.
-/

namespace FirmwareCatalog.Bytewise

open Header Utf8

/-! ## Escapes -/

def hexDigits : (most : Nat) → Bytes → Nat
  | most + 1, b :: bs => if (hexValue? (byteChar b)).isSome then hexDigits most bs + 1 else 0
  | _, _ => 0

def literalBytesFrom (literal : List Char) : (i skip : Nat) → Bytes → Checked Bytes
  | _, _, [] => return []
  | i, skip + 1, _ :: bs => literalBytesFrom literal (i + 1) skip bs
  | _, 0, [b] => return [b]
  | i, 0, b :: escape :: bs => do
    if byteChar b ≠ '\\' then
      let rest ← literalBytesFrom literal (i + 1) 0 (escape :: bs)
      return b :: rest
    else if byteChar escape = 'x' then
      let count := hexDigits 2 bs
      let digits ← slice literal (i + 2) (i + 2 + count)
      let rest ← literalBytesFrom literal (i + 2) count bs
      match Numeral.unsigned? 8 16 digits with
      | some value => return UInt8.ofNat value :: rest
      | none => return 92 :: 120 :: rest
    else
      let rest ← literalBytesFrom literal (i + 2) 0 bs
      match escapeByte? (byteChar escape) with
      | some meant => return meant :: rest
      | none => return 92 :: escape :: rest

def decodeLiteral (literal : List Char) : Checked (List Char) := do
  let bytes ← literalBytesFrom literal 0 0 (encode literal)
  return Utf8.decodeLossy bytes

/-! ## Hexadecimal digits -/

theorem digit_of_hexValue? {c : Char} {value : Nat} (h : hexValue? c = some value) : IsAscii c ∧ value < 16 := by
  have ascii {d : Char} (hd : IsAscii d) (hc : c ≤ d) : IsAscii c := Nat.lt_of_le_of_lt (Char.le_def.mp hc) hd
  obtain ⟨hvalue, hlt⟩ := Option.filter_eq_some_iff.mp h
  refine ⟨?_, of_decide_eq_true hlt⟩
  by_cases hdigit : '0' ≤ c ∧ c ≤ '9'
  · exact ascii (by decide) hdigit.2
  · by_cases hlower : 'a' ≤ c ∧ c ≤ 'z'
    · exact ascii (by decide) hlower.2
    · by_cases hupper : 'A' ≤ c ∧ c ≤ 'Z'
      · exact ascii (by decide) hupper.2
      · rw [if_neg hdigit, if_neg hlower, if_neg hupper] at hvalue
        cases hvalue

theorem hexDigits_cons (most : Nat) (c : Char) (cs : List Char) :
    hexDigits (most + 1) (encode (c :: cs)) = if (hexValue? c).isSome then hexDigits most (encode cs) + 1 else 0 := by
  by_cases hascii : IsAscii c
  · rw [encode_cons_ascii hascii, hexDigits, byteChar_byte hascii]
  · obtain ⟨b, bs, hbytes⟩ := exists_encode_eq c
    have hb : ¬ IsAscii (byteChar b) := not_isAscii_byteChar hascii (by simp [hbytes])
    have hnone {d : Char} (hd : ¬ IsAscii d) : (hexValue? d).isSome = false := by
      by_contra h
      obtain ⟨value, hvalue⟩ := Option.isSome_iff_exists.mp (Bool.not_eq_false _ ▸ h)
      exact hd (digit_of_hexValue? hvalue).1
    rw [encode_cons_append, hbytes, List.cons_append, hexDigits, hnone hb, hnone hascii]
    rfl

theorem unsigned?_of_hexValue? {c : Char} {value : Nat} (h : hexValue? c = some value) (cs : List Char) :
    Numeral.unsigned? 8 16 (c :: cs) = (Numeral.digitsFrom? 16 value cs).filter (· < 256) := by
  have hplus : c ≠ '+' := by
    rintro rfl
    cases h
  have hvalue : Numeral.digitValue? 16 c = some value := h
  unfold Numeral.unsigned?
  split
  · rename_i heq
    exact absurd (List.cons.inj heq).1 hplus
  · simp [Numeral.digits?, Numeral.digitsFrom?, hvalue]

theorem literalBytesFrom_hex_of_none {cs : List Char} (h : ∀ c ∈ cs.head?, hexValue? c = none) :
    Header.literalBytesFrom .hex cs = [92, 120] ++ Header.literalBytesFrom .none cs := by
  cases cs with
  | nil => rfl
  | cons c cs => simp only [Header.literalBytesFrom, h c rfl, List.cons_append, List.nil_append]

theorem literalBytesFrom_hexDigit_of_none {high : Nat} {cs : List Char} (h : ∀ c ∈ cs.head?, hexValue? c = none) :
    Header.literalBytesFrom (.hexDigit high) cs = [UInt8.ofNat high] ++ Header.literalBytesFrom .none cs := by
  cases cs with
  | nil => rfl
  | cons c cs => simp only [Header.literalBytesFrom, h c rfl, List.cons_append, List.nil_append]

theorem hexDigits_of_none (most : Nat) {cs : List Char} (h : ∀ c ∈ cs.head?, hexValue? c = none) :
    hexDigits most (encode cs) = 0 := by
  cases most with
  | zero => rfl
  | succ most =>
    cases cs with
    | nil => rfl
    | cons c cs => rw [hexDigits_cons, h c rfl]; rfl

theorem hexDigit_cases (cs : List Char) :
    (∃ c value rest, cs = c :: rest ∧ hexValue? c = some value) ∨ ∀ c ∈ cs.head?, hexValue? c = none := by
  cases cs with
  | nil => exact .inr fun c hc => nomatch hc
  | cons c cs =>
    cases h : hexValue? c with
    | some value => exact .inl ⟨c, value, cs, rfl, h⟩
    | none =>
      right
      intro d hd
      cases hd
      exact h

/-- What stands behind `\x`: up to two digits, which spell a byte unless there is none. -/
theorem exists_hexDigits (cs : List Char) : ∃ digits rest, cs = digits ++ rest ∧ (∀ d ∈ digits, IsAscii d) ∧
    hexDigits 2 (encode cs) = digits.length ∧ Header.literalBytesFrom .hex cs =
      (match Numeral.unsigned? 8 16 digits with
        | some value => [UInt8.ofNat value]
        | none => [92, 120]) ++ Header.literalBytesFrom .none rest := by
  obtain ⟨c, high, cs, rfl, hc⟩ | hnone := hexDigit_cases cs
  · obtain ⟨hascii, hhigh⟩ := digit_of_hexValue? hc
    obtain ⟨d, low, cs, rfl, hd⟩ | hnone := hexDigit_cases cs
    · obtain ⟨hascii', hlow⟩ := digit_of_hexValue? hd
      have hvalue : Numeral.unsigned? 8 16 [c, d] = some (16 * high + low) := by
        have hd : Numeral.digitValue? 16 d = some low := hd
        rw [unsigned?_of_hexValue? hc, Numeral.digitsFrom?, hd, Option.bind_some, Numeral.digitsFrom?,
          Nat.mul_comm high]
        exact Option.filter_some_pos (by simp; omega)
      refine ⟨[c, d], cs, rfl, by simp [hascii, hascii'], ?_, ?_⟩
      · rw [hexDigits_cons, hexDigits_cons, hc, hd]
        rfl
      · rw [Header.literalBytesFrom, hc]
        simp only
        rw [Header.literalBytesFrom, hd, hvalue]
        rfl
    · have hvalue : Numeral.unsigned? 8 16 [c] = some high := by
        rw [unsigned?_of_hexValue? hc, Numeral.digitsFrom?]
        exact Option.filter_some_pos (by simp; omega)
      refine ⟨[c], cs, rfl, by simp [hascii], ?_, ?_⟩
      · rw [hexDigits_cons, hc, hexDigits_of_none 1 hnone]
        rfl
      · rw [Header.literalBytesFrom, hc]
        simp only
        rw [literalBytesFrom_hexDigit_of_none hnone, hvalue]
  · exact ⟨[], cs, rfl, by simp, hexDigits_of_none 2 hnone, literalBytesFrom_hex_of_none hnone⟩

/-! ## Bytes that are spelled -/

section

variable {literal : List Char}

theorem literalBytesFrom_skip (bytes : Bytes) : ∀ (piece : Bytes) (i : Nat),
    literalBytesFrom literal i piece.length (piece ++ bytes) = literalBytesFrom literal (i + piece.length) 0 bytes
  | [], _ => rfl
  | b :: piece, i => by
    rw [List.length_cons, List.cons_append, literalBytesFrom, literalBytesFrom_skip bytes piece, Nat.add_assoc,
      Nat.add_comm 1]

theorem literalBytesFrom_pass {bytes rest : Bytes} : ∀ {piece : Bytes} {i : Nat},
    (∀ b ∈ piece, byteChar b ≠ '\\') → literalBytesFrom literal (i + piece.length) 0 bytes = .ok rest →
      literalBytesFrom literal i 0 (piece ++ bytes) = .ok (piece ++ rest)
  | [], _, _, h => h
  | b :: piece, i, hpiece, h => by
    obtain ⟨hb, hpiece⟩ := List.forall_mem_cons.mp hpiece
    rw [List.length_cons, Nat.add_comm piece.length, ← Nat.add_assoc] at h
    have htail := literalBytesFrom_pass hpiece h
    rw [List.cons_append, List.cons_append]
    cases hnext : piece ++ bytes with
    | nil =>
      rw [hnext] at htail
      rw [← Except.ok.inj htail]
      rfl
    | cons next tail =>
      rw [hnext] at htail
      rw [literalBytesFrom, if_pos hb, htail]
      rfl

theorem escapeByte?_of_not_isAscii {c : Char} (h : ¬ IsAscii c) : escapeByte? c = none := by
  unfold escapeByte?
  split
  all_goals first | rfl | exact absurd (by decide) h

theorem literalBytesFrom_letter {d : Char} (hx : d ≠ 'x') {i : Nat} {bytes rest : Bytes}
    (h : literalBytesFrom literal (i + 1 + width [d]) 0 bytes = .ok rest) :
    literalBytesFrom literal i 0 (byte '\\' :: (encode [d] ++ bytes)) =
      .ok ((match escapeByte? d with
        | some meant => [meant]
        | none => 92 :: encode [d]) ++ rest) := by
  by_cases hascii : IsAscii d
  · have hd : ¬ byteChar (byte d) = 'x' := by rwa [byteChar_byte hascii]
    rw [width_ascii hascii] at h
    rw [encode_ascii hascii, List.singleton_append, literalBytesFrom, if_neg (by decide), if_neg hd, h,
      byteChar_byte hascii]
    cases escapeByte? d <;> rfl
  · obtain ⟨b, bs, hbytes⟩ := exists_encode_eq d
    have hnot {b' : UInt8} (hb' : b' ∈ encode [d]) : ¬ IsAscii (byteChar b') := not_isAscii_byteChar hascii hb'
    have hb : byteChar b ≠ 'x' := byteChar_ne_of_mem (by decide) hx (by simp [hbytes])
    have htail : ∀ b' ∈ bs, byteChar b' ≠ '\\' := by
      intro b' hb' heq
      exact hnot (by simp [hbytes, hb']) (heq ▸ (by decide : IsAscii '\\'))
    have hwidth : i + 1 + width [d] = i + 2 + bs.length := by
      rw [width, hbytes, List.length_cons]
      omega
    rw [hwidth] at h
    rw [hbytes, List.cons_append, literalBytesFrom, if_neg (by decide), if_neg hb, literalBytesFrom_pass htail h,
      escapeByte?_of_not_isAscii hascii, escapeByte?_of_not_isAscii (hnot (by simp [hbytes]))]
    rfl

theorem literalBytesFrom_digits {done digits rest : List Char} {spelled : Bytes}
    (hliteral : literal = done ++ '\\' :: 'x' :: (digits ++ rest)) (hdigits : ∀ d ∈ digits, IsAscii d)
    (hcount : hexDigits 2 (encode (digits ++ rest)) = digits.length)
    (h : literalBytesFrom literal (width (done ++ '\\' :: 'x' :: digits)) 0 (encode rest) = .ok spelled) :
    literalBytesFrom literal (width done) 0 (byte '\\' :: byte 'x' :: encode (digits ++ rest)) =
      .ok ((match Numeral.unsigned? 8 16 digits with
        | some value => [UInt8.ofNat value]
        | none => [92, 120]) ++ spelled) := by
  have hwidth : width (done ++ ['\\', 'x']) = width done + 2 := width_append done ['\\', 'x']
  have hlength : digits.length = width digits := (width_of_ascii hdigits).symm
  have hslice : slice literal (width done + 2) (width done + 2 + width digits) = .ok digits := by
    rw [hliteral, ← hwidth]
    have := slice_append (done ++ ['\\', 'x']) digits rest
    rwa [List.append_assoc] at this
  have hplace : width done + 2 + width digits = width (done ++ '\\' :: 'x' :: digits) := by
    rw [← hwidth, ← width_append, List.append_assoc]
    rfl
  have hskip : literalBytesFrom literal (width done + 2) (width digits) (encode (digits ++ rest)) = .ok spelled := by
    have hbytes : literalBytesFrom literal (width done + 2) (encode digits).length (encode digits ++ encode rest) = _ :=
      literalBytesFrom_skip (encode rest) (encode digits) _
    rw [encode_append]
    exact hbytes.trans (hplace ▸ h)
  rw [literalBytesFrom, if_neg (by decide), if_pos (by decide), hcount, hlength]
  simp only [hslice, hskip, ok_bind]
  cases Numeral.unsigned? 8 16 digits <;> rfl

theorem literalBytesFrom_eq : ∀ (rest done : List Char), literal = done ++ rest →
    literalBytesFrom literal (width done) 0 (encode rest) = .ok (Header.literalBytesFrom .none rest) := by
  intro rest
  induction h : rest.length using Nat.strongRecOn generalizing rest with
  | ind n ih =>
    intro done hliteral
    subst h
    cases rest with
    | nil => rfl
    | cons c rest =>
      by_cases hc : c = '\\'
      · subst hc
        rw [encode_cons_ascii (by decide)]
        cases rest with
        | nil => rfl
        | cons d rest =>
          by_cases hd : d = 'x'
          · subst hd
            obtain ⟨digits, rest, rfl, hdigits, hcount, hspelled⟩ := exists_hexDigits rest
            have hrest := ih rest.length (by simp; omega) rest rfl (done ++ '\\' :: 'x' :: digits) (by simp [hliteral])
            -- by characters, the digits are read in a state of their own
            have hbackslash : Header.literalBytesFrom .none ('\\' :: 'x' :: (digits ++ rest)) =
                Header.literalBytesFrom .hex (digits ++ rest) := rfl
            rw [encode_cons_ascii (by decide), literalBytesFrom_digits hliteral hdigits hcount hrest, hbackslash,
              hspelled]
          · have hrest := ih rest.length (by rw [List.length_cons, List.length_cons]; omega) rest rfl
              (done ++ ['\\', d]) (by simp [hliteral])
            have hwidth : width (done ++ ['\\', d]) = width done + 1 + width [d] := by
              rw [width_append, width_cons '\\' [d], width_ascii (by decide), Nat.add_assoc]
            rw [hwidth] at hrest
            rw [encode_cons_append, literalBytesFrom_letter hd hrest]
            simp only [List.cons_append, Header.literalBytesFrom, if_neg hd, if_true]
            cases escapeByte? d with
            | some meant => rfl
            | none => simp [encode_cons, encode_nil]
      · have hrest := ih rest.length (by simp) rest rfl (done ++ [c]) (by simp [hliteral])
        rw [width_append] at hrest
        have hpass := literalBytesFrom_pass (fun b hb => byteChar_ne_of_mem (by decide) hc hb) hrest
        rw [encode_cons_append, hpass]
        simp only [Header.literalBytesFrom, if_neg hc]
        rw [encode_cons, encode_nil, List.append_nil]

theorem decodeLiteral_eq (literal : List Char) : decodeLiteral literal = .ok (Header.decodeLiteral literal) := by
  have h : literalBytesFrom literal 0 0 (encode literal) = _ := literalBytesFrom_eq literal [] rfl
  rw [decodeLiteral, h]
  rfl

end

/-! ## Adjacent literals -/

def literal? : Reader (List Char)
  | _, '"' :: cs => literalBody? false cs
  | _, _ => none

theorem literal?_eq_some {before : Option Char} {text body rest : List Char}
    (h : literal? before text = some (body, rest)) :
    text = '"' :: (body ++ '"' :: rest) ∧ literalBody? false (body ++ '"' :: rest) = some (body, rest) := by
  unfold literal? at h
  split at h
  · have happend := literalBody?_eq_append h
    exact ⟨congrArg _ happend, happend ▸ h⟩
  · cases h

theorem consumes_literal? : Consumes literal? := by
  intro before text body rest h
  obtain ⟨htext, -⟩ := literal?_eq_some h
  exact ⟨'"' :: (body ++ ['"']), List.cons_ne_nil _ _, by simp [htext]⟩

def concatFrom (rest : List Char) : Checked (Option (List Char)) :=
  if rest = [] then return some []
  else
    match _h : (scan literal? rest).head? with
    | none => return none
    | some m =>
      if startByte rest m ≠ 0 then return none
      else do
        let spelled ← decodeLiteral m.value
        match _hbehind : sliceFrom rest (stopByte rest m) with
        | .error fault => .error fault
        | .ok behind =>
          let more ← concatFrom (Text.trimStart behind)
          return more.map (spelled ++ ·)
termination_by rest.length
decreasing_by
  obtain ⟨a, b, hm⟩ := exists_located consumes_literal? (List.mem_of_head? _h)
  have hshorter := length_of_sliceFrom _hbehind (Nat.lt_of_le_of_lt (Nat.zero_le _) hm.startByte_lt)
  exact Nat.lt_of_le_of_lt (skipBlanks_length behind) hshorter

def stringValue? (text : List Char) : Checked (Option (List Char)) :=
  if (Text.trim text).head? = some '"' then concatFrom (Text.trim text) else return none

theorem literal?_eq_none_iff {before : Option Char} {text : List Char} :
    literal? before text = none ↔ NoLiteral text := by
  constructor
  · rintro h tail rfl
    exact h
  · intro h
    unfold literal?
    split
    · exact h _ rfl
    · rfl

theorem literals_of_none {text : List Char} (h : literal? none text = none) : literals text = ([], text) :=
  literals_of_noLiteral (literal?_eq_none_iff.mp h)

def joined : List (List Char) × List Char → Option (List Char)
  | (bodies, []) => some (joinLiterals bodies)
  | (_, _ :: _) => none

theorem joined_cons (body : List Char) (p : List (List Char) × List Char) :
    joined (body :: p.1, p.2) = (joined p).map (Header.decodeLiteral body ++ ·) := by
  obtain ⟨bodies, rest⟩ := p
  cases rest <;> rfl

/-- Without a literal at the front, one is found further on or nowhere. -/
theorem concatFrom_of_none {c : Char} {cs : List Char} (h : literal? none (c :: cs) = none) :
    concatFrom (c :: cs) = .ok none := by
  rw [concatFrom, if_neg (List.cons_ne_nil _ _)]
  split
  · rfl
  · rename_i m hm
    have hmem : m ∈ scan literal? (c :: cs) := List.mem_of_head? hm
    rw [scan, scanFrom, h] at hmem
    obtain ⟨x, rest, -, hstart, -⟩ := exists_of_mem_scanFrom consumes_literal? hmem
    have hstartByte : startByte (c :: cs) m ≠ 0 := by
      rw [startByte, hstart, Nat.zero_add, Nat.add_comm, List.take_succ_cons]
      exact fun hzero => List.cons_ne_nil _ _ (width_eq_zero_iff.mp hzero)
    rw [if_pos hstartByte]
    rfl

theorem concatFrom_of_some {body rest : List Char} (h : literalBody? false (body ++ '"' :: rest) = some (body, rest)) :
    concatFrom ('"' :: (body ++ '"' :: rest)) = do
      let more ← concatFrom (Text.trimStart rest)
      return more.map (Header.decodeLiteral body ++ ·) := by
  have htext : '"' :: (body ++ '"' :: rest) = '"' :: (body ++ ['"']) ++ rest := by simp
  have hread : literal? none ('"' :: (body ++ ['"']) ++ rest) = some (body, rest) := by
    rw [← htext]
    exact h
  have hmatch := scanFrom_match 0 (List.cons_ne_nil _ _) hread
  have hstop : stopByte ('"' :: (body ++ ['"']) ++ rest) ⟨0, body, '"' :: (body ++ ['"'])⟩ =
      width ('"' :: (body ++ ['"'])) := Nat.zero_add _
  have hbehind := sliceFrom_append ('"' :: (body ++ ['"'])) rest
  rw [htext, concatFrom, if_neg (by simp)]
  split
  · rename_i hnone
    rw [scan, hmatch] at hnone
    cases hnone
  · rename_i m hm
    rw [scan, hmatch, List.head?_cons, Option.some.injEq] at hm
    subst hm
    rw [if_neg (by simp [startByte, width_nil]), decodeLiteral_eq, ok_bind]
    split
    · rename_i hfault
      rw [hstop, hbehind] at hfault
      cases hfault
    · rename_i hslice
      rw [hstop, hbehind] at hslice
      cases hslice
      rfl

theorem concatFrom_eq (rest : List Char) : concatFrom rest = .ok (joined (literals rest)) := by
  induction rest using literals_induction with
  | stop cs hstop =>
    rw [literals_of_noLiteral hstop]
    cases cs with
    | nil =>
      rw [concatFrom, if_pos rfl]
      rfl
    | cons c cs => exact concatFrom_of_none (literal?_eq_none_iff.mpr hstop)
  | literal body rest hbody ih =>
    have hrest : concatFrom (Text.trimStart rest) = .ok (joined (literals (skipBlanks rest))) := ih
    rw [concatFrom_of_some hbody, hrest, ok_bind, pure_eq_ok, literals_quote hbody, joined_cons]

theorem stringValue?_eq (text : List Char) : stringValue? text = .ok (Header.stringValue? text) := by
  unfold stringValue? Header.stringValue?
  cases hread : literal? none (Text.trim text) with
  | none =>
    rw [concatFrom_eq, literals_of_none hread]
    cases Text.trim text with
    | nil => rfl
    | cons c cs => split <;> rfl
  | some p =>
    obtain ⟨body, rest⟩ := p
    obtain ⟨htext, hbody⟩ := literal?_eq_some hread
    rw [htext, List.head?_cons, if_pos rfl, concatFrom_eq, literals_quote hbody]
    generalize literals (skipBlanks rest) = p
    obtain ⟨bodies, rest⟩ := p
    cases rest <;> rfl

end FirmwareCatalog.Bytewise
