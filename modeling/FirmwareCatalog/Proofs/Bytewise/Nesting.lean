import FirmwareCatalog.Proofs.Bytewise.Classes
import FirmwareCatalog.Proofs.Header.Bracket
import FirmwareCatalog.Proofs.Header.TopLevel

/-!
# Brackets and commas by byte offsets

The loops over bytes pass the bytes of a longer character one by one, since none
of them is a delimiter. Cuts are made at delimiters, so always between two
characters; and since a bracket is closed from its own opener on, its depth is
never counted below zero.
-/

namespace FirmwareCatalog.Bytewise

open Header Utf8

/-! ## The closing delimiter -/

/-- Where the delimiter closes that `depth` openers wait for, from the byte at `i` on. -/
def matchingClose (zones : List Zone) (opener closer : Char) : (i depth : Nat) → Bytes → Checked (Option Nat)
  | _, _, [] => return none
  | i, depth, b :: bs => do
    if (← classAt zones i) ≠ .code then matchingClose zones opener closer (i + 1) depth bs
    else if byteChar b = opener then matchingClose zones opener closer (i + 1) (depth + 1) bs
    else if byteChar b = closer then
      let depth ← decrement depth
      if depth = 0 then return some i
      matchingClose zones opener closer (i + 1) depth bs
    else matchingClose zones opener closer (i + 1) depth bs

section

variable {zones : List Zone} {opener closer : Char} (hopener : IsAscii opener) (hcloser : IsAscii closer)
  (hne : opener ≠ closer)
include hopener hcloser hne

theorem matchingClose_eq (rest : List Marked) : ∀ {i : Nat} (depth : Nat), Aligned zones i rest →
    matchingClose zones opener closer i (depth + 1) (encode (plain rest)) =
      .ok ((splitClosing opener closer (depth + 1) rest).map fun p => i + width (plain p.1)) := by
  induction rest with
  | nil => intros; rfl
  | cons m rest ih =>
    intro i depth haligned
    -- behind the first character the search goes on with some opener waiting
    have hstep (d : Nat) (h : matchingClose zones opener closer i (depth + 1) (encode [m.1] ++ encode (plain rest)) =
          matchingClose zones opener closer (i + width [m.1]) (d + 1) (encode (plain rest))) :
        matchingClose zones opener closer i (depth + 1) (encode [m.1] ++ encode (plain rest)) =
          .ok (((splitClosing opener closer (d + 1) rest).map fun p => (m :: p.1, p.2)).map
            fun p => i + width (plain p.1)) := by
      rw [h, ih d haligned.tail, Option.map_map]
      congr 2
      funext p
      rw [Function.comp_apply, plain_cons, width_cons m.1 (plain p.1), Nat.add_assoc]
    have hclass := haligned.classAt_zero
    rw [plain_cons, encode_cons_append]
    rcases bracket_cases opener closer m with rfl | rfl | hneutral
    · have hclose : matchingClose zones opener closer i (depth + 1) (encode [closer] ++ encode (plain rest)) =
          if depth = 0 then .ok (some i)
          else matchingClose zones opener closer (i + 1) depth (encode (plain rest)) := by
        rw [encode_ascii hcloser, List.singleton_append]
        simp [matchingClose, hclass, byteChar_byte hcloser, Ne.symm hne, decrement]
      cases depth with
      | zero =>
        rw [hclose, Int.natCast_zero, Int.zero_add, splitClosing_closer_one]
        rfl
      | succ depth =>
        have hdepth : ((depth + 1 : Nat) : Int) + 1 - 1 = (depth : Int) + 1 := by omega
        rw [splitClosing_closer (by omega), hdepth]
        apply hstep
        rw [hclose, width_ascii hcloser]
        rfl
    · have hopen : matchingClose zones opener closer i (depth + 1) (encode [opener] ++ encode (plain rest)) =
          matchingClose zones opener closer (i + 1) (depth + 2) (encode (plain rest)) := by
        rw [encode_ascii hopener, List.singleton_append]
        simp [matchingClose, hclass, byteChar_byte hopener]
      rw [splitClosing_opener hne]
      apply hstep
      rw [hopen, width_ascii hopener]
    · rw [splitClosing_neutral hneutral]
      apply hstep
      refine haligned.pass (fun i bytes => matchingClose zones opener closer i (depth + 1) bytes) ?_ _
      intro i hread b hb bs
      rw [matchingClose, hread, ok_bind]
      by_cases hcode : m.2 = .code
      · obtain ⟨hcloses, hopens⟩ := hneutral hcode
        simp [hcode, byteChar_ne_of_mem hopener hopens hb, byteChar_ne_of_mem hcloser hcloses hb]
      · simp [hcode]

theorem matchingClose_open {rest : List Marked} {i : Nat} (haligned : Aligned zones i ((opener, .code) :: rest)) :
    matchingClose zones opener closer i 0 (encode (opener :: plain rest)) =
      .ok ((splitClosing opener closer 1 rest).map fun p => i + 1 + width (plain p.1)) := by
  have hclass := haligned.classAt_zero
  have hrest : Aligned zones (i + 1) rest := by
    have := haligned.tail
    rwa [width_ascii hopener] at this
  rw [encode_cons_ascii hopener, matchingClose, hclass]
  simpa [byteChar_byte hopener] using matchingClose_eq hopener hcloser hne rest 0 hrest

end

-- from a closer on there is none to search for
example : matchingClose [.code] '(' ')' 0 0 [byte ')'] = .error .underflow := rfl

/-! ## Commas -/

/-- The parts behind `start`, from the byte at `i` on. The depth has a sign, as it has in a reading by characters. -/
def splitFrom (text : List Char) (zones : List Zone) : (i : Nat) → (depth : Int) → (start : Nat) → Bytes →
    Checked (List (List Char))
  | _, _, start, [] => do
    let tail ← sliceFrom text start
    return if Text.isBlankText tail then [] else [tail]
  | i, depth, start, b :: bs => do
    if (← classAt zones i) ≠ .code then splitFrom text zones (i + 1) depth start bs
    else if byteChar b = ',' ∧ depth = 0 then
      let part ← slice text start i
      let parts ← splitFrom text zones (i + 1) depth (i + 1) bs
      return part :: parts
    else splitFrom text zones (i + 1) (depth + nesting (byteChar b)) start bs

def splitTopLevel (text : List Char) : Checked (List (List Char)) :=
  splitFrom text (classes text) 0 0 0 (encode text)

theorem nesting_of_not_isAscii {c : Char} (h : ¬ IsAscii c) : nesting c = 0 := by
  have hne {d : Char} (hd : IsAscii d) : c ≠ d := fun hcd => h (hcd ▸ hd)
  simp [nesting, hne (show IsAscii '(' by decide), hne (show IsAscii '\x7b' by decide),
    hne (show IsAscii '[' by decide), hne (show IsAscii ')' by decide), hne (show IsAscii '\x7d' by decide),
    hne (show IsAscii ']' by decide)]

theorem splitFrom_pass (text : List Char) {zones : List Zone} {i : Nat} {m : Marked} {rest : List Marked}
    (haligned : Aligned zones i (m :: rest)) {depth : Int} (hcomma : ¬ (m.2 = .code ∧ m.1 = ',' ∧ depth = 0))
    (start : Nat) (bytes : Bytes) : splitFrom text zones i depth start (encode [m.1] ++ bytes) =
      splitFrom text zones (i + width [m.1]) (if m.2 = .code then depth + nesting m.1 else depth) start bytes := by
  by_cases hascii : IsAscii m.1
  · rw [encode_ascii hascii, List.singleton_append, splitFrom, haligned.classAt_zero, ok_bind, byteChar_byte hascii,
      width_ascii hascii]
    by_cases hcode : m.2 = .code
    · have hcomma : ¬ (m.1 = ',' ∧ depth = 0) := fun h => hcomma ⟨hcode, h⟩
      simp [hcode, hcomma]
    · simp [hcode]
  · have hdepth : (if m.2 = .code then depth + nesting m.1 else depth) = depth := by
      rw [nesting_of_not_isAscii hascii, Int.add_zero, ite_self]
    rw [hdepth]
    refine haligned.pass (fun i bytes => splitFrom text zones i depth start bytes) ?_ bytes
    intro i hread b hb bs
    have hbyte : ¬ IsAscii (byteChar b) := not_isAscii_byteChar hascii hb
    have hcomma : byteChar b ≠ ',' := fun h => hbyte (h ▸ (by decide : IsAscii ','))
    rw [splitFrom, hread, ok_bind, nesting_of_not_isAscii hbyte]
    simp [hcomma]

/-- The part at hand is what stands between `start` and the place at hand. -/
theorem splitFrom_eq {text : List Char} {zones : List Zone} (rest : List Marked) : ∀ (done part : List Char)
    (depth : Int), text = done ++ (part ++ plain rest) → Aligned zones (width done + width part) rest →
      splitFrom text zones (width done + width part) depth (width done) (encode (plain rest)) =
        .ok (dropBlankLast (prepend part (splitCommas depth rest))) := by
  induction rest with
  | nil =>
    intro done part depth htext _
    have hslice := sliceFrom_append done part
    rw [plain_nil, List.append_nil] at htext
    rw [← htext] at hslice
    rw [plain_nil, encode_nil, splitFrom, hslice, splitCommas, prepend_cons, List.append_nil]
    rfl
  | cons m rest ih =>
    intro done part depth htext haligned
    have htail := haligned.tail
    rw [plain_cons, encode_cons_append]
    by_cases hcomma : m.2 = .code ∧ m.1 = ',' ∧ depth = 0
    · obtain ⟨c, zone⟩ := m
      obtain ⟨rfl, rfl, rfl⟩ := hcomma
      have hascii : IsAscii ',' := by decide
      have hslice : slice text (width done) (width done + width part) = .ok part := by
        rw [htext]
        exact slice_append done part _
      -- the next part begins behind the comma and is empty so far
      have hwidth : width done + width part + 1 = width (done ++ (part ++ [','])) + width [] := by
        rw [width_append, width_append, width_ascii hascii, width_nil]
        omega
      have hrest : splitFrom text zones (width done + width part + 1) 0 (width done + width part + 1)
          (encode (plain rest)) = .ok (dropBlankLast (splitCommas 0 rest)) := by
        rw [width_ascii hascii, hwidth] at htail
        rw [hwidth]
        exact ih _ _ _ (by simp [htext]) htail
      rw [encode_ascii hascii, List.singleton_append, splitFrom, haligned.classAt_zero, ok_bind, if_neg (by simp),
        byteChar_byte hascii, if_pos ⟨rfl, rfl⟩, hslice, ok_bind, hrest, ok_bind, pure_eq_ok]
      rw [splitCommas, if_pos ⟨rfl, rfl, rfl⟩, prepend_cons, List.append_nil, dropBlankLast]
      exact splitCommas_ne_nil 0 rest
    · rw [add_width_append] at htail
      rw [splitFrom_pass text haligned hcomma, add_width_append, ih _ _ _ (by simp [htext]) htail, prepend_append,
        splitCommas, if_neg hcomma]
      rfl

theorem splitTopLevel_eq (text : List Char) : splitTopLevel text = .ok (Header.splitTopLevel text) := by
  have h := splitFrom_eq (mark text) [] [] 0 (plain_mark text).symm (aligned_mark text)
  rwa [plain_mark] at h

end FirmwareCatalog.Bytewise
