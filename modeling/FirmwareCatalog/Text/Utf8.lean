/-!
# UTF-8

Bytes of a text and back. Decoding is one pass that marks every maximal invalid
part; reading strictly refuses a marked text, reading leniently writes U+FFFD
for each mark.
-/

namespace FirmwareCatalog

abbrev Bytes := List UInt8

namespace Utf8

def encode (cs : List Char) : Bytes := cs.flatMap String.utf8EncodeChar

/-- A character of which some bytes have been read. -/
structure Pending where
  /-- The bits read so far. -/
  code : Nat
  /-- How many bytes follow the next one. -/
  more : Nat
  /-- The range of the next byte. -/
  low : Nat
  high : Nat

/-- What a byte at the start of a character announces. -/
inductive Lead where
  | char (c : Char)
  | pending (p : Pending)
  | invalid

/-- The first byte fixes the length of a character, and for some lengths the range of the second byte:
neither overlong forms nor surrogates nor code points above U+10FFFF are begun. -/
def lead (b : UInt8) : Lead :=
  let n := b.toNat
  if n < 0x80 then .char (Char.ofNat n)
  else if n < 0xC2 then .invalid
  else if n < 0xE0 then .pending ⟨n - 0xC0, 0, 0x80, 0xBF⟩
  else if n = 0xE0 then .pending ⟨0, 1, 0xA0, 0xBF⟩
  else if n = 0xED then .pending ⟨0xD, 1, 0x80, 0x9F⟩
  else if n < 0xF0 then .pending ⟨n - 0xE0, 1, 0x80, 0xBF⟩
  else if n = 0xF0 then .pending ⟨0, 2, 0x90, 0xBF⟩
  else if n < 0xF4 then .pending ⟨n - 0xF0, 2, 0x80, 0xBF⟩
  else if n = 0xF4 then .pending ⟨4, 2, 0x80, 0x8F⟩
  else .invalid

/-- The character that a byte in range completes, or the state after it. -/
def Pending.push (p : Pending) (b : UInt8) : Char ⊕ Pending :=
  let code := p.code * 64 + (b.toNat - 0x80)
  match p.more with
  | 0 => .inl (Char.ofNat code)
  | more + 1 => .inr ⟨code, more, 0x80, 0xBF⟩

/-- Each character in order, `none` for each maximal invalid part. -/
def decodeFrom : Option Pending → Bytes → List (Option Char)
  | none, [] => []
  | some _, [] => [none]
  | none, b :: bs =>
    match lead b with
    | .char c => some c :: decodeFrom none bs
    | .pending p => decodeFrom (some p) bs
    | .invalid => none :: decodeFrom none bs
  | some p, b :: bs =>
    if p.low ≤ b.toNat ∧ b.toNat ≤ p.high then
      match p.push b with
      | .inl c => some c :: decodeFrom none bs
      | .inr p => decodeFrom (some p) bs
    else
      none :: match lead b with
        | .char c => some c :: decodeFrom none bs
        | .pending p => decodeFrom (some p) bs
        | .invalid => none :: decodeFrom none bs

/-- Refuses bytes that are no UTF-8. -/
def decode? (bs : Bytes) : Option (List Char) := (decodeFrom none bs).mapM id

/-- Each maximal invalid part becomes U+FFFD. -/
def decodeLossy (bs : Bytes) : List Char := (decodeFrom none bs).map (·.getD (Char.ofNat 0xFFFD))

end Utf8

/-- The bytes of a text. -/
def textBytes (s : String) : Bytes := Utf8.encode s.toList

end FirmwareCatalog
