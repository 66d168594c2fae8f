import FirmwareCatalog.Character.UpperCase
import FirmwareCatalog.Text.Numeral
import FirmwareCatalog.Text.Trim

/-!
# Name hashes

The firmware finds sensors, applications and units by a hash of their
upper-cased name: each character multiplies the hash by 33 and adds its code
point, in words of 32 bits, of which the low 16 are kept. No name at all hashes
to zero.
-/

namespace FirmwareCatalog

def upperCased (s : String) : List Char := s.toList.flatMap Character.upperCase

namespace NameHash

def seed : UInt32 := 5381

def step (hash : UInt32) (c : Char) : UInt32 := (hash <<< 5) + hash + c.val

end NameHash

def nameHash (name : String) : UInt16 :=
  if name.isEmpty then 0 else ((upperCased name).foldl NameHash.step NameHash.seed).toUInt16

namespace NameHash

open Numeral Text

/-- `0x` and four hexadecimal digits, as the headers spell a hash. -/
def render (hash : UInt16) : String := String.ofList ('0' :: 'x' :: hexadecimal 4 hash.toNat)

/-- Reads a hash literal: hexadecimal behind `0x` or `0X`, else decimal, below 65536. -/
def read? (literal : String) : Option UInt16 :=
  let value? := match trim literal.toList with
    | '0' :: 'x' :: digits => unsigned? 16 16 digits
    | '0' :: 'X' :: digits => unsigned? 16 16 digits
    | digits => unsigned? 16 10 digits
  value?.map UInt16.ofNat

end NameHash

end FirmwareCatalog
