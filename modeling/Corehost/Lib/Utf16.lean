import Mathlib.Data.List.Basic
import Mathlib.Data.UInt

/-!
# Texts in UTF-16

The units of a character, one or a surrogate pair.
-/

namespace Utf16

/-- The units of one character. -/
def encodeChar (c : Char) : List UInt16 :=
  if c.toNat > 0xFFFF then
    [UInt16.ofNat (0xD800 + (c.toNat - 0x10000) / 0x400), UInt16.ofNat (0xDC00 + (c.toNat - 0x10000) % 0x400)]
  else [UInt16.ofNat c.toNat]

/-- The units of a text. -/
def encode (cs : List Char) : List UInt16 := cs.flatMap encodeChar

theorem length_encodeChar (c : Char) : (encodeChar c).length = if c.toNat > 0xFFFF then 2 else 1 := by
  unfold encodeChar
  split <;> rfl

end Utf16
