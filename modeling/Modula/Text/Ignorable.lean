import Modula.Text.RangeTable

/-! # Characters that show nothing

The property `Default_Ignorable_Code_Point`: characters that are not drawn where they have no
effect, such as joiners, variation selectors and the fillers of Hangul, which are letters. -/

set_option autoImplicit false

namespace Modula.Text

/-- Code points that are `Default_Ignorable_Code_Point`; none is below U+0080. -/
def ignorable : RangeTable where
  ranges := #[
    (0xAD, 0xAD), (0x34F, 0x34F), (0x61C, 0x61C), (0x115F, 0x1160), (0x17B4, 0x17B5),
    (0x180B, 0x180F), (0x200B, 0x200F), (0x202A, 0x202E), (0x2060, 0x206F), (0x3164, 0x3164),
    (0xFE00, 0xFE0F), (0xFEFF, 0xFEFF), (0xFFA0, 0xFFA0), (0xFFF0, 0xFFF8), (0x1BCA0, 0x1BCA3),
    (0x1D173, 0x1D17A), (0xE0000, 0xE0FFF)]

/-- A character that shows nothing. -/
def isIgnorable (c : Char) : Bool :=
  if c.toNat < 0x80 then false else ignorable.contains c.toNat

end Modula.Text
