import Packrat.Text.Ranges

/-!
# `Packrat.Text.isBlank` — white space of all scripts
-/

namespace Packrat.Text

/-- The code points of white space. -/
def blankRanges : List (Nat × Nat) := [
   (0x9, 0xD), (0x20, 0x20), (0x85, 0x85), (0xA0, 0xA0), (0x1680, 0x1680), (0x2000, 0x200A),
   (0x2028, 0x2029), (0x202F, 0x202F), (0x205F, 0x205F), (0x3000, 0x3000)]

/-- A white-space character of any script. -/
def isBlank (c : Char) : Bool := inRanges blankRanges c.toNat

end Packrat.Text
