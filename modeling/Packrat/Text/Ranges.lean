import Packrat.Text.Basic

/-!
# `Packrat.Text.inRanges` — membership in a sorted table of code points
-/

namespace Packrat.Text

/-- Whether a code point lies in one of the ranges of a table sorted by first code points. -/
def inRanges : List (Nat × Nat) → Nat → Bool
  | [], _ => false
  | (first, last) :: rs, n => if n < first then false else n ≤ last || inRanges rs n

end Packrat.Text
