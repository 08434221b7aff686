import Packrat.Text.Basic

/-!
# `Packrat.CharSet` — sets of characters

A set is held as inclusive ranges of code points, sorted, disjoint and with at least one code point between
any two neighbours, so that two sets given by different ranges but with the same code points are the same
value.

## Contents

* `ofRanges` — the set of a list of ranges in any order, each in either direction;
* `contains`, `union`, `without` — membership, union, and a set less one character;
* `describe` — the compact form used in the names of grammar nodes.
-/

namespace Packrat

/-- An inclusive range of characters. -/
structure CharRange where
  first : Char
  last : Char
deriving DecidableEq, Repr, Inhabited

namespace CharRange

/-- The range between two characters given in either order. -/
def between (a b : Char) : CharRange := if a ≤ b then ⟨a, b⟩ else ⟨b, a⟩

/-- The characters of a range. -/
def contains (r : CharRange) (c : Char) : Bool := r.first ≤ c && c ≤ r.last

/-- Ranges are sorted by their first character, then by their last. -/
def le (a b : CharRange) : Bool := a.first < b.first || (a.first == b.first && a.last ≤ b.last)

/-- Whether a range starts inside, or at the code point just past, an earlier one. -/
def touches (earlier later : CharRange) : Bool := later.first.toNat ≤ earlier.last.toNat + 1

/-- The range from the first character of `a` to the later of the two ends. -/
def join (a b : CharRange) : CharRange := ⟨a.first, if a.last < b.last then b.last else a.last⟩

end CharRange

/-- A set of characters, as sorted ranges that do not touch. -/
structure CharSet where
  ranges : List CharRange
deriving DecidableEq, Repr, Inhabited

namespace CharSet

/-! ## Building -/

/-- Joins each range of a sorted list to the one before it while they touch. -/
def merge : List CharRange → List CharRange
  | [] => []
  | r :: rs => go r rs
where
  /-- Merging with `current` as the range that may still grow. -/
  go (current : CharRange) : List CharRange → List CharRange
    | [] => [current]
    | r :: rs => if current.touches r then go (current.join r) rs else current :: go r rs

/-- The set of the characters in any of the given ranges. -/
def ofRanges (ranges : List CharRange) : CharSet := ⟨merge (ranges.mergeSort CharRange.le)⟩

/-- The set of ranges given by their two ends, in either order. -/
def ofPairs (pairs : List (Char × Char)) : CharSet :=
  ofRanges (pairs.map fun p => CharRange.between p.1 p.2)

/-- The set of the characters of a text. -/
def ofText (t : Text) : CharSet := ofPairs (t.map fun c => (c, c))

/-- The set of the characters of a string. -/
def ofString (s : String) : CharSet := ofText s.toList

/-- The characters of either set. -/
def union (a b : CharSet) : CharSet := ofRanges (a.ranges ++ b.ranges)

/-! ## Named sets, all within ASCII -/

/-- The decimal digits. -/
def digits : CharSet := ofPairs [('0', '9')]

/-- The hexadecimal digits in both cases. -/
def hexDigits : CharSet := ofPairs [('0', '9'), ('a', 'f'), ('A', 'F')]

/-- The letters. -/
def alphas : CharSet := ofPairs [('a', 'z'), ('A', 'Z')]

/-- The letters and digits. -/
def alphanums : CharSet := ofPairs [('a', 'z'), ('A', 'Z'), ('0', '9')]

/-- The letters, digits and the underscore. -/
def identifier : CharSet := ofPairs [('a', 'z'), ('A', 'Z'), ('0', '9'), ('_', '_')]

/-- The printable characters other than the space. -/
def printables : CharSet := ofPairs [('!', '~')]

/-- The space, the tab and the two line breaks. -/
def whitespace : CharSet := ofString " \t\r\n"

/-! ## Asking -/

/-- The range at which halving a list of ranges ends: the second half is kept unless it begins past the character. -/
def nearest? (c : Char) (ranges : List CharRange) : Option CharRange :=
  let half := ranges.length / 2
  if half = 0 then ranges.head?
  else if (ranges.drop half).head?.any (c < ·.first) then nearest? c (ranges.take (ranges.length - half))
  else nearest? c (ranges.drop half)
termination_by ranges.length
decreasing_by all_goals simp only [List.length_take, List.length_drop]; omega

/-- The characters of a set, looked up by halving. -/
def contains (s : CharSet) (c : Char) : Bool := (nearest? c s.ranges).any (·.contains c)

/-- A set without characters. -/
def isEmpty (s : CharSet) : Bool := s.ranges.isEmpty

/-- The parts of a range on both sides of a hole. A side whose nearest code point is no character is left
out. -/
def splitAround (hole : Char) (r : CharRange) : List CharRange :=
  if hole < r.first || r.last < hole then [r] else
    let before := if r.first < hole then charOfCode? (hole.toNat - 1) else none
    let after := if hole < r.last then charOfCode? (hole.toNat + 1) else none
    (before.map (⟨r.first, ·⟩)).toList ++ (after.map (⟨·, r.last⟩)).toList
where
  /-- The character of a code point, if it is one. -/
  charOfCode? (n : Nat) : Option Char := if n.isValidChar then some (Char.ofNat n) else none

/-- A set less one character. -/
def without (s : CharSet) (hole : Char) : CharSet := ofRanges (s.ranges.flatMap (splitAround hole))

/-! ## Describing -/

/-- A control character, of which there are two blocks. -/
def isControl (c : Char) : Bool := c.toNat < 0x20 || (0x7F ≤ c.toNat && c.toNat < 0xA0)

/-- Lower-case hexadecimal digits of a number, without leading zeros. -/
def hex (n : Nat) : String := String.ofList (Nat.toDigits 16 n)

/-- A character as descriptions show it: the common blanks by letter, other control characters by code
point. -/
def describeChar (c : Char) : String :=
  if c == '\n' then "\\n"
  else if c == '\t' then "\\t"
  else if c == '\r' then "\\r"
  else if isControl c then "\\u\x7b" ++ hex c.toNat ++ "\x7d"
  else c.toString

/-- A range as descriptions show it: one or two characters by themselves, more as `first-last`. -/
def describeRange (r : CharRange) : String :=
  match r.last.toNat - r.first.toNat with
  | 0 => describeChar r.first
  | 1 => describeChar r.first ++ describeChar r.last
  | _ => describeChar r.first ++ "-" ++ describeChar r.last

/-- The compact description of a set, such as `0-9A-Z_a-z`. -/
def describe (s : CharSet) : String := String.join (s.ranges.map describeRange)

end CharSet
end Packrat
