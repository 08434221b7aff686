import Packrat.Text.WordChar
import Packrat.Text.Blank
import Packrat.Text.LetterCase

/-!
# `Packrat.Pattern.CharClass` — the character classes of patterns

A class is an expression over ranges and the named properties; membership is evaluated, never expanded.
-/

namespace Packrat.Pattern

/-- A class of characters. -/
inductive CharClass
  /-- The code points in any of the ranges. -/
  | ranges (rs : List (Nat × Nat))
  | digit
  | blank
  | word
  | letter
  | union (a b : CharClass)
  | inter (a b : CharClass)
  | diff (a b : CharClass)
  | symDiff (a b : CharClass)
  | negate (a : CharClass)
  /-- The characters of `a` and all that differ from one of them in case only. -/
  | folded (a : CharClass)
deriving DecidableEq, Repr, Inhabited

namespace CharClass

/-- Membership in a class. -/
def contains : CharClass → Char → Bool
  | ranges rs, c => rs.any fun r => r.1 ≤ c.toNat && c.toNat ≤ r.2
  | digit, c => Text.isDecimalDigit c
  | blank, c => Text.isBlank c
  | word, c => Text.isWordChar c
  | letter, c => Text.isLetter c
  | union a b, c => a.contains c || b.contains c
  | inter a b, c => a.contains c && b.contains c
  | diff a b, c => a.contains c && !b.contains c
  | symDiff a b, c => a.contains c != b.contains c
  | negate a, c => !a.contains c
  | folded a, c => (Text.caseVariants c).any a.contains

/-- The class of one character. -/
def single (c : Char) : CharClass := ranges [(c.toNat, c.toNat)]

/-- The class of no character. -/
def none : CharClass := ranges []

/-- The class of all characters. -/
def all : CharClass := negate none

/-- All characters but the newline. -/
def notNewline : CharClass := negate (single '\n')

/-- A class, negated on demand. -/
def negateIf (negated : Bool) (a : CharClass) : CharClass := if negated then negate a else a

/-- A class, closed under case on demand. -/
def foldIf (caseless : Bool) (a : CharClass) : CharClass := if caseless then folded a else a

/-- The bracketed ASCII classes, by name. -/
def ascii? : String → Option CharClass
  | "alnum" => some (ranges [(0x30, 0x39), (0x41, 0x5A), (0x61, 0x7A)])
  | "alpha" => some (ranges [(0x41, 0x5A), (0x61, 0x7A)])
  | "ascii" => some (ranges [(0x00, 0x7F)])
  | "blank" => some (ranges [(0x09, 0x09), (0x20, 0x20)])
  | "cntrl" => some (ranges [(0x00, 0x1F), (0x7F, 0x7F)])
  | "digit" => some (ranges [(0x30, 0x39)])
  | "graph" => some (ranges [(0x21, 0x7E)])
  | "lower" => some (ranges [(0x61, 0x7A)])
  | "print" => some (ranges [(0x20, 0x7E)])
  | "punct" => some (ranges [(0x21, 0x2F), (0x3A, 0x40), (0x5B, 0x60), (0x7B, 0x7E)])
  | "space" => some (ranges [(0x09, 0x0D), (0x20, 0x20)])
  | "upper" => some (ranges [(0x41, 0x5A)])
  | "word" => some (ranges [(0x30, 0x39), (0x41, 0x5A), (0x5F, 0x5F), (0x61, 0x7A)])
  | "xdigit" => some (ranges [(0x30, 0x39), (0x41, 0x46), (0x61, 0x66)])
  | _ => Option.none

end CharClass
end Packrat.Pattern
