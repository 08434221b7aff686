import Std.Data.HashSet
import Packrat.Pattern.Basic

/-!
# `Packrat.Pattern.Matching` — the leftmost match of a pattern

A match is searched for by following the program of a pattern from a place, at every choice the preferred way
first. An instruction is followed at most once from each place: following it again could only fail again, or
go round in a circle. So a search takes at most as many steps as there are pairs of instruction and place.

## Contents

* `Cursor` — a place in the text under match, with the groups captured on the way;
* `explore` — the search from one place;
* `Pattern`, `Pattern.find?` — the leftmost match in a text, with its captures.
-/

namespace Packrat
namespace Pattern

/-! ## Places -/

/-- The bytes a group captured. -/
structure Capture where
  index : Nat
  start : Nat
  stop : Nat
deriving DecidableEq, Repr, Inhabited

/-- A place in the text under match: the character before it, the text after it and its offset; the groups
that were entered, and those that were left, the latest first. -/
structure Cursor where
  previous : Option Char
  rest : Text
  offset : Nat
  entered : List (Nat × Nat) := []
  captures : List Capture := []
deriving Repr, Inhabited

namespace Cursor

/-- The place after the next character, if that is in a class. -/
def step? (k : Cursor) (c : CharClass) : Option Cursor :=
  match k.rest with
  | [] => none
  | d :: r =>
    if c.contains d then some { k with previous := some d, rest := r, offset := k.offset + d.utf8Size }
    else none

/-- Whether a place lies between a word character and something else. -/
def atWordBoundary (k : Cursor) : Bool :=
  k.previous.any Text.isWordChar != k.rest.head?.any Text.isWordChar

/-- Whether an assertion holds at a place. -/
def satisfies (k : Cursor) : Assertion → Bool
  | .startText => k.previous.isNone
  | .endText => k.rest.isEmpty
  | .startLine => k.previous.isNone || k.previous == some '\n'
  | .endLine => k.rest.isEmpty || k.rest.head? == some '\n'
  | .wordBoundary => k.atWordBoundary
  | .notWordBoundary => !k.atWordBoundary

/-- The place as the beginning of a group. -/
def enter (k : Cursor) (index : Nat) : Cursor := { k with entered := (index, k.offset) :: k.entered }

/-- The place as the end of a group. -/
def leave (k : Cursor) (index : Nat) : Cursor :=
  { k with captures := ⟨index, (k.entered.lookup index).getD k.offset, k.offset⟩ :: k.captures }

end Cursor

/-! ## The search from one place -/

/-- The ways an instruction goes on from a place, the preferred one first; `none` when it accepts. -/
def Instr.follow (k : Cursor) : Instr → Option (List (Nat × Cursor))
  | .one c next => some ((k.step? c).map (next, ·)).toList
  | .assertion a next => some (if k.satisfies a then [(next, k)] else [])
  | .split preferred other => some [(preferred, k), (other, k)]
  | .enter i next => some [(next, k.enter i)]
  | .leave i next => some [(next, k.leave i)]
  | .accept => none

/-- Follows the ways in `pending`, the first one first, but none through an instruction and offset in `tried`.
The answer is the place at which the program accepts. -/
def explore (code : List Instr) :
    (fuel : Nat) → (pending : List (Nat × Cursor)) → (tried : Std.HashSet (Nat × Nat)) → Option Cursor
  | 0, _, _ => none
  | _ + 1, [], _ => none
  | fuel + 1, (i, k) :: pending, tried =>
    if tried.contains (i, k.offset) then explore code fuel pending tried
    else
      match (code[i]?.getD (.split i i)).follow k with
      | none => some k
      | some ways => explore code fuel (ways ++ pending) (tried.insert (i, k.offset))

/-- Enough steps for a program and a text: each pair of instruction and place is followed once and leaves at
most two ways, and each way is looked at once. -/
def exploreFuel (code : List Instr) (t : Text) : Nat := 2 * (code.length + 1) * (t.length + 1) + 2

end Pattern

/-! ## Patterns -/

/-- A named group of a pattern. -/
structure GroupName where
  index : Nat
  name : String
deriving DecidableEq, Repr, Inhabited

/-- A pattern as a program, with the names of its groups in the order of their indices. -/
structure Pattern where
  program : Pattern.Program
  names : List GroupName
deriving DecidableEq, Repr, Inhabited

namespace Pattern

/-- The bytes of a match, and its captures, the latest first. -/
structure Match where
  start : Nat
  stop : Nat
  captures : List Capture
deriving Repr, Inhabited

/-- The first match at a place or, failing that, further on. -/
def findFrom (p : Pattern) (previous : Option Char) (offset : Nat) (rest : Text) : Option Match :=
  match explore p.program.code (exploreFuel p.program.code rest)
      [(p.program.start, { previous, rest, offset })] ∅ with
  | some k => some ⟨offset, k.offset, k.captures⟩
  | none =>
    match rest with
    | [] => none
    | c :: r => p.findFrom (some c) (offset + c.utf8Size) r
termination_by rest.length

/-- The leftmost match of a pattern in a text. -/
def find? (p : Pattern) (t : Text) : Option Match := p.findFrom none 0 t

/-- Whether a pattern matches somewhere in a text. -/
def matchesIn (p : Pattern) (t : Text) : Bool := (p.find? t).isSome

/-- The bytes a group captured last, if it took part in a match. -/
def Match.group? (m : Match) (index : Nat) : Option Capture := m.captures.find? (·.index == index)

end Pattern
end Packrat
