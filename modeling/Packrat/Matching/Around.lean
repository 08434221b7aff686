import Packrat.Matching.Skip

/-!
# `Packrat.Matching.Around` — looking behind and skipping ahead

## Contents

* `matchPrecededBy` — a match that ends at the position, searched for backwards;
* `matchSkipTo` — all text up to the next match of a target.
-/

namespace Packrat

/-! ## Looking behind -/

/-- Attempts a child at each position of a list until a match ends at the end of the text. Committed failures
count as ordinary ones. -/
def findBehind (attempt : Attempt) (c : Context) (child : ExprId) (acts : Bool) :
    (positions : List Nat) → MatchM (Option Results)
  | [] => pure none
  | p :: ps => do
    match ← MatchM.recover (attempt c child p acts false) with
    | .matched stop results =>
      if stop = c.text.size then pure (some results) else findBehind attempt c child acts ps
    | .failed _ => findBehind attempt c child acts ps

/-- Runs a computation on a state of its own, of which only the journal and, unless it halts, the number of
attempts count for the parse. -/
def aside {α : Type} (config : Config) (m : MatchM α) : MatchM α := fun s =>
  match m { State.initial config with journal := s.journal } with
  | .ok a t => .ok a { s with
      journal := t.journal
      metrics := { s.metrics with attempts := s.metrics.attempts + t.metrics.attempts } }
  | .error h t => .error h { s with journal := t.journal }

/-- Matches when some match of a child ends at the position, starting at most `retreat` characters before it.
The child sees only the text before the position; the nearest start comes first. -/
def matchPrecededBy (attempt : Attempt) (c : Context) (rule : Rule) (child : ExprId) (retreat : Option Nat)
    (start : Nat) (acts : Bool) : MatchM Step := do
  let behind := c.behind start
  let positions := behind.text.starts.reverse
  let positions := match retreat with
    | some n => positions.take n
    | none => positions
  match ← aside c.config (findBehind attempt behind child acts positions) with
  | some results => return .matched start (results.setTokens [])
  | none => return Step.failAt start rule

/-! ## Skipping ahead -/

/-- Attempts a target, its ignorables skipped, and looks for it from the next position on if it fails. -/
def tryTarget (attempt : Attempt) (c : Context) (target : ExprId) (again : Nat → MatchM (Option Nat)) (loc : Nat) :
    MatchM (Option Nat) := do
  let loc ← skipIgnorables attempt c (c.rule target).ignores loc
  match ← MatchM.recover (attempt c target loc false false) with
  | .matched _ _ => return some loc
  | .failed _ => again (c.text.next loc)

/-- The first position from `loc` on at which a target matches, its ignorables skipped, or before that one at
which `failOn` does. -/
def findAhead (attempt : Attempt) (c : Context) (target : ExprId) (failOn : Option ExprId) :
    (fuel loc : Nat) → MatchM (Option Nat)
  | 0, _ => pure none
  | fuel + 1, loc => do
    if c.text.size < loc then return none
    match failOn with
    | some id =>
      match ← probe attempt c id loc with
      | .matched _ _ => return some loc
      | .failed _ => pure ()
    | none => pure ()
    tryTarget attempt c target (findAhead attempt c target failOn fuel) loc

/-- Matches all text up to the next match of a target, as one token, and the target too when `includes`. -/
def matchSkipTo (attempt : Attempt) (c : Context) (rule : Rule) (target : ExprId) (includes : Bool)
    (failOn : Option ExprId) (start : Nat) (acts : Bool) : MatchM Step := do
  match ← findAhead attempt c target failOn (c.text.size + 2) start with
  | none => return Step.failAt start rule
  | some loc =>
    let skipped : Results := ResultsOf.single (Value.ofText (c.text.slice start loc))
    if !includes then return .matched loc skipped
    match ← attempt c target loc acts false with
    | .matched stop part => return .matched stop (skipped.extend part)
    | .failed d => return .failed d

end Packrat
