import Packrat.Matching.State

/-!
# `Packrat.Matching.Choice` — sequences and choices

## Contents

* `matchSequence` — children in order, final after a commit marker;
* `matchFirst` — the first child that matches;
* `matchLongest` — the child that matches most;
* `choiceFailure` — of the failures of the children, the one that got furthest.
-/

namespace Packrat

/-! ## Sequences -/

/-- Matches children in order from `loc` on. The first child does not skip, for its sequence has skipped
already. After a commit marker a failure halts. -/
def matchSequence (attempt : Attempt) (c : Context) (acts : Bool) :
    (children : List ExprId) → (first committed : Bool) → (loc : Nat) → Results → MatchM Step
  | [], _, _, loc, results => pure (.matched loc results)
  | child :: children, first, committed, loc, results => do
    if (c.rule child).kind.isCommit then
      matchSequence attempt c acts children false true loc results
    else
      match ← attempt c child loc acts (!first) with
      | .matched stop part =>
        matchSequence attempt c acts children false committed stop (results.extend part)
      | .failed d => if committed then MatchM.halt (.committed d) else pure (.failed d)

/-! ## Failures of choices -/

/-- The failure that got further, the earlier one on a tie. -/
def furthestOf (best : Option Diagnostic) (d : Diagnostic) : Option Diagnostic :=
  some (match best with
    | some b => b.furthest d
    | none => d)

/-- The failure of a choice: the one of its children that got furthest, or its own message when none got past
the start. -/
def choiceFailure (best : Option Diagnostic) (start : Nat) (rule : Rule) : Step :=
  match best with
  | some d => if start < d.position then .failed d else Step.failAt start rule
  | none => Step.failAt start rule

/-! ## The first match -/

/-- Attempts children in order until one matches. -/
def matchFirst (attempt : Attempt) (c : Context) (rule : Rule) (start : Nat) (acts : Bool) :
    (children : List ExprId) → (best : Option Diagnostic) → MatchM Step
  | [], best => pure (choiceFailure best start rule)
  | child :: children, best => do
    match ← attempt c child start acts true with
    | .matched stop r => pure (.matched stop r)
    | .failed d => matchFirst attempt c rule start acts children (furthestOf best d)

/-! ## The longest match -/

/-- A child that matches without actions, and how far. -/
structure Candidate where
  stop : Nat
  child : ExprId
  results : Results
deriving Inhabited

/-- Attempts all children without actions; gives the ones that match and the furthest failure. -/
def findCandidates (attempt : Attempt) (c : Context) (start : Nat) :
    (children : List ExprId) → List Candidate → Option Diagnostic →
      MatchM (List Candidate × Option Diagnostic)
  | [], found, best => pure (found.reverse, best)
  | child :: children, found, best => do
    match ← attempt c child start false true with
    | .matched stop r => findCandidates attempt c start children (⟨stop, child, r⟩ :: found) best
    | .failed d => findCandidates attempt c start children found (furthestOf best d)

/-- Whether a match is longer than the longest one so far, if there is one. -/
def isLonger (longest : Option (Nat × Results)) (stop : Nat) : Bool :=
  match longest with
  | some (old, _) => decide (old < stop)
  | none => true

/-- Attempts a candidate with actions, and goes on with the longest match and the furthest failure as long as a
later candidate can be longer. -/
def tryCandidate (attempt : Attempt) (c : Context) (start : Nat) (candidate : Candidate)
    (longest : Option (Nat × Results)) (best : Option Diagnostic)
    (next : Option (Nat × Results) → Option Diagnostic → MatchM Step) : MatchM Step := do
  match ← attempt c candidate.child start true true with
  | .matched stop r =>
    if candidate.stop ≤ stop then return .matched stop r
    next (if isLonger longest stop then some (stop, r) else longest) best
  | .failed d => next longest (furthestOf best d)

/-- Attempts candidates with actions, the longest first. An action may reject or change a match, so the longest
match so far is kept until no later candidate can be longer. -/
def matchCandidates (attempt : Attempt) (c : Context) (rule : Rule) (start : Nat) :
    List Candidate → (longest : Option (Nat × Results)) → (best : Option Diagnostic) → MatchM Step
  | [], longest, best => pure (match longest with
    | some (stop, r) => .matched stop r
    | none => choiceFailure best start rule)
  | candidate :: candidates, longest, best => do
    match longest with
    | some (stop, r) =>
      if candidate.stop ≤ stop then return .matched stop r
    | none => pure ()
    tryCandidate attempt c start candidate longest best (matchCandidates attempt c rule start candidates)

/-- Matches the child that matches most, the first of several. -/
def matchLongest (attempt : Attempt) (c : Context) (rule : Rule) (children : List ExprId) (start : Nat)
    (acts : Bool) : MatchM Step := do
  let (found, best) ← findCandidates attempt c start children [] none
  let sorted := found.mergeSort fun a b => b.stop ≤ a.stop
  if acts then matchCandidates attempt c rule start sorted none best
  else
    match sorted with
    | candidate :: _ => return .matched candidate.stop candidate.results
    | [] => return choiceFailure best start rule

end Packrat
