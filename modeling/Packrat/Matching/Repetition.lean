import Packrat.Matching.State

/-!
# `Packrat.Matching.Repetition` — a child several times

A repetition goes on until its child fails, consumes nothing, has matched often enough, or the stop test
matches. Every round but the last consumes text, so the length of the text bounds the number of rounds.
-/

namespace Packrat

/-- What rounds of a repetition have given: where the last one ended, their number, the results, and the
failure that ended them, if one did. -/
structure Rounds where
  loc : Nat
  count : Nat
  results : Results
  failure : Option Diagnostic
deriving Inhabited

/-- The failure of a stop test that matched. -/
def unwanted (name : String) (loc : Nat) : Diagnostic := ⟨loc, "Found unwanted token, " ++ name⟩

/-- A round, and the rounds `again` after it if it consumes text. -/
def takeRound (attempt : Attempt) (c : Context) (child : ExprId) (acts : Bool) (again : Rounds → MatchM Rounds)
    (r : Rounds) : MatchM Rounds := do
  match ← attempt c child r.loc acts true with
  | .matched after part =>
    let next : Rounds := { r with loc := after, count := r.count + 1, results := r.results.extend part }
    if r.loc < after then again next else return next
  | .failed d => return { r with failure := some d }

/-- Rounds of a repetition. -/
def repeatRounds (attempt : Attempt) (c : Context) (child : ExprId) (max : Option Nat)
    (stop : Option ExprId) (acts : Bool) : (fuel : Nat) → Rounds → MatchM Rounds
  | 0, r => pure r
  | fuel + 1, r => do
    if max.any (· ≤ r.count) then return r
    match stop with
    | some id =>
      match ← probe attempt c id r.loc with
      | .matched _ _ => return { r with failure := some (unwanted (c.rule id).display r.loc) }
      | .failed _ => pure ()
    | none => pure ()
    takeRound attempt c child acts (repeatRounds attempt c child max stop acts fuel) r

/-- Matches a child at least `min` times. -/
def matchRepetition (attempt : Attempt) (c : Context) (rule : Rule) (child : ExprId) (min : Nat)
    (max : Option Nat) (stop : Option ExprId) (start : Nat) (acts : Bool) : MatchM Step := do
  let r ← repeatRounds attempt c child max stop acts (c.text.size + 2) ⟨start, 0, {}, none⟩
  if r.count < min then
    return match r.failure with
      | some d => .failed d
      | none => Step.failAt r.loc rule
  return .matched r.loc r.results

end Packrat
