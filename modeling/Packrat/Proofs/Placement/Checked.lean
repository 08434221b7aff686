import Packrat.Scan
import Packrat.Proofs.Placement.Boundary

/-!
# `Packrat.Proofs.Placement.Checked` — a matcher that checks where it is

A position is a number, and may lie inside a character or past the end of the text; a text that is cut there gives
nothing. Here is the matcher with a check before every cut of the text, of every position that an attempt is made at
or starts matching at after skipping, and of every outcome. A check that fails halts the run, with a halt of one's
choice.

## Contents

* `require`, `cut`, `between`, `reaches` — the checks;
* `skipLeading`, `matchToken`, `matchSkipTo`, `matchNode`, … — the ways of matching that cut the text; the others
  attempt other nodes only, and stay as they are;
* `perform`, `remember`, `attemptWithin` — attempts;
* `parse`, `collect`, `replace` — runs.
-/

namespace Packrat
namespace Checked

variable (e : Halt)

/-! ## Checks -/

/-- Halts unless a condition holds. -/
def require (holds : Prop) [Decidable holds] : MatchM Unit := if holds then pure () else MatchM.halt e

/-- Checks that a text can be cut at a position. -/
def cut (t : Text) (p : Nat) : MatchM Unit := require e (t.IsBoundary p)

example (s : State) : cut .outOfRange ['é'] 1 s = .error .outOfRange s := rfl

/-- Checks that the part of a text between two positions can be cut out. -/
def between (t : Text) (start stop : Nat) : MatchM Unit := require e ((t.slice? start stop).isSome = true)

/-- Checks that a position is a place of the text, and so not past its end, and not before another. -/
def reaches (t : Text) (p q : Nat) : MatchM Unit := require e (p ≤ q ∧ t.IsBoundary q)

/-! ## Skipping -/

/-- Skips characters of a set. -/
def skip (set : Char → Bool) (t : Text) (p : Nat) : MatchM Nat := do
  cut e t p
  return t.skip set p

/-- The position just past the character at `p`. -/
def next (t : Text) (p : Nat) : MatchM Nat := do
  cut e t p
  return t.next p

/-- Skips what a node has skipped before it. -/
def skipLeading (attempt : Attempt) (c : Context) (rule : Rule) (loc : Nat) : MatchM Nat := do
  let loc ← skipIgnorables attempt c rule.ignores loc
  if rule.skipsWhitespace then skip e rule.whitespace.contains c.text loc else return loc

/-- Whether a position is the start of the text, or where skipping from the start leads. -/
def atTextStart (attempt : Attempt) (c : Context) (rule : Rule) (start : Nat) : MatchM Bool := do
  if start = 0 then return true
  return start = (← skipLeading e attempt c rule 0)

/-! ## Terminals -/

/-- The lengths at which a terminal cuts the rest of the text: a keyword looks at what comes after its literal, and
words and runs of other characters are taken out of the text. -/
def tokenCuts (rule : Rule) (rest : Text) : List Nat :=
  match rule.kind with
  | .keyword text caseless _ => (matchLiteral? caseless text.toList rest).toList
  | .word _ body _ max =>
    match rest with
    | [] => []
    | c :: r => [Text.size (c :: takeRun body.contains (max.map (· - 1)) r)]
  | .charsNotIn excluded _ max => [Text.size (takeRun (fun c => !excluded.contains c) max rest)]
  | _ => []

/-- Matches a terminal. -/
def matchToken (rule : Rule) (t : Text) (start : Nat) : MatchM Step := do
  cut e t start
  (tokenCuts rule (t.rest start)).forM (cut e (t.rest start))
  return Packrat.matchToken rule t start

/-- Tests a place. -/
def testPosition (rule : Rule) (t : Text) (start : Nat) : MatchM Step := do
  cut e t start
  return Packrat.testPosition rule t start

/-! ## Skipping ahead -/

/-- Attempts a target, and looks for it from the next position on if it fails. -/
def tryTarget (attempt : Attempt) (c : Context) (target : ExprId) (again : Nat → MatchM (Option Nat)) (loc : Nat) :
    MatchM (Option Nat) := do
  let loc ← skipIgnorables attempt c (c.rule target).ignores loc
  match ← MatchM.recover (attempt c target loc false false) with
  | .matched _ _ => return some loc
  | .failed _ => again (← next e c.text loc)

/-- The first position from `loc` on at which a target matches, or before that one at which `failOn` does. -/
def findAhead (attempt : Attempt) (c : Context) (target : ExprId) (failOn : Option ExprId) :
    (fuel loc : Nat) → MatchM (Option Nat)
  | 0, _ => pure none
  | fuel + 1, loc => do
    if c.text.size < loc then return none
    match failOn with
    | some id =>
      match ← probe attempt c id loc with
      | .matched _ _ => return some loc
      | .failed _ => pure ()
    | none => pure ()
    tryTarget e attempt c target (findAhead attempt c target failOn fuel) loc

/-- Matches all text up to the next match of a target. -/
def matchSkipTo (attempt : Attempt) (c : Context) (rule : Rule) (target : ExprId) (includes : Bool)
    (failOn : Option ExprId) (start : Nat) (acts : Bool) : MatchM Step := do
  match ← findAhead e attempt c target failOn (c.text.size + 2) start with
  | none => return Step.failAt start rule
  | some loc =>
    between e c.text start loc
    let skipped : Results := ResultsOf.single (Value.ofText (c.text.slice start loc))
    if !includes then return .matched loc skipped
    match ← attempt c target loc acts false with
    | .matched stop part => return .matched stop (skipped.extend part)
    | .failed d => return .failed d

/-! ## Nodes -/

/-- Matches a node at a position, before which everything has been skipped. An action may ask for the text that was
matched, so this is checked too. -/
def matchNode (attempt : Attempt) (c : Context) (id : ExprId) (rule : Rule) (start : Nat) (acts : Bool) :
    MatchM Step :=
  match rule.kind with
  | .literal _ _ | .keyword _ _ _ | .word _ _ _ _ | .charsNotIn _ _ _ | .pattern _ _ =>
    matchToken e rule c.text start
  | .stringEnd | .lineStart | .lineEnd | .wordStart _ | .wordEnd _ => testPosition e rule c.text start
  | .stringStart => do
    if ← atTextStart e attempt c rule start then return .matched start {} else return Step.failAt start rule
  | .precededBy child retreat => do
    cut e c.text start
    matchPrecededBy attempt c rule child retreat start acts
  | .transform child action => do
    match ← attempt c child start acts false with
    | .matched stop r => do
      between e c.text start stop
      if acts then runAction c action start stop r else return .matched stop r
    | .failed d => return .failed d
  | .originalText child => do
    match ← attempt c child start acts false with
    | .matched stop r => do
      between e c.text start stop
      return .matched stop (r.setTokens [Value.ofText (c.text.slice start stop)])
    | .failed d => return .failed d
  | .skipTo target includes failOn => matchSkipTo e attempt c rule target includes failOn start acts
  | _ => Packrat.matchNode attempt c id rule start acts

/-! ## Attempts -/

/-- Skips what comes before a node, matches it, and reports. -/
def perform (attempt : Attempt) (c : Context) (id : ExprId) (position : Nat) (acts skips : Bool) :
    MatchM Step := do
  let rule := c.rule id
  let watched := c.watch.wants rule
  reportTry c.watch watched id position
  let start ← if skips then skipLeading e attempt c rule position else pure position
  reaches e c.text position start
  let step ← matchNode e attempt c id rule start acts
  reaches e c.text start step.place
  let step := step.mapResults (ResultsOf.withOrigin id)
  reportStep watched id start step
  return step

/-- Answers an attempt from memory, or performs and remembers it. -/
def remember (attempt : Attempt) (c : Context) (id : ExprId) (position : Nat) (acts skips : Bool) :
    MatchM Step := do
  MatchM.count fun m => { m with attempts := m.attempts + 1 }
  let skips := skips && !c.adjacent
  if !(← remembers) then perform e attempt c id position acts skips
  else
    let key : MemoKey := ⟨id, position, acts, skips, c.adjacent⟩
    match ← consult key with
    | some step =>
      reaches e c.text position step.place
      return step
    | none =>
      let step ← perform e attempt c id position acts skips
      store key step
      return step

/-- Attempts that nest at most `fuel` deep. -/
def attemptWithin : (fuel : Nat) → Attempt
  | 0, _, _, _, _, _ => MatchM.halt .endless
  | fuel + 1, c, id, position, acts, skips => do
    cut e c.text position
    match c.config.recursionLimit with
    | some limit =>
      if limit ≤ c.depth then MatchM.halt (.recursionLimit limit position)
      else remember e (attemptWithin fuel) c.deeper id position acts skips
    | none => remember e (attemptWithin fuel) c.deeper id position acts skips

/-- Attempts in a context. -/
def attempt (c : Context) : Attempt := attemptWithin e (attemptFuel c)

/-! ## Parses -/

/-- Matches the root at the start of the text, and the end after it if the whole text is wanted. -/
def matchRoot (c : Context) (all : Bool) : MatchM Step := do
  let g := c.grammar
  match ← attempt e c c g.root 0 true true with
  | .failed d => return .failed d
  | .matched stop results =>
    if !all then return .matched stop results
    let loc ← skipLeading e (attempt e c) c (g.rule g.root) stop
    let loc ← skip e g.defaultWhitespace.contains c.text loc
    if loc < c.text.size then return .failed ⟨loc, "Expected end of text"⟩
    return .matched loc results

/-- Parses a text. -/
def parse (p : Parser) (t : Text) (all : Bool) : Parsed × Parser :=
  let view := viewOf p.config t
  let c := Context.top p.grammar p.config p.watch view
  let (outcome, s) := resolve view ((matchRoot e c all).run { p.state.forget with journal := [] })
  let parsed : Parsed := {
    outcome
    events := s.journal.reverse
    opening := Parser.openingRecord p.config view
    closing := Parser.closingRecord outcome.isOk s.metrics }
  (parsed, { p with state := { s with journal := [] } })

/-! ## Scans -/

/-- Skips what comes before the root, and attempts the root there. A scan that goes on cuts the text there. -/
def attemptAt (c : Context) (position : Nat) : MatchM (Nat × Step) := do
  let root := c.grammar.root
  let start ← skipLeading e (attempt e c) c (c.grammar.rule root) position
  reaches e c.text position start
  let step ← attempt e c c root start true false
  reaches e c.text start step.place
  return (start, step)

/-- Attempts from the current position on, until one yields something or the text ends. -/
def nextWithin : (fuel : Nat) → Scan → Option Item × Scan
  | 0, s => (none, { s with done := true })
  | fuel + 1, s =>
    if s.done || s.context.text.size < s.position then (none, { s with done := true })
    else
      match (attemptAt e s.context s.position).run s.state with
      | .error h state => (some (.error (h.toError s.context.text)), { s with state, done := true })
      | .ok (start, .matched stop results) state =>
        if s.position < stop then (some (.ok ⟨results, start, stop⟩), { s with state, position := stop })
        else nextWithin fuel { s with state, position := s.context.text.next start }
      | .ok (start, .failed _) state =>
        nextWithin fuel { s with state, position := s.context.text.next start }

/-- Up to `n` items, each with the position after it. -/
def collect : (n : Nat) → Scan → List (Item × Nat) × Scan
  | 0, s => ([], s)
  | n + 1, s =>
    match nextWithin e (s.context.text.size + 2) s with
    | (none, s) => ([], s)
    | (some item, s) =>
      let (items, last) := collect n s
      ((item, s.position) :: items, last)

/-- A text with its matches replaced by their joined tokens, from position `last` on and up to the first error;
`none` when the text cannot be cut where a match starts or ends. -/
def replace (t : Text) : (last : Nat) → List Item → Option (Except ParseError Text)
  | last, [] => (t.drop? last).map .ok
  | _, .error err :: _ => some (.error err)
  | last, .ok f :: items => do
    let kept ← t.slice? last f.start
    let rest ← replace t f.stop items
    return rest.map (kept ++ f.results.joined.toList ++ ·)

end Checked
end Packrat
