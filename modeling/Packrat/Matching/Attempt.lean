import Packrat.Results.View
import Packrat.Matching.Token
import Packrat.Matching.Skip
import Packrat.Matching.Choice
import Packrat.Matching.Each
import Packrat.Matching.Repetition
import Packrat.Matching.Around
import Packrat.Matching.Growth

/-!
# `Packrat.Matching.Attempt` — attempts of nodes

Each way of matching takes the attempts of other nodes as a function; here the circle is closed. An attempt
checks the limit of nesting, looks for a remembered outcome, skips what comes before the node, matches the
node, and reports.

The recursion is bounded by the nesting of attempts. Under a limit of nesting the bound is never met, because
the limit is; without one it is larger than the nesting of any attempt that ends.

## Contents

* `runAction` — actions;
* `matchNode` — matching each kind of node, given attempts;
* `perform`, `remember` — one attempt without and with memory;
* `attemptWithin`, `attempt` — the closed circle.
-/

namespace Packrat

/-! ## Actions -/

/-- Runs an action on a match. -/
def runAction (c : Context) (action : Action) (start stop : Nat) (results : Results) : MatchM Step := do
  let reply := action.run ⟨c.text, start, stop⟩ results
  MatchM.notes reply.notes
  match reply.outcome with
  | .ok results => return .matched stop results
  | .error (.reject message) => return .failed ⟨start, message⟩
  | .error (.fatal message) => MatchM.halt (.committed ⟨start, message⟩)
  | .error (.failed cause) => MatchM.halt (.action start cause)
  | .error .outOfRange => MatchM.halt .outOfRange

/-! ## Kinds of nodes -/

/-- What stands for an absent child: its default, under the name of the child if that is a named node. -/
def absentResults (default : Option Value) (child : NodeKind) : Results :=
  match default with
  | none => {}
  | some v =>
    let r : Results := ResultsOf.single v
    match child with
    | .named _ name accumulates => r.nameTokens name accumulates false
    | _ => r

/-- Whether a position is the start of the text, or where skipping from the start leads. -/
def atTextStart (attempt : Attempt) (c : Context) (rule : Rule) (start : Nat) : MatchM Bool := do
  if start = 0 then return true
  return start = (← skipLeading attempt c rule 0)

/-- Matches a node at a position, before which everything has been skipped. -/
def matchNode (attempt : Attempt) (c : Context) (id : ExprId) (rule : Rule) (start : Nat) (acts : Bool) :
    MatchM Step :=
  match rule.kind with
  | .literal _ _ | .keyword _ _ _ | .word _ _ _ _ | .charsNotIn _ _ _ | .pattern _ _ =>
    pure (matchToken rule c.text start)
  | .sequence children => matchSequence attempt c acts children true false start {}
  | .orderedChoice children => matchFirst attempt c rule start acts children none
  | .longestChoice children => matchLongest attempt c rule children start acts
  | .each children => matchEach attempt c children start acts
  | .repetition child min max stop => matchRepetition attempt c rule child min max stop start acts
  | .optional child default => do
    match ← attempt c child start acts false with
    | .matched stop r => return .matched stop r
    | .failed _ => return .matched start (absentResults default (c.rule child).kind)
  | .lookahead child => do
    match ← MatchM.recover (attempt c child start acts true) with
    | .matched _ r => return .matched start (r.setTokens [])
    | .failed d => return .failed d
  | .notAhead child => do
    match ← probe attempt c child start with
    | .matched _ _ => return Step.failAt start rule
    | .failed _ => return .matched start {}
  | .precededBy child retreat => matchPrecededBy attempt c rule child retreat start acts
  | .forward label none => MatchM.halt (.unboundForward label)
  | .forward _ (some target) =>
    if c.config.memoization = .leftRecursion then growSeed attempt c rule id target start acts
    else attempt c target start acts false
  | .transform child action => do
    match ← attempt c child start acts false with
    | .matched stop r => if acts then runAction c action start stop r else return .matched stop r
    | .failed d => return .failed d
  | .named child name accumulates => do
    let step ← attempt c child start acts false
    return step.mapResults (ResultsOf.nameTokens name accumulates (c.rule child).savesList)
  | .group child => do
    let step ← attempt c child start acts false
    return step.mapResults fun r => ResultsOf.single (.group r)
  | .dict child => do
    let step ← attempt c child start acts false
    return step.mapResults ResultsOf.nameGroupsByKey
  | .suppress child => do
    let step ← attempt c child start acts false
    return step.mapResults fun _ => {}
  | .combine child joiner => do
    let step ← attempt c.combined child start acts false
    return step.mapResults fun r => r.setTokens [Value.str (joiner.intercalate r.strings)]
  | .originalText child => do
    match ← attempt c child start acts false with
    | .matched stop r => return .matched stop (r.setTokens [Value.ofText (c.text.slice start stop)])
    | .failed d => return .failed d
  | .skipTo target includes failOn => matchSkipTo attempt c rule target includes failOn start acts
  | .empty => pure (.matched start {})
  | .noMatch => pure (Step.failAt start rule)
  | .stringStart => do
    if ← atTextStart attempt c rule start then return .matched start {} else return Step.failAt start rule
  | .stringEnd | .lineStart | .lineEnd | .wordStart _ | .wordEnd _ => pure (testPosition rule c.text start)
  | .commit => pure (.matched start {})

/-! ## One attempt -/

/-- Reports the beginning of an attempt. -/
def reportTry (watch : Watch) (watched : Bool) (id : ExprId) (position : Nat) : MatchM Unit :=
  if watched then MatchM.note (.tried id position)
  else if watch.mentionsOthers then MatchM.note (.passed id position)
  else pure ()

/-- Reports the outcome of an attempt of a watched node. -/
def reportStep (watched : Bool) (id : ExprId) (start : Nat) (step : Step) : MatchM Unit :=
  if watched then
    match step with
    | .matched stop r => MatchM.note (.matched id start stop r)
    | .failed d => MatchM.note (.failed id d)
  else pure ()

/-- Skips what comes before a node, matches it, and reports. -/
def perform (attempt : Attempt) (c : Context) (id : ExprId) (position : Nat) (acts skips : Bool) :
    MatchM Step := do
  let rule := c.rule id
  let watched := c.watch.wants rule
  reportTry c.watch watched id position
  let start ← if skips then skipLeading attempt c rule position else pure position
  let step ← matchNode attempt c id rule start acts
  let step := step.mapResults (ResultsOf.withOrigin id)
  reportStep watched id start step
  return step

/-- Looks an outcome up, and counts whether it was there. -/
def consult (key : MemoKey) : MatchM (Option Step) := fun s =>
  let (found, memo) := s.memo.find? key
  let metrics := if found.isSome then { s.metrics with hits := s.metrics.hits + 1 }
    else { s.metrics with misses := s.metrics.misses + 1 }
  .ok found { s with memo, metrics }

/-- Remembers an outcome. -/
def store (key : MemoKey) (step : Step) : MatchM Unit := fun s =>
  .ok () { s with memo := s.memo.insert key step }

/-- Whether outcomes are remembered. -/
def remembers : MatchM Bool := fun s => .ok s.memo.isOn s

/-- Answers an attempt from memory, or performs and remembers it. Nothing skips inside a combined region. -/
def remember (attempt : Attempt) (c : Context) (id : ExprId) (position : Nat) (acts skips : Bool) :
    MatchM Step := do
  MatchM.count fun m => { m with attempts := m.attempts + 1 }
  let skips := skips && !c.adjacent
  if !(← remembers) then perform attempt c id position acts skips
  else
    let key : MemoKey := ⟨id, position, acts, skips, c.adjacent⟩
    match ← consult key with
    | some step => return step
    | none =>
      let step ← perform attempt c id position acts skips
      store key step
      return step

/-! ## The closed circle -/

/-- Attempts that nest at most `fuel` deep. -/
def attemptWithin : (fuel : Nat) → Attempt
  | 0, _, _, _, _, _ => MatchM.halt .endless
  | fuel + 1, c, id, position, acts, skips =>
    match c.config.recursionLimit with
    | some limit =>
      if limit ≤ c.depth then MatchM.halt (.recursionLimit limit position)
      else remember (attemptWithin fuel) c.deeper id position acts skips
    | none => remember (attemptWithin fuel) c.deeper id position acts skips

/-- More than the nesting of any attempt that ends: without a limit, an attempt that nests in itself with
nothing changed never ends, and what can change between two nested attempts of one node are the position, the
end of the text when looking behind, the flags, and the seeds that are set. -/
def nestingBound (g : Grammar) (t : Text) : Nat :=
  let places := t.size + 1
  (8 * g.size * places * places + 1) * (2 * g.size * places + 2)

/-- The fuel that no attempt in a context uses up. -/
def attemptFuel (c : Context) : Nat :=
  match c.config.recursionLimit with
  | some limit => limit + 1
  | none => nestingBound c.grammar c.text

/-- Attempts in a context. -/
def attempt (c : Context) : Attempt := attemptWithin (attemptFuel c)

end Packrat
