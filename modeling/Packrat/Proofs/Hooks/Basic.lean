import Packrat.Scan

/-!
# `Packrat.Proofs.Hooks.Basic` — a matcher that can be interfered with

Which actions run during a parse, and what becomes of a halt, shows only from inside. Here is the matcher once more
with two hooks, one where an action is called and one around every attempt, and with a record of what attempts are
made for: an attempt whose match is no part of the match around it has a *purpose*, and so has every attempt inside
of it. A property of the parse is then stated as: whatever is done at the hook, the run stays the one without hooks.

## Contents

* `Purpose` — what attempts are made for, other than for their match;
* `Hooks` — what is done where actions are called, and around attempts;
* `matchLongest`, `matchEach`, `growSeed`, … — the ways of matching that make attempts for a purpose; the others
  stay as they are;
* `matchNode`, `attemptWithin` — attempts;
* `parse`, `collect` — runs.
-/

namespace Packrat

/-! ## Purposes -/

/-- What an attempt finds out, when its match is not part of the match of the node that makes it. -/
inductive Purpose
  /-- Whether the text goes on in a certain way. -/
  | lookahead
  /-- Whether it does not. -/
  | notAhead
  /-- Whether something ends at the position. -/
  | behind
  /-- Which of several children matches most. -/
  | comparison
  /-- In which order children occur. -/
  | discovery
  /-- Whether a repetition stops. -/
  | stopTest
  /-- What is ignored before a node. -/
  | ignorable
  /-- Whether a seed grows. -/
  | growth
  /-- Where the target of a skip is. -/
  | search
deriving DecidableEq, Repr

/-- What is done in place of action calls, by the purposes of the attempts around them, the innermost first, and
with the attempts themselves. -/
structure Hooks where
  call : (chain : List Purpose) → Context → Action → (start stop : Nat) → Results → MatchM Step
  made : MatchM Step → MatchM Step

namespace Hooks

/-! ## Ways of matching -/

/-- Matches the child that matches most; `peek` compares. -/
def matchLongest (attempt peek : Attempt) (c : Context) (rule : Rule) (children : List ExprId) (start : Nat)
    (acts : Bool) : MatchM Step := do
  let (found, best) ← findCandidates peek c start children [] none
  let sorted := found.mergeSort fun a b => b.stop ≤ a.stop
  if acts then matchCandidates attempt c rule start sorted none best
  else
    match sorted with
    | candidate :: _ => return .matched candidate.stop candidate.results
    | [] => return choiceFailure best start rule

/-- Matches all children in any order; `peek` finds out the order. -/
def matchEach (attempt peek : Attempt) (c : Context) (children : List ExprId) (start : Nat) (acts : Bool) :
    MatchM Step := do
  let items := (children.map fun child => EachItem.ofChild child (c.rule child).kind).zipIdx
  let found ← discover peek c items (items.length + c.text.size + 2) ⟨start, [], []⟩
  let missing := items.filter fun (item, i) => item.isNeeded && !found.seen.contains i
  if !missing.isEmpty then
    let names := missing.map fun (item, _) => (c.rule item.test).display
    return .failed ⟨start, "Missing one or more required elements (" ++ ", ".intercalate names ++ ")"⟩
  let absent := items.filter fun (item, i) =>
    item.role == .optional && !found.seen.contains i && (c.rule item.run).kind.hasDefault
  runInOrder attempt c acts (found.order.reverse ++ absent.map (·.1.run)) start {}

/-- Rounds of a repetition; `peek` tests for the stop. -/
def repeatRounds (attempt peek : Attempt) (c : Context) (child : ExprId) (max : Option Nat)
    (stop : Option ExprId) (acts : Bool) : (fuel : Nat) → Rounds → MatchM Rounds
  | 0, r => pure r
  | fuel + 1, r => do
    if max.any (· ≤ r.count) then return r
    match stop with
    | some id =>
      match ← probe peek c id r.loc with
      | .matched _ _ => return { r with failure := some (unwanted (c.rule id).display r.loc) }
      | .failed _ => pure ()
    | none => pure ()
    takeRound attempt c child acts (repeatRounds attempt peek c child max stop acts fuel) r

/-- Matches a child at least `min` times. -/
def matchRepetition (attempt peek : Attempt) (c : Context) (rule : Rule) (child : ExprId) (min : Nat)
    (max : Option Nat) (stop : Option ExprId) (start : Nat) (acts : Bool) : MatchM Step := do
  let r ← repeatRounds attempt peek c child max stop acts (c.text.size + 2) ⟨start, 0, {}, none⟩
  if r.count < min then
    return match r.failure with
      | some d => .failed d
      | none => Step.failAt r.loc rule
  return .matched r.loc r.results

/-- Matches all text up to the next match of a target; `peek` looks for it. -/
def matchSkipTo (attempt peek : Attempt) (c : Context) (rule : Rule) (target : ExprId) (includes : Bool)
    (failOn : Option ExprId) (start : Nat) (acts : Bool) : MatchM Step := do
  match ← findAhead peek c target failOn (c.text.size + 2) start with
  | none => return Step.failAt start rule
  | some loc =>
    let skipped : Results := ResultsOf.single (Value.ofText (c.text.slice start loc))
    if !includes then return .matched loc skipped
    match ← attempt c target loc acts false with
    | .matched stop part => return .matched stop (skipped.extend part)
    | .failed d => return .failed d

/-- Rounds of growth; `peek` finds out whether the seed grows. -/
def growRounds (attempt peek : Attempt) (c : Context) (rule : Rule) (keys : SeedKeys) (target : ExprId)
    (limit : Nat) (acts : Bool) : (fuel rounds : Nat) → Seed → MatchM Step
  | 0, _, _ => MatchM.halt .endless
  | fuel + 1, rounds, seed => do
    let grown ← peek c target keys.position false false
    match grown, seed.step with
    | .failed d, .failed _ => keys.refuse acts d
    | _, _ =>
      let next := seed.after grown
      if !furtherEnd seed.stop next.stop then keys.release acts seed.step
      else if limit < rounds + 1 then MatchM.halt (.growthLimit rule.display keys.position limit)
      else do
        MatchM.count fun m => { m with growths := m.growths + 1 }
        match ← advanceSeed attempt c keys target acts next.step with
        | some d => return .failed d
        | none => growRounds attempt peek c rule keys target limit acts fuel (rounds + 1) next

/-- Answers an attempt of a forward by its seed, or else grows one. -/
def growSeed (attempt peek : Attempt) (c : Context) (rule : Rule) (id target : ExprId) (position : Nat)
    (acts : Bool) : MatchM Step := do
  let keys : SeedKeys := ⟨position, id⟩
  match ← keys.get? acts with
  | some step => return step
  | none =>
    let first : Step := .failed ⟨position, "Forward recursion without base case"⟩
    keys.putAll acts first
    growRounds attempt peek c rule keys target (growthBound c position) acts (c.text.size + 2) 0 ⟨none, first⟩

variable (H : Hooks)

/-- Matches a node with attempts, and with attempts under each purpose. -/
def matchNode (chain : List Purpose) (attempt : Attempt) (under : Purpose → Attempt) (c : Context) (id : ExprId)
    (rule : Rule) (start : Nat) (acts : Bool) : MatchM Step :=
  match rule.kind with
  | .longestChoice children => matchLongest attempt (under .comparison) c rule children start acts
  | .each children => matchEach attempt (under .discovery) c children start acts
  | .repetition child min max stop =>
    matchRepetition attempt (under .stopTest) c rule child min max stop start acts
  | .lookahead _ => Packrat.matchNode (under .lookahead) c id rule start acts
  | .notAhead _ => Packrat.matchNode (under .notAhead) c id rule start acts
  | .precededBy _ _ => Packrat.matchNode (under .behind) c id rule start acts
  | .forward _ (some target) =>
    if c.config.memoization = .leftRecursion then growSeed attempt (under .growth) c rule id target start acts
    else attempt c target start acts false
  | .transform child action => do
    match ← attempt c child start acts false with
    | .matched stop r => if acts then H.call chain c action start stop r else return .matched stop r
    | .failed d => return .failed d
  | .skipTo target includes failOn => matchSkipTo attempt (under .search) c rule target includes failOn start acts
  | .stringStart => Packrat.matchNode (under .ignorable) c id rule start acts
  | _ => Packrat.matchNode attempt c id rule start acts

/-! ## Attempts -/

/-- Skips what comes before a node, matches it, and reports. -/
def perform (chain : List Purpose) (attempt : Attempt) (under : Purpose → Attempt) (c : Context) (id : ExprId)
    (position : Nat) (acts skips : Bool) : MatchM Step := do
  let rule := c.rule id
  let watched := c.watch.wants rule
  reportTry c.watch watched id position
  let start ← if skips then skipLeading (under .ignorable) c rule position else pure position
  let step ← H.matchNode chain attempt under c id rule start acts
  let step := step.mapResults (ResultsOf.withOrigin id)
  reportStep watched id start step
  return step

/-- Answers an attempt from memory, or performs and remembers it. -/
def remember (chain : List Purpose) (attempt : Attempt) (under : Purpose → Attempt) (c : Context) (id : ExprId)
    (position : Nat) (acts skips : Bool) : MatchM Step := do
  MatchM.count fun m => { m with attempts := m.attempts + 1 }
  let skips := skips && !c.adjacent
  if !(← remembers) then H.perform chain attempt under c id position acts skips
  else
    let key : MemoKey := ⟨id, position, acts, skips, c.adjacent⟩
    match ← consult key with
    | some step => return step
    | none =>
      let step ← H.perform chain attempt under c id position acts skips
      store key step
      return step

/-- Attempts that nest at most `fuel` deep, made under a chain of purposes. -/
def attemptWithin : (fuel : Nat) → (chain : List Purpose) → Attempt
  | 0, _, _, _, _, _, _ => H.made (MatchM.halt .endless)
  | fuel + 1, chain, c, id, position, acts, skips =>
    let answer := H.remember chain (attemptWithin fuel chain) (fun u => attemptWithin fuel (u :: chain)) c.deeper id
      position acts skips
    H.made (match c.config.recursionLimit with
      | some limit => if limit ≤ c.depth then MatchM.halt (.recursionLimit limit position) else answer
      | none => answer)

/-- Attempts in a context. -/
def attempt (c : Context) (chain : List Purpose) : Attempt := H.attemptWithin (attemptFuel c) chain

/-! ## Runs -/

/-- Matches the root at the start of the text, and the end after it if the whole text is wanted. -/
def matchRoot (c : Context) (all : Bool) : MatchM Step := do
  let g := c.grammar
  match ← H.attempt c [] c g.root 0 true true with
  | .failed d => return .failed d
  | .matched stop results =>
    if !all then return .matched stop results
    let loc ← skipLeading (H.attempt c [.ignorable]) c (g.rule g.root) stop
    let loc := c.text.skip g.defaultWhitespace.contains loc
    if loc < c.text.size then return .failed ⟨loc, "Expected end of text"⟩
    return .matched loc results

/-- Parses a text. -/
def parse (p : Parser) (t : Text) (all : Bool) : Parsed × Parser :=
  let view := viewOf p.config t
  let c := Context.top p.grammar p.config p.watch view
  let (outcome, s) := resolve view ((H.matchRoot c all).run { p.state.forget with journal := [] })
  let parsed : Parsed := {
    outcome
    events := s.journal.reverse
    opening := Parser.openingRecord p.config view
    closing := Parser.closingRecord outcome.isOk s.metrics }
  (parsed, { p with state := { s with journal := [] } })

/-- Skips what comes before the root, and attempts the root there. -/
def attemptAt (c : Context) (position : Nat) : MatchM (Nat × Step) := do
  let root := c.grammar.root
  let start ← skipLeading (H.attempt c [.ignorable]) c (c.grammar.rule root) position
  let step ← H.attempt c [] c root start true false
  return (start, step)

/-- Attempts from the current position of a scan on, until one yields something or the text ends. -/
def nextWithin : (fuel : Nat) → Scan → Option Item × Scan
  | 0, s => (none, { s with done := true })
  | fuel + 1, s =>
    if s.done || s.context.text.size < s.position then (none, { s with done := true })
    else
      match (H.attemptAt s.context s.position).run s.state with
      | .error h state => (some (.error (h.toError s.context.text)), { s with state, done := true })
      | .ok (start, .matched stop results) state =>
        if s.position < stop then (some (.ok ⟨results, start, stop⟩), { s with state, position := stop })
        else nextWithin fuel { s with state, position := s.context.text.next start }
      | .ok (start, .failed _) state =>
        nextWithin fuel { s with state, position := s.context.text.next start }

/-- Up to `n` items of a scan, each with the position after it. -/
def collect : (n : Nat) → Scan → List (Item × Nat) × Scan
  | 0, s => ([], s)
  | n + 1, s =>
    match H.nextWithin (s.context.text.size + 2) s with
    | (none, s) => ([], s)
    | (some item, s) =>
      let (items, last) := collect n s
      ((item, s.position) :: items, last)

end Hooks
end Packrat
