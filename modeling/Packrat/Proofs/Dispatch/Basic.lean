import Packrat.Scan
import Packrat.Proofs.Dispatch.Assembled

/-!
# `Packrat.Proofs.Dispatch.Basic` — a matcher by another way of matching nodes

Which nodes are matched during a run, and how, shows only from inside. Here is the matcher once more with the way of
matching a node left open. What nodes have to do with a run is then stated as: whatever is put in their place, the run
stays what it is.

## Contents

* `NodeMatcher` — ways of matching a node, and the attempts, parses and scans by one;
* `Grammar.RunsBy` — grammars whose runs are the ones by another way of matching nodes;
* `NodeMatcher.Agrees` — ways of matching that are the usual one on the nodes that are attempted;
* `runsBy_of_agrees` — **what nodes that are not attempted would do does not matter**.
-/

namespace Packrat

/-- A way of matching a node at a position, before which everything has been skipped, given attempts. -/
abbrev NodeMatcher := Attempt → Context → ExprId → Rule → (start : Nat) → (acts : Bool) → MatchM Step

namespace NodeMatcher

variable (m : NodeMatcher)

/-! ## Attempts -/

/-- Skips what comes before a node, matches it, and reports. -/
def perform (attempt : Attempt) (c : Context) (id : ExprId) (position : Nat) (acts skips : Bool) : MatchM Step := do
  let rule := c.rule id
  let watched := c.watch.wants rule
  reportTry c.watch watched id position
  let start ← if skips then skipLeading attempt c rule position else pure position
  let step ← m attempt c id rule start acts
  let step := step.mapResults (ResultsOf.withOrigin id)
  reportStep watched id start step
  return step

/-- Answers an attempt from memory, or performs and remembers it. -/
def remember (attempt : Attempt) (c : Context) (id : ExprId) (position : Nat) (acts skips : Bool) : MatchM Step := do
  MatchM.count fun m => { m with attempts := m.attempts + 1 }
  let skips := skips && !c.adjacent
  if !(← remembers) then m.perform attempt c id position acts skips
  else
    let key : MemoKey := ⟨id, position, acts, skips, c.adjacent⟩
    match ← consult key with
    | some step => return step
    | none =>
      let step ← m.perform attempt c id position acts skips
      store key step
      return step

/-- Attempts that nest at most `fuel` deep. -/
def attemptWithin : (fuel : Nat) → Attempt
  | 0, _, _, _, _, _ => MatchM.halt .endless
  | fuel + 1, c, id, position, acts, skips =>
    match c.config.recursionLimit with
    | some limit =>
      if limit ≤ c.depth then MatchM.halt (.recursionLimit limit position)
      else m.remember (attemptWithin fuel) c.deeper id position acts skips
    | none => m.remember (attemptWithin fuel) c.deeper id position acts skips

/-- Attempts in a context. -/
def attempt (c : Context) : Attempt := m.attemptWithin (attemptFuel c)

/-! ## Runs -/

/-- Matches the root at the start of the text, and the end after it if the whole text is wanted. -/
def matchRoot (c : Context) (all : Bool) : MatchM Step := do
  let g := c.grammar
  match ← m.attempt c c g.root 0 true true with
  | .failed d => return .failed d
  | .matched stop results =>
    if !all then return .matched stop results
    let loc ← skipLeading (m.attempt c) c (g.rule g.root) stop
    let loc := c.text.skip g.defaultWhitespace.contains loc
    if loc < c.text.size then return .failed ⟨loc, "Expected end of text"⟩
    return .matched loc results

/-- Parses a text. -/
def parse (p : Parser) (t : Text) (all : Bool) : Parsed × Parser :=
  let view := viewOf p.config t
  let c := Context.top p.grammar p.config p.watch view
  let (outcome, s) := resolve view ((m.matchRoot c all).run { p.state.forget with journal := [] })
  let parsed : Parsed := {
    outcome
    events := s.journal.reverse
    opening := Parser.openingRecord p.config view
    closing := Parser.closingRecord outcome.isOk s.metrics }
  (parsed, { p with state := { s with journal := [] } })

/-- Skips what comes before the root, and attempts the root there. -/
def attemptAt (c : Context) (position : Nat) : MatchM (Nat × Step) := do
  let root := c.grammar.root
  let start ← skipLeading (m.attempt c) c (c.grammar.rule root) position
  let step ← m.attempt c c root start true false
  return (start, step)

/-- Attempts from the current position of a scan on, until one yields something or the text ends. -/
def nextWithin : (fuel : Nat) → Scan → Option Item × Scan
  | 0, s => (none, { s with done := true })
  | fuel + 1, s =>
    if s.done || s.context.text.size < s.position then (none, { s with done := true })
    else
      match (m.attemptAt s.context s.position).run s.state with
      | .error h state => (some (.error (h.toError s.context.text)), { s with state, done := true })
      | .ok (start, .matched stop results) state =>
        if s.position < stop then (some (.ok ⟨results, start, stop⟩), { s with state, position := stop })
        else nextWithin fuel { s with state, position := s.context.text.next start }
      | .ok (start, .failed _) state =>
        nextWithin fuel { s with state, position := s.context.text.next start }

/-- Up to `n` items of a scan, each with the position after it. -/
def collect : (n : Nat) → Scan → List (Item × Nat) × Scan
  | 0, s => ([], s)
  | n + 1, s =>
    match m.nextWithin (s.context.text.size + 2) s with
    | (none, s) => ([], s)
    | (some item, s) =>
      let (items, last) := collect n s
      ((item, s.position) :: items, last)

end NodeMatcher

/-- Parses and scans with a grammar, in every mode, are the ones by another way of matching nodes. -/
structure Grammar.RunsBy (g : Grammar) (m : NodeMatcher) : Prop where
  parse : ∀ config watch state t all,
    m.parse ⟨g, config, watch, state⟩ t all = Parser.parse ⟨g, config, watch, state⟩ t all
  scan : ∀ config watch t n, m.collect n (Scan.new g config watch t) = (Scan.new g config watch t).collect n

/-! ## Ways of matching that agree -/

/-- A way of matching is the usual one on nodes of a set, whatever attempts it is given. -/
def NodeMatcher.Agrees (m : NodeMatcher) (g : Grammar) (N : ExprId → Prop) : Prop :=
  ∀ ⦃a c i start acts⦄, c.grammar = g → N i → m a c i (g.rule i) start acts = matchNode a c i (g.rule i) start acts

namespace NodeMatcher.Agrees

variable {m : NodeMatcher} {g : Grammar} {N : ExprId → Prop} (hN : g.AttemptsWithin N) (h : m.Agrees g N)
include hN h

theorem perform_eq {a₁ a₂ : Attempt} (ha : ∀ {c i p acts skips}, c.grammar = g → N i →
    a₁ c i p acts skips = a₂ c i p acts skips) {c : Context} (hg : c.grammar = g) {i : ExprId} (hi : N i) (p : Nat)
    (acts skips : Bool) : m.perform a₁ c i p acts skips = Packrat.perform a₂ c i p acts skips := by
  have hrule : c.rule i = g.rule i := by rw [Context.rule, hg]
  have hskip : skipLeading a₁ c (g.rule i) p = skipLeading a₂ c (g.rule i) p :=
    (Assembled.skipLeading_assembled (g := g) (C := (·.grammar = g)) hg (fun j hj => hN.ignored hi hj) p).eq ha
  have hnode (start : Nat) : m a₁ c i (g.rule i) start acts = matchNode a₂ c i (g.rule i) start acts :=
    (h hg hi).trans ((Assembled.matchNode_assembled (Grammar.Contexts.all g) hg hN hi start acts).eq ha)
  simp only [NodeMatcher.perform, Packrat.perform, hrule, hskip, hnode]

/-- Attempts of the nodes are the usual ones: by induction on how deep they nest. -/
theorem attemptWithin_eq (n : Nat) {c : Context} (hg : c.grammar = g) {i : ExprId} (hi : N i) (p : Nat)
    (acts skips : Bool) : m.attemptWithin n c i p acts skips = Packrat.attemptWithin n c i p acts skips := by
  induction n generalizing c i p acts skips with
  | zero => rfl
  | succ n ih =>
    have hperform : m.perform (m.attemptWithin n) c.deeper i p acts
        = Packrat.perform (Packrat.attemptWithin n) c.deeper i p acts :=
      funext fun b => h.perform_eq hN (fun hg hi => ih hg hi _ _ _) (c := c.deeper) hg hi p acts b
    have hremember : m.remember (m.attemptWithin n) c.deeper i p acts skips
        = Packrat.remember (Packrat.attemptWithin n) c.deeper i p acts skips := by
      unfold NodeMatcher.remember
      exact hperform ▸ rfl
    unfold NodeMatcher.attemptWithin
    exact hremember ▸ rfl

theorem attempt_eq (c : Context) {c' : Context} (hg : c'.grammar = g) {i : ExprId} (hi : N i) (p : Nat)
    (acts skips : Bool) : m.attempt c c' i p acts skips = Packrat.attempt c c' i p acts skips :=
  h.attemptWithin_eq hN (attemptFuel c) hg hi p acts skips

variable (hroot : N g.root)
include hroot

/-- What is skipped before the root is skipped in the usual way. -/
theorem skipLeading_eq {c : Context} (hg : c.grammar = g) (p : Nat) :
    skipLeading (m.attempt c) c (g.rule g.root) p = skipLeading (Packrat.attempt c) c (g.rule g.root) p :=
  (Assembled.skipLeading_assembled (g := g) (C := (·.grammar = g)) hg (fun _ hj => hN.ignored hroot hj) p).eq fun hg' hi =>
    h.attempt_eq hN c hg' hi _ _ _

theorem matchRoot_eq {c : Context} (hg : c.grammar = g) (all : Bool) : m.matchRoot c all = Packrat.matchRoot c all :=
  (Assembled.matchRootBy_assembled (Grammar.Contexts.all g) hg hN hroot all).eq fun hg' hi =>
    h.attempt_eq hN c hg' hi _ _ _

theorem attemptAt_eq {c : Context} (hg : c.grammar = g) (p : Nat) : m.attemptAt c p = Scan.attemptAt c p := by
  subst hg
  simp only [NodeMatcher.attemptAt, Scan.attemptAt, h.attempt_eq hN c rfl hroot, h.skipLeading_eq hN hroot rfl]

theorem nextWithin_eq (fuel : Nat) {s : Scan} (hg : s.context.grammar = g) :
    m.nextWithin fuel s = s.nextWithin fuel := by
  induction fuel generalizing s with
  | zero => rfl
  | succ fuel ih =>
    unfold NodeMatcher.nextWithin Scan.nextWithin
    rw [h.attemptAt_eq hN hroot hg]
    -- past what yields nothing both go on in the same way
    have hagain (state : State) (start : Nat) := ih (s := ⟨s.context, state, s.context.text.next start, s.done⟩) hg
    rcases (Scan.attemptAt s.context s.position).run s.state with ⟨⟨start, ⟨stop, results⟩ | d⟩, state⟩ | ⟨e, state⟩
    · simp only [hagain]
    · simp only [hagain]
    · rfl

end NodeMatcher.Agrees

/-- **What nodes that are not attempted would do does not matter**: where a way of matching is the usual one on a set of
nodes with the root whose matches attempt nodes of the set, runs by it are the usual ones. -/
theorem Grammar.runsBy_of_agrees {g : Grammar} {m : NodeMatcher} {N : ExprId → Prop} (hN : g.AttemptsWithin N)
    (hroot : N g.root) (h : m.Agrees g N) : g.RunsBy m := by
  refine ⟨fun config watch state t all => ?_, fun config watch t n => ?_⟩
  · have hmatch := h.matchRoot_eq hN hroot (c := Context.top g config watch (viewOf config t)) rfl all
    simp only [NodeMatcher.parse, Parser.parse, hmatch]
  · have hcollect (n : Nat) {s : Scan} (hg : s.context.grammar = g) : m.collect n s = s.collect n := by
      induction n generalizing s with
      | zero => rfl
      | succ n ih =>
        have hcontext := Scan.context_nextWithin (s.context.text.size + 2) s
        unfold NodeMatcher.collect Scan.collect
        rw [h.nextWithin_eq hN hroot _ hg, Scan.next]
        rcases hx : s.nextWithin (s.context.text.size + 2) with ⟨_ | item, s'⟩
        · rfl
        · rw [hx] at hcontext
          simp only [ih (s := s') (hcontext ▸ hg)]
    exact hcollect n rfl

end Packrat
