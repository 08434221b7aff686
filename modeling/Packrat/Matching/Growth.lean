import Packrat.Matching.State

/-!
# `Packrat.Matching.Growth` — left recursion by growing seeds

A forward that is attempted again at the same position, while its first attempt there is still open, is
answered by a *seed*. The first seed fails, so the first round of the target matches its alternatives without
left recursion; each further round sees the match of the round before, and the seed grows for as long as the
match gets longer. Rounds are made without actions; when actions are to run, each round that grows is made a
second time with them, on seeds of its own.
-/

namespace Packrat

/-- Where a seed is kept: for attempts without actions and, when actions are to run, for those with them. -/
structure SeedKeys where
  position : Nat
  forward : ExprId
deriving DecidableEq, Repr, Inhabited

namespace SeedKeys

/-- The key for attempts with or without actions. -/
def key (k : SeedKeys) (acts : Bool) : SeedKey := ⟨k.position, k.forward, acts⟩

/-- The seed for attempts with or without actions. -/
def get? (k : SeedKeys) (acts : Bool) : MatchM (Option Step) := fun s => .ok (s.seeds.get? (k.key acts)) s

/-- Sets a seed. -/
def put (k : SeedKeys) (acts : Bool) (step : Step) : MatchM Unit := fun s =>
  .ok () { s with seeds := s.seeds.insert (k.key acts) step }

/-- Removes a seed, and gives it. -/
def take (k : SeedKeys) (acts : Bool) : MatchM (Option Step) := fun s =>
  .ok (s.seeds.get? (k.key acts)) { s with seeds := s.seeds.erase (k.key acts) }

/-- Sets the seed for attempts without actions and, when actions are to run, also the one with them. -/
def putAll (k : SeedKeys) (acts : Bool) (step : Step) : MatchM Unit := do
  k.put false step
  if acts then k.put true step

/-- Answers with a failure, which stays as the seed. -/
def refuse (k : SeedKeys) (acts : Bool) (d : Diagnostic) : MatchM Step := do
  k.putAll acts (.failed d)
  return .failed d

/-- Answers with a seed that grows no further, which is removed; when actions are to run, the answer is the seed
grown with them. -/
def release (k : SeedKeys) (acts : Bool) (step : Step) : MatchM Step := do
  let _ ← k.take false
  if acts then return ((← k.take true).getD step) else return step

end SeedKeys

/-- A seed as far as it has grown: its end, if it matches, and its answer. -/
structure Seed where
  stop : Option Nat
  step : Step
deriving Inhabited

/-- The seed after a round that came to a step. -/
def Seed.after (seed : Seed) : Step → Seed
  | .matched stop r => ⟨some stop, .matched stop r⟩
  | .failed _ => seed

/-- Whether an end is further than another; to match is further than not to match. -/
def furtherEnd (old new : Option Nat) : Bool :=
  match old, new with
  | _, none => false
  | none, some _ => true
  | some a, some b => a < b

/-- Takes a step over as the seed for attempts without actions. When actions are to run the round is made once
more with them; if that fails, the failure is the answer. -/
def advanceSeed (attempt : Attempt) (c : Context) (keys : SeedKeys) (target : ExprId) (acts : Bool)
    (step : Step) : MatchM (Option Diagnostic) := do
  if acts then
    match ← attempt c target keys.position true false with
    | .matched stop r => keys.put true (.matched stop r)
    | .failed d =>
      keys.putAll true (.failed d)
      return some d
  keys.put false step
  return none

/-- Rounds of growth. -/
def growRounds (attempt : Attempt) (c : Context) (rule : Rule) (keys : SeedKeys) (target : ExprId)
    (limit : Nat) (acts : Bool) : (fuel rounds : Nat) → Seed → MatchM Step
  | 0, _, _ => MatchM.halt .endless
  | fuel + 1, rounds, seed => do
    let grown ← attempt c target keys.position false false
    match grown, seed.step with
    | .failed d, .failed _ => keys.refuse acts d
    | _, _ =>
      let next := seed.after grown
      if !furtherEnd seed.stop next.stop then keys.release acts seed.step
      else if limit < rounds + 1 then MatchM.halt (.growthLimit rule.display keys.position limit)
      else do
        MatchM.count fun m => { m with growths := m.growths + 1 }
        match ← advanceSeed attempt c keys target acts next.step with
        | some d => return .failed d
        | none => growRounds attempt c rule keys target limit acts fuel (rounds + 1) next

/-- The rounds allowed for a seed: as many as configured, or one more than there are bytes left. -/
def growthBound (c : Context) (position : Nat) : Nat :=
  c.config.growthLimit.getD (c.text.size - position + 1)

/-- Answers an attempt of a forward by its seed, or else grows one. Every round but the last gets further into
the text, so the length of the text bounds the number of rounds. -/
def growSeed (attempt : Attempt) (c : Context) (rule : Rule) (id target : ExprId) (position : Nat)
    (acts : Bool) : MatchM Step := do
  let keys : SeedKeys := ⟨position, id⟩
  match ← keys.get? acts with
  | some step => return step
  | none =>
    let first : Step := .failed ⟨position, "Forward recursion without base case"⟩
    keys.putAll acts first
    growRounds attempt c rule keys target (growthBound c position) acts (c.text.size + 2) 0 ⟨none, first⟩

end Packrat
