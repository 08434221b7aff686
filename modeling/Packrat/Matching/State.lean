import Packrat.Matching.Memo

/-!
# `Packrat.Matching.State` — what a parse carries along

`Context` is what an attempt is given, `State` is what it may change, and `MatchM` is a computation that
changes the state and may halt. The state survives a halt, so whatever was counted or noted before it is kept.
-/

namespace Packrat

/-- How much was done. -/
structure Metrics where
  /-- Attempts, answered from memory or not. -/
  attempts : Nat := 0
  hits : Nat := 0
  misses : Nat := 0
  /-- Rounds in which a seed grew. -/
  growths : Nat := 0
deriving DecidableEq, Repr, Inhabited

/-- Metrics as log records show them. -/
def Metrics.render (m : Metrics) : String :=
  "ParseMetrics \x7b attempts: " ++ toString m.attempts ++ ", cache_hits: " ++ toString m.hits
    ++ ", cache_misses: " ++ toString m.misses ++ ", growth_iterations: " ++ toString m.growths ++ " \x7d"

/-- What changes during a parse. -/
structure State where
  memo : Memo
  seeds : Seeds
  metrics : Metrics
  /-- What happened, the latest first. -/
  journal : List Event
deriving Inhabited

namespace State

/-- The state at the beginning. -/
def initial (config : Config) : State := ⟨Memo.ofStrategy config.memoization, .empty, {}, []⟩

/-- The state without remembered outcomes, which are only valid for one text. -/
def forget (s : State) : State := { s with memo := s.memo.clear, seeds := .empty }

/-- The number of outcomes held, seeds included. -/
def held (s : State) : Nat := s.memo.size + s.seeds.size

end State

/-- What an attempt is given. -/
structure Context where
  grammar : Grammar
  config : Config
  text : Text
  watch : Watch
  /-- How many attempts are open. -/
  depth : Nat
  /-- Whether the attempt happens inside a combined region, in which nothing skips. -/
  adjacent : Bool

namespace Context

/-- The context of a whole parse. -/
def top (grammar : Grammar) (config : Config) (watch : Watch) (text : Text) : Context :=
  ⟨grammar, config, text, watch, 0, false⟩

/-- The context one level deeper. -/
def deeper (c : Context) : Context := { c with depth := c.depth + 1 }

/-- The context inside a combined region. -/
def combined (c : Context) : Context := { c with adjacent := true }

/-- The context of looking back from a position: the text ends there. -/
def behind (c : Context) (position : Nat) : Context :=
  { c with text := c.text.before position, adjacent := false }

/-- The rule at an index. -/
def rule (c : Context) (id : ExprId) : Rule := c.grammar.rule id

end Context

/-- A computation that changes the state of a parse and may halt. -/
abbrev MatchM := EStateM Halt State

/-- An attempt of a node at a position, with or without running actions, with or without skipping first. -/
abbrev Attempt := Context → ExprId → (position : Nat) → (acts skips : Bool) → MatchM Step

namespace MatchM

/-- Ends the parse. -/
@[inline] def halt {α : Type} (h : Halt) : MatchM α := fun s => .error h s

/-- Turns a committed failure into an ordinary one. -/
@[inline] def recover (m : MatchM Step) : MatchM Step := fun s =>
  match m s with
  | .error (.committed d) s => .ok (.failed d) s
  | r => r

/-- Writes into the journal. -/
@[inline] def note (e : Event) : MatchM Unit := fun s => .ok () { s with journal := e :: s.journal }

/-- Writes lines of an action into the journal, in order. -/
def notes (lines : List String) : MatchM Unit := fun s =>
  .ok () { s with journal := (lines.map Event.note).reverse ++ s.journal }

/-- Counts. -/
@[inline] def count (f : Metrics → Metrics) : MatchM Unit := fun s => .ok () { s with metrics := f s.metrics }

end MatchM

/-- Attempts a node without actions, with skipping; a committed failure counts as an ordinary one. -/
@[inline] def probe (attempt : Attempt) (c : Context) (id : ExprId) (position : Nat) : MatchM Step :=
  MatchM.recover (attempt c id position false true)

end Packrat
