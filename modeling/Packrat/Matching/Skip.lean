import Packrat.Matching.State

/-!
# `Packrat.Matching.Skip` — what is skipped before a node

Before a node matches, its ignorables are skipped, over and over until none of them matches any more, and then
the characters of its whitespace set. Each match that is skipped consumes text, so the length of the text
bounds the number of rounds.
-/

namespace Packrat

/-- Skips matches of one ignorable for as long as they consume text. -/
def skipOne (attempt : Attempt) (c : Context) (id : ExprId) : (fuel loc : Nat) → MatchM Nat
  | 0, loc => pure loc
  | fuel + 1, loc => do
    match ← probe attempt c id loc with
    | .matched stop _ => if stop ≤ loc then pure loc else skipOne attempt c id fuel stop
    | .failed _ => pure loc

/-- Skips each ignorable of a list in turn. -/
def skipEach (attempt : Attempt) (c : Context) : (ignores : List ExprId) → (loc : Nat) → MatchM Nat
  | [], loc => pure loc
  | id :: ids, loc => do
    let loc ← skipOne attempt c id (c.text.size + 1) loc
    skipEach attempt c ids loc

/-- Skips ignorables in rounds, until a round skips nothing. -/
def skipRounds (attempt : Attempt) (c : Context) (ignores : List ExprId) : (fuel loc : Nat) → MatchM Nat
  | 0, loc => pure loc
  | fuel + 1, loc => do
    let after ← skipEach attempt c ignores loc
    if after = loc then pure loc else skipRounds attempt c ignores fuel after

/-- Skips ignorables. -/
def skipIgnorables (attempt : Attempt) (c : Context) (ignores : List ExprId) (loc : Nat) : MatchM Nat :=
  if ignores.isEmpty then pure loc else skipRounds attempt c ignores (c.text.size + 1) loc

/-- Skips what a node has skipped before it: its ignorables, and then its whitespace. -/
def skipLeading (attempt : Attempt) (c : Context) (rule : Rule) (loc : Nat) : MatchM Nat := do
  let loc ← skipIgnorables attempt c rule.ignores loc
  return if rule.skipsWhitespace then c.text.skip rule.whitespace.contains loc else loc

end Packrat
