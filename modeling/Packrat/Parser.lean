import Packrat.Text.Tabs
import Packrat.Matching.Attempt

/-!
# `Packrat.Parser` — parsing whole texts

A parser holds a grammar with a configuration, and the state that successive parses share. Each parse begins
without remembered outcomes; only the metrics go on counting.

## Contents

* `viewOf` — the text that is matched, with tabs expanded unless they are kept;
* `matchRoot` — the root at the start of a text and, if the whole text is wanted, the end after it;
* `Parser` and `Parser.parse` — parses one after the other, with what they report;
* `Grammar.parse` — a single parse.
-/

namespace Packrat

/-- A text as it is matched. -/
def viewOf (config : Config) (t : Text) : Text := if config.keepTabs then t else t.expandTabs config.tabSize

/-- Matches the root at the start of the text. When the whole text is wanted, only what the root would skip, and
then default whitespace, may follow. -/
def matchRoot (c : Context) (all : Bool) : MatchM Step := do
  let g := c.grammar
  match ← attempt c c g.root 0 true true with
  | .failed d => return .failed d
  | .matched stop results =>
    if !all then return .matched stop results
    let loc ← skipLeading (attempt c) c (g.rule g.root) stop
    let loc := c.text.skip g.defaultWhitespace.contains loc
    if loc < c.text.size then return .failed ⟨loc, "Expected end of text"⟩
    return .matched loc results

/-- What a computation on a text comes to, as results or an error. -/
def resolve (t : Text) : EStateM.Result Halt State Step → Except ParseError Results × State
  | .ok (.matched _ results) s => (.ok results, s)
  | .ok (.failed d) s => (.error (.mismatch (Report.of t d)), s)
  | .error h s => (.error (h.toError t), s)

/-! ## Parsers -/

/-- A grammar with a configuration, someone who watches, and the state of its parses. -/
structure Parser where
  grammar : Grammar
  config : Config
  watch : Watch
  state : State

/-- What a parse gives: results or an error, what happened, and what is logged before and after. -/
structure Parsed where
  outcome : Except ParseError Results
  events : List Event
  opening : LogRecord
  closing : LogRecord

namespace Parser

/-- A new parser. -/
def new (grammar : Grammar) (config : Config) (watch : Watch) : Parser :=
  ⟨grammar, config, watch, State.initial config⟩

/-- The record at the beginning of a parse. -/
def openingRecord (config : Config) (t : Text) : LogRecord :=
  ⟨.debug, "parse of " ++ toString t.size ++ " chars with " ++ config.memoization.render ++ " memoization"⟩

/-- The record at the end of a parse. -/
def closingRecord (matched : Bool) (m : Metrics) : LogRecord :=
  ⟨.debug, "parse finished: " ++ (if matched then "matched" else "failed") ++ " (" ++ m.render ++ ")"⟩

/-- Parses a text, or the front of one when not `all` of it is wanted. -/
def parse (p : Parser) (t : Text) (all : Bool) : Parsed × Parser :=
  let view := viewOf p.config t
  let c := Context.top p.grammar p.config p.watch view
  let (outcome, s) := resolve view ((matchRoot c all).run { p.state.forget with journal := [] })
  let parsed : Parsed := {
    outcome
    events := s.journal.reverse
    opening := openingRecord p.config view
    closing := closingRecord outcome.isOk s.metrics }
  (parsed, { p with state := { s with journal := [] } })

/-- The parser without remembered outcomes and with its metrics at zero. -/
def reset (p : Parser) : Parser := { p with state := { p.state.forget with metrics := {} } }

/-- What the parser has done since it was made or reset. -/
def metrics (p : Parser) : Metrics := p.state.metrics

/-- The number of outcomes the parser holds. -/
def held (p : Parser) : Nat := p.state.held

end Parser

/-- Parses a text with a parser of its own. -/
def Grammar.parse (g : Grammar) (config : Config) (watch : Watch) (t : Text) (all : Bool) : Parsed :=
  ((Parser.new g config watch).parse t all).1

end Packrat
