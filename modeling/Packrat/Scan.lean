import Packrat.Parser

/-!
# `Packrat.Scan` — all matches in a text

A scan attempts the root at each position in turn. After a match it goes on at its end; after a failure, or a
match that gets nowhere, it goes on one character further. An error ends it.

## Contents

* `Scan` and `Scan.next` — one match at a time;
* `Scan.collect` — a number of matches, or all;
* `Scan.search`, `Scan.replace` — all matches, and a text with its matches replaced by their tokens.
-/

namespace Packrat

/-- A scan: what is matched in which text, where the next attempt starts, and whether it is over. -/
structure Scan where
  context : Context
  state : State
  position : Nat
  done : Bool

/-- A match of a scan: its results, its start after skipping, and its end. -/
structure Found where
  results : Results
  start : Nat
  stop : Nat
deriving Inhabited

/-- What a scan yields. -/
abbrev Item := Except ParseError Found

namespace Scan

/-- A scan of a text, which is matched as it is. -/
def new (g : Grammar) (config : Config) (watch : Watch) (view : Text) : Scan :=
  ⟨Context.top g config watch view, State.initial config, 0, false⟩

/-- The record at the beginning of a scan. -/
def openingRecord (view : Text) : LogRecord := ⟨.debug, "scan of " ++ toString view.size ++ " chars"⟩

/-- Skips what comes before the root, and attempts the root there. -/
def attemptAt (c : Context) (position : Nat) : MatchM (Nat × Step) := do
  let root := c.grammar.root
  let start ← skipLeading (attempt c) c (c.grammar.rule root) position
  let step ← attempt c c root start true false
  return (start, step)

/-- Attempts from the current position on, until one yields something or the text ends. Each attempt that
yields nothing moves on, so the length of the text bounds their number. -/
def nextWithin : (fuel : Nat) → Scan → Option Item × Scan
  | 0, s => (none, { s with done := true })
  | fuel + 1, s =>
    if s.done || s.context.text.size < s.position then (none, { s with done := true })
    else
      match (attemptAt s.context s.position).run s.state with
      | .error h state => (some (.error (h.toError s.context.text)), { s with state, done := true })
      | .ok (start, .matched stop results) state =>
        if s.position < stop then (some (.ok ⟨results, start, stop⟩), { s with state, position := stop })
        else nextWithin fuel { s with state, position := s.context.text.next start }
      | .ok (start, .failed _) state =>
        nextWithin fuel { s with state, position := s.context.text.next start }

/-- The next match or error, if there is one. -/
def next (s : Scan) : Option Item × Scan := nextWithin (s.context.text.size + 2) s

/-- What happened so far. -/
def events (s : Scan) : List Event := s.state.journal.reverse

/-- Up to `n` items, each with the position after it. -/
def collect : (n : Nat) → Scan → List (Item × Nat) × Scan
  | 0, s => ([], s)
  | n + 1, s =>
    match s.next with
    | (none, s) => ([], s)
    | (some item, s) =>
      let (items, last) := collect n s
      ((item, s.position) :: items, last)

/-- More items than a scan can yield: each match moves it on, and an error ends it. -/
def itemBound (s : Scan) : Nat := s.context.text.size + 2

/-- All items. -/
def collectAll (s : Scan) : List Item × Scan :=
  let (items, s) := s.collect s.itemBound
  (items.map (·.1), s)

end Scan

/-- The matches of a list of items, or the first error among them. -/
def matchesOf (items : List Item) : Except ParseError (List Found) := items.mapM id

/-- A text with its matches replaced by their joined tokens, from position `last` on. -/
def replaceFrom (t : Text) : (last : Nat) → List Found → Text
  | last, [] => t.rest last
  | last, f :: fs => t.slice last f.start ++ f.results.joined.toList ++ replaceFrom t f.stop fs

namespace Scan

/-- All matches of a scan, or the error that ends it. -/
def search (s : Scan) : Except ParseError (List Found) := matchesOf s.collectAll.1

/-- The text of a scan with its matches replaced by their joined tokens. -/
def replace (s : Scan) : Except ParseError Text := s.search.map (replaceFrom s.context.text 0)

end Scan

end Packrat
