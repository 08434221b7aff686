import Packrat.Text.Span
import Packrat.Text.Lines

/-!
# `Packrat.Diagnostic` — where a match failed, and how that is shown

A `Diagnostic` is a position with what was expected there. A `Report` resolves one against the text it
failed on: line, column, the source line, and the character found. Lines and columns of a report are counted
from one.

## Contents

* `Diagnostic.furthest` — of two failures the one that got further is kept, the earlier one on a tie;
* `Report.of` — resolving a diagnostic;
* `Report.message`, `Report.explain`, `Report.markLine` — the renderings.
-/

namespace Packrat

/-- A failed match: the position and what was expected there. -/
structure Diagnostic where
  position : Nat
  message : String
deriving DecidableEq, Repr, Inhabited

/-- Whichever diagnostic got further; the first one wins a tie. -/
def Diagnostic.furthest (a b : Diagnostic) : Diagnostic :=
  if a.position < b.position then b else a

/-- A character in quotes, the way failure messages show what was found. -/
def quoteChar (c : Char) : String :=
  if c == '\n' then "'\\n'"
  else if c == '\t' then "'\\t'"
  else if c == '\r' then "'\\r'"
  else if c == '\'' then "\"'\""
  else "'" ++ c.toString ++ "'"

/-- A diagnostic resolved against its text. `lineOffset` is the failure's byte offset within the line. -/
structure Report where
  diagnostic : Diagnostic
  charIndex : Nat
  line : Nat
  column : Nat
  lineText : Text
  lineOffset : Nat
  found : Option Char
deriving DecidableEq, Repr, Inhabited

namespace Report

/-- Resolves a diagnostic against a text. A position past the end counts as the end; inside a character the
counts are in bytes and nothing is found. -/
def of (t : Text) (d : Diagnostic) : Report :=
  let ls := Lines.ofText t
  let p := min d.position t.size
  let place := ls.place t p
  { diagnostic := d
    charIndex := match t.take? p with
      | some part => part.length
      | none => p
    line := place.line + 1
    column := place.column + 1
    lineText := ls.text t place.line
    lineOffset := p - (ls.start? place.line).getD 0
    found := t.charAt? p }

/-- The position of the failure, as the diagnostic gave it. -/
def position (r : Report) : Nat := r.diagnostic.position

/-- What was expected. -/
def expected (r : Report) : String := r.diagnostic.message

/-- The number of bytes of the character found, zero at the end of the text. -/
def foundSize (r : Report) : Nat := (r.found.map Char.utf8Size).getD 0

/-- The bytes of the character found; empty at the end of the text. -/
def span (r : Report) : Span := ⟨r.position, r.position + r.foundSize⟩

/-- The bytes of the character found, counted from the start of its line. -/
def lineSpan (r : Report) : Span := ⟨r.lineOffset, r.lineOffset + r.foundSize⟩

/-- The one-line message: what was expected, what was found, and where. -/
def message (r : Report) : String :=
  r.expected ++ ", found "
    ++ (match r.found with
      | some c => quoteChar c
      | none => "end of text")
    ++ "  (at char " ++ toString r.charIndex
    ++ "), (line:" ++ toString r.line ++ ", col:" ++ toString r.column ++ ")"

/-- The source line, a caret under the failure, and the message. -/
def explain (r : Report) : String :=
  String.ofList r.lineText ++ "\n" ++ String.ofList (List.replicate (r.column - 1) ' ') ++ "^\n" ++ r.message

/-- The source line with a marker put in at the failure; `none` when that would cut a character. -/
def markLine? (r : Report) (marker : String) : Option String := do
  let cut := min r.lineOffset r.lineText.size
  let before ← r.lineText.take? cut
  let after ← r.lineText.drop? cut
  return String.ofList before ++ marker ++ String.ofList after

end Report
end Packrat
