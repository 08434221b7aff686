import Packrat.Text.Basic

/-!
# `Packrat.Span` — half-open byte ranges of a text
-/

namespace Packrat

/-- The byte range from `start` up to, not including, `stop`. -/
structure Span where
  start : Nat
  stop : Nat
deriving DecidableEq, Repr, Inhabited

namespace Span

/-- The number of bytes a span covers. -/
def length (s : Span) : Nat := s.stop - s.start

/-- A span that covers nothing. -/
def isEmpty (s : Span) : Bool := s.start == s.stop

/-- The part of a text a span covers; nothing when the span does not cut the text at two places. -/
def slice (s : Span) (t : Text) : Text := t.slice s.start s.stop

/-- Spans are written with both ends, `start..stop`. -/
def render (s : Span) : String := toString s.start ++ ".." ++ toString s.stop

/-- Spans are ordered by their start, then by their end. -/
def order (a b : Span) : Ordering := (compare a.start b.start).then (compare a.stop b.stop)

end Span
end Packrat
