import Packrat.Matching.Step
import Packrat.Results.View

/-!
# `Packrat.Trace` — watching attempts

Who watches a parse is told when an attempt of a node it wants begins, matches or fails. What it is told may
also go to the log. Watching never changes what a parse gives.
-/

namespace Packrat

namespace Watch

/-- Watches no node. -/
def nothing (mentionsOthers : Bool) : Watch := ⟨fun _ => false, mentionsOthers⟩

/-- Watches the nodes that were given a name. -/
def named (mentionsOthers : Bool) : Watch := ⟨fun rule => rule.customName.isSome, mentionsOthers⟩

/-- Watches every node. -/
def everything (mentionsOthers : Bool) : Watch := ⟨fun _ => true, mentionsOthers⟩

end Watch

namespace Event

/-- The record of an attempt that is only mentioned. -/
def mention? (g : Grammar) : Event → Option LogRecord
  | .passed id p => some ⟨.trace, "try " ++ g.display id ++ " at offset " ++ toString p⟩
  | _ => none

/-- The record of an attempt that is logged because it is watched. -/
def report? (g : Grammar) : Event → Option LogRecord
  | .tried id p => some ⟨.debug, "match " ++ g.display id ++ " at offset " ++ toString p⟩
  | .matched id start stop r =>
    some ⟨.debug, "matched " ++ g.display id ++ " at " ++ (Span.mk start stop).render ++ " -> " ++ r.render⟩
  | .failed id d =>
    some ⟨.debug, "match " ++ g.display id ++ " failed at offset " ++ toString d.position ++ ": " ++ d.message⟩
  | _ => none

/-- The note of an action. -/
def note? : Event → Option String
  | .note line => some line
  | _ => none

/-- What is logged of events, watched attempts included when they are to be logged. -/
def records (g : Grammar) (logsWatched : Bool) (events : List Event) : List LogRecord :=
  events.filterMap fun e => (e.mention? g).or (if logsWatched then e.report? g else none)

end Event
end Packrat
