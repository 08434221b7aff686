/-!
# `Packrat.Log` — records for whoever watches
-/

namespace Packrat

/-- How important a record is. -/
inductive Level
  | warn
  | debug
  | trace
deriving DecidableEq, Repr, Inhabited

/-- A record of something that happened. -/
structure LogRecord where
  level : Level
  message : String
deriving DecidableEq, Repr, Inhabited

/-- The rank of a level; more important levels have smaller ranks. -/
def Level.rank : Level → Nat
  | .warn => 0
  | .debug => 1
  | .trace => 2

/-- Whether a record at one level is shown to whoever asks for another and all that are more important. -/
def Level.shownAt (level asked : Level) : Bool := level.rank ≤ asked.rank

/-- A level as records show it. -/
def Level.render : Level → String
  | .warn => "WARN"
  | .debug => "DEBUG"
  | .trace => "TRACE"

/-- A record on one line. -/
def LogRecord.render (r : LogRecord) : String := r.level.render ++ " " ++ r.message

end Packrat
