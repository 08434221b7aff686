import Packrat.ParseError
import Packrat.Grammar.Basic

/-!
# `Packrat.Step` — what comes of an attempt

An attempt of a node at a position either matches up to some end, or fails in a way from which the nodes
around it may recover, or halts the parse.

## Contents

* `Step` — match or failure;
* `Halt` — the reasons to end the parse, and the errors they become;
* `Event` — what attempts and actions leave in the journal of a parse.
-/

namespace Packrat

/-- The outcome of an attempt that does not end the parse. -/
inductive Step
  | matched (stop : Nat) (results : Results)
  | failed (d : Diagnostic)
deriving Inhabited

namespace Step

/-- Whether an attempt matched. -/
def isMatch : Step → Bool
  | .matched _ _ => true
  | .failed _ => false

/-- A match changed by a function of its results; a failure stays. -/
def mapResults (f : Results → Results) : Step → Step
  | .matched stop r => .matched stop (f r)
  | .failed d => .failed d

/-- The failure of a node at a position, with the message of the node. -/
def failAt (position : Nat) (rule : Rule) : Step := .failed ⟨position, rule.message⟩

end Step

/-- Why a parse ends at once. -/
inductive Halt
  /-- A committed sequence failed, or an action refused its match for good. -/
  | committed (d : Diagnostic)
  | recursionLimit (limit position : Nat)
  | growthLimit (name : String) (position limit : Nat)
  | unboundForward (label : String)
  | action (position : Nat) (cause : String)
  | outOfRange
  | endless
deriving DecidableEq, Repr, Inhabited

/-- The error a halt becomes, resolved against the text that was being matched. -/
def Halt.toError (t : Text) : Halt → ParseError
  | .committed d => .committed (Report.of t d)
  | .recursionLimit limit position => .recursionLimit limit position
  | .growthLimit name position limit => .growthLimit name position limit
  | .unboundForward label => .unboundForward label
  | .action position cause => .action position cause
  | .outOfRange => .outOfRange
  | .endless => .endless

/-- Something that happened during a parse. -/
inductive Event
  /-- An attempt of a watched node begins; leading text has not been skipped yet. -/
  | tried (id : ExprId) (position : Nat)
  /-- A watched node matched. -/
  | matched (id : ExprId) (start stop : Nat) (results : Results)
  /-- A watched node failed. -/
  | failed (id : ExprId) (d : Diagnostic)
  /-- An attempt of a node that is not watched begins. -/
  | passed (id : ExprId) (position : Nat)
  /-- A note of an action. -/
  | note (line : String)
deriving Inhabited

/-- Who wants to know of attempts. -/
structure Watch where
  /-- The nodes whose attempts are reported. -/
  wants : Rule → Bool
  /-- Whether the attempts of other nodes are mentioned. -/
  mentionsOthers : Bool

instance : Inhabited Watch := ⟨⟨fun _ => false, false⟩⟩

end Packrat
