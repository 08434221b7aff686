import Packrat.Diagnostic

/-!
# `Packrat.ParseError` — why a parse gave no results

A *mismatch* is an ordinary failure: the text is not in the language. A *committed* failure is one that no
alternative may recover from. The remaining causes are limits that were reached and errors of actions.
-/

namespace Packrat

/-- Why a parse gave no results. -/
inductive ParseError
  /-- The grammar did not match. -/
  | mismatch (report : Report)
  /-- A committed sequence failed, or an action refused its match for good. -/
  | committed (report : Report)
  /-- Attempts nested too deeply. -/
  | recursionLimit (limit position : Nat)
  /-- A seed grew in too many rounds. -/
  | growthLimit (name : String) (position limit : Nat)
  /-- A forward without a target was reached. -/
  | unboundForward (name : String)
  /-- An action failed with an error of its own. -/
  | action (position : Nat) (cause : String)
  /-- An action asked for a token position that does not exist. -/
  | outOfRange
  /-- The nesting of attempts has no end. -/
  | endless
deriving DecidableEq, Repr, Inhabited

namespace ParseError

/-- The report of a failure that has one. -/
def report? : ParseError → Option Report
  | .mismatch r | .committed r => some r
  | _ => none

/-- The position of an error that has one. -/
def position? : ParseError → Option Nat
  | .mismatch r | .committed r => some r.position
  | .recursionLimit _ p | .growthLimit _ p _ | .action p _ => some p
  | .unboundForward _ | .outOfRange | .endless => none

/-- The wording of an error. -/
def message : ParseError → String
  | .mismatch r | .committed r => r.message
  | .recursionLimit limit p =>
    "recursion depth limit of " ++ toString limit ++ " exceeded at offset " ++ toString p
  | .growthLimit name p limit =>
    "left-recursive rule \x60" ++ name ++ "\x60 did not converge within " ++ toString limit
      ++ " growth iterations at offset " ++ toString p
  | .unboundForward name => "forward \x60" ++ name ++ "\x60 is used but never bound"
  | .action p cause => "parse action failed at offset " ++ toString p ++ ": " ++ cause
  | .outOfRange => "token position out of range"
  | .endless => "attempts nest without end"

/-- The code of a kind of error, for tools. -/
def code : ParseError → String
  | .mismatch _ => "parser::mismatch"
  | .committed _ => "parser::syntax"
  | .recursionLimit _ _ => "grammar::recursion_limit"
  | .growthLimit _ _ _ => "grammar::left_recursion_bound"
  | .unboundForward _ => "grammar::unbound_forward"
  | .action _ _ => "parser::action"
  | .outOfRange => "parser::out_of_range"
  | .endless => "parser::endless"

/-- The message behind the place of the failure, `file:line:column: `; errors without a report have no
place. -/
def located (e : ParseError) (file : Option String) : String :=
  match e.report? with
  | some r =>
    (match file with
      | some name => name ++ ":"
      | none => "")
      ++ toString r.line ++ ":" ++ toString r.column ++ ": " ++ e.message
  | none => e.message

/-- The label under the source line: the bytes of the character found, and what was expected there. -/
def label? (e : ParseError) : Option (Span × String) :=
  e.report?.map fun r => (r.lineSpan, r.expected)

end ParseError
end Packrat
