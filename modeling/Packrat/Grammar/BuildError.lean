import Packrat.Results.Basic

/-!
# `Packrat.BuildError` — why a grammar cannot be built
-/

namespace Packrat

/-- The sets of characters that must not be empty. -/
inductive SetRole
  | wordStart
  | wordBody
  | excluded
deriving DecidableEq, Repr, Inhabited

/-- The runs of characters that must admit at least one character. -/
inductive RunRole
  | word
  | excluded
deriving DecidableEq, Repr, Inhabited

/-- Why a node cannot be made, or a grammar not be built. -/
inductive BuildError
  | invalidBounds (min max : Nat)
  | emptyCharSet (role : SetRole)
  | zeroMinimum (role : RunRole)
  | emptyLiteral
  | invalidPattern
  | forwardRebound (label : String)
  | unboundForward (label : String)
  | notAForward (id : ExprId)
  | unknownExpr (id : ExprId)
  | misplacedCommit (id : ExprId)
  /-- The default name of a node would contain itself. -/
  | endlessName (id : ExprId)
deriving DecidableEq, Repr, Inhabited

/-- A node as messages show it. -/
def renderExpr (id : ExprId) : String := "ExprId(" ++ toString id ++ ")"

/-- What a set of characters is for. -/
def SetRole.render : SetRole → String
  | .wordStart => "word start"
  | .wordBody => "word body"
  | .excluded => "excluded characters"

/-- What a run of characters is. -/
def RunRole.render : RunRole → String
  | .word => "word"
  | .excluded => "excluded-character run"

namespace BuildError

/-- The wording of an error. -/
def message : BuildError → String
  | .invalidBounds min max =>
    "invalid repetition bounds: min " ++ toString min ++ " exceeds max " ++ toString max
  | .emptyCharSet role => "character set for " ++ role.render ++ " is empty"
  | .zeroMinimum role => "minimum length of " ++ role.render ++ " must be at least 1"
  | .emptyLiteral => "literal text must not be empty"
  | .invalidPattern => "invalid regular expression"
  | .forwardRebound label => "forward \x60" ++ label ++ "\x60 is already bound"
  | .unboundForward label => "forward \x60" ++ label ++ "\x60 is used but never bound"
  | .notAForward id => renderExpr id ++ " is not a forward"
  | .unknownExpr id => renderExpr id ++ " does not belong to this grammar"
  | .misplacedCommit id =>
    "commit marker " ++ renderExpr id ++ " is only valid as a direct child of a sequence"
  | .endlessName id => "the default name of " ++ renderExpr id ++ " contains itself"

/-- The code of a kind of error, for tools. -/
def code : BuildError → String
  | .invalidBounds _ _ => "grammar::invalid_bounds"
  | .emptyCharSet _ => "grammar::empty_charset"
  | .zeroMinimum _ => "grammar::zero_minimum"
  | .emptyLiteral => "grammar::empty_literal"
  | .invalidPattern => "grammar::invalid_regex"
  | .forwardRebound _ => "grammar::forward_rebound"
  | .unboundForward _ => "grammar::unbound_forward"
  | .notAForward _ => "grammar::not_a_forward"
  | .unknownExpr _ => "grammar::unknown_expr"
  | .misplacedCommit _ => "grammar::misplaced_commit"
  | .endlessName _ => "grammar::endless_name"

/-- Advice on how to avoid an error, where there is any. -/
def help? : BuildError → Option String
  | .emptyLiteral => some "use \x60empty()\x60 to match nothing"
  | _ => none

end BuildError
end Packrat
