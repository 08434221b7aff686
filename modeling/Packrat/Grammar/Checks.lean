import Packrat.Grammar.Reach
import Packrat.Grammar.BuildError

/-!
# `Packrat.Grammar.Checks` — what every grammar must satisfy

All references must lead to nodes, forwards within reach of the root must have a target, and commit markers
must stand in sequences. Each check answers with the first node at fault.
-/

namespace Packrat

/-- Every reference must lead to a node. -/
def checkReferences (nodes : Array Node) : Except BuildError Unit :=
  match (nodes.toList.flatMap Node.references).find? (nodes.size ≤ ·) with
  | some id => .error (.unknownExpr id)
  | none => .ok ()

/-- The label of a forward without target. -/
def unboundLabel? (nodes : Array Node) (i : ExprId) : Option String :=
  match kindOf? nodes i with
  | some (.forward label none) => some label
  | _ => none

/-- Every forward within reach of the root must have a target. -/
def checkForwards (nodes : Array Node) (root : ExprId) : Except BuildError Unit :=
  match (walk nodes root).findSome? (unboundLabel? nodes) with
  | some label => .error (.unboundForward label)
  | none => .ok ()

/-- Whether an index leads to a commit marker. -/
def leadsToCommit (nodes : Array Node) (i : ExprId) : Bool := (kindOf? nodes i).any NodeKind.isCommit

/-- Commit markers may only be children of sequences, and the root is none. -/
def checkCommits (nodes : Array Node) (root : ExprId) : Except BuildError Unit :=
  if leadsToCommit nodes root then .error (.misplacedCommit root)
  else
    let others := nodes.toList.filter fun n => !n.kind.isSequence
    match (others.flatMap Node.references).find? (leadsToCommit nodes) with
    | some id => .error (.misplacedCommit id)
    | none => .ok ()

end Packrat
