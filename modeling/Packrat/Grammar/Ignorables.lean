import Packrat.Grammar.Reach

/-!
# `Packrat.Grammar.Ignorables` — passing ignorables down

What a node ignores is ignored by everything beneath it too. The ignorables of each node are passed to all
nodes within reach through children; ignorables themselves are not descended into, and no node ignores itself.
-/

namespace Packrat

/-- A node with one ignorable more, unless it has it already or is it. -/
def Node.ignore (self ignorable : ExprId) (n : Node) : Node :=
  if ignorable == self || n.ignores.contains ignorable then n
  else { n with ignores := n.ignores ++ [ignorable] }

/-- Passes ignorables to the nodes of a list. -/
def passTo (ignorables targets : List ExprId) (nodes : Array Node) : Array Node :=
  targets.foldl (fun nodes i =>
    nodes.modify i fun n => ignorables.foldl (fun n ignorable => n.ignore i ignorable) n) nodes

/-- Everything beneath a node: what can be reached from its children through children. -/
def beneath (nodes : Array Node) (i : ExprId) : List ExprId :=
  preorder (edgesOf nodes Node.children) nodes.size (edgesOf nodes Node.children i)

/-- The nodes with the ignorables of each passed to everything beneath it. What is passed on are the
ignorables that nodes had at first. -/
def passDown (nodes : Array Node) : Array Node :=
  (List.range nodes.size).foldl (fun out i =>
    match edgesOf nodes (·.ignores) i with
    | [] => out
    | ignorables => passTo ignorables (beneath nodes i) out) nodes

end Packrat
