import Packrat.Grammar.Node

/-!
# `Packrat.Reach` — following references

Nodes found by following edges depth first, and sets of nodes closed under a rule.

## Contents

* `preorder` — the nodes that can be reached, each once, in the order in which they are found;
* `walk` — the same over children and ignorables;
* `saturate` — the least set that a monotone rule closes.
-/

namespace Packrat

/-! ## Depth-first search -/

/-- Follows edges from the nodes in `pending`, the first one first, and adds what is found to `found`, the
latest first. Indices from `size` on are no nodes. -/
def follow (next : ExprId → List ExprId) (size : Nat) :
    (fuel : Nat) → (pending found : List ExprId) → List ExprId
  | 0, _, found => found
  | _ + 1, [], found => found
  | fuel + 1, i :: pending, found =>
    if size ≤ i || found.contains i then follow next size fuel pending found
    else follow next size fuel (next i ++ pending) (i :: found)

/-- Enough steps to follow every edge once. -/
def followFuel (next : ExprId → List ExprId) (size : Nat) (starts : List ExprId) : Nat :=
  starts.length + ((List.range size).flatMap next).length + 1

/-- The nodes that can be reached from `starts`, each once, in the order of depth-first search. -/
def preorder (next : ExprId → List ExprId) (size : Nat) (starts : List ExprId) : List ExprId :=
  (follow next size (followFuel next size starts) starts []).reverse

/-- The node at an index, if there is one, under a view. -/
def edgesOf (nodes : Array Node) (view : Node → List ExprId) (i : ExprId) : List ExprId :=
  (nodes[i]?.map view).getD []

/-- All nodes that can be reached from a node through children and ignorables, depth first. -/
def walk (nodes : Array Node) (start : ExprId) : List ExprId :=
  preorder (edgesOf nodes Node.references) nodes.size [start]

/-! ## Closed sets -/

/-- One round over all nodes: each that the rule admits, given the nodes known by then, becomes known. -/
def sweep (size : Nat) (rule : (ExprId → Bool) → ExprId → Bool) (known : List ExprId) : List ExprId :=
  (List.range size).foldl (fun known i =>
    if !known.contains i && rule known.contains i then i :: known else known) known

/-- Rounds until one adds nothing. -/
def sweeps (size : Nat) (rule : (ExprId → Bool) → ExprId → Bool) : (fuel : Nat) → List ExprId → List ExprId
  | 0, known => known
  | fuel + 1, known =>
    let next := sweep size rule known
    if next.length = known.length then known else sweeps size rule fuel next

/-- The least set of nodes that contains every node the rule admits given the set. -/
def saturate (size : Nat) (rule : (ExprId → Bool) → ExprId → Bool) : List ExprId :=
  sweeps size rule (size + 1) []

end Packrat
