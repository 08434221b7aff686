import Packrat.Log
import Packrat.Config
import Packrat.Grammar.Analysis
import Packrat.Grammar.Builder
import Packrat.Grammar.Checks
import Packrat.Grammar.Ignorables
import Packrat.Grammar.Names

/-!
# `Packrat.Grammar` — finished grammars

Building checks the nodes of a builder, passes ignorables down, and computes what the matcher and its messages
need of each node. The result does not change any more.

## Contents

* `Rule` and `Grammar` — finished nodes and the grammar they make up;
* `Builder.build` — building;
* `Grammar.buildRecords`, `Grammar.leftRecursionRecords` — what is logged about a grammar.
-/

namespace Packrat

/-- A finished node: with its name, its failure message, and whether a name records its tokens as one list. -/
structure Rule extends Node where
  display : String
  message : String
  savesList : Bool
deriving Inhabited

/-- A finished grammar. -/
structure Grammar where
  rules : Array Rule
  root : ExprId
  /-- What is skipped before the end of text. -/
  defaultWhitespace : CharSet
  /-- The forwards that can reach themselves without consuming text. -/
  leftRecursive : List ExprId
deriving Inhabited

namespace Grammar

/-- The nodes of a grammar. -/
def nodes (g : Grammar) : Array Node := g.rules.map Rule.toNode

/-- The number of nodes. -/
def size (g : Grammar) : Nat := g.rules.size

/-- The rule at an index, if there is one. -/
def rule? (g : Grammar) (i : ExprId) : Option Rule := g.rules[i]?

/-- The rule at an index. A built grammar has a rule at every index it refers to. -/
def rule (g : Grammar) (i : ExprId) : Rule := g.rules[i]?.getD default

/-- The name of a node, if there is one. -/
def display? (g : Grammar) (i : ExprId) : Option String := (g.rule? i).map (·.display)

/-- The name of a node as log records show it. -/
def display (g : Grammar) (i : ExprId) : String := (g.display? i).getD "?"

/-- The children of a node; none for a node that does not exist. -/
def children (g : Grammar) (i : ExprId) : List ExprId := ((g.rule? i).map (·.toNode.children)).getD []

/-- All nodes that can be reached from a node, depth first. -/
def walk (g : Grammar) (start : ExprId) : List ExprId := Packrat.walk g.nodes start

end Grammar

/-! ## Building -/

/-- The names of all nodes; the first node whose name contains itself is an error. -/
def assignNames (nodes : Array Node) : Except BuildError (List String) :=
  (List.range nodes.size).mapM fun i =>
    match nameOf? nodes i with
    | some t => .ok (String.ofList t)
    | none => .error (.endlessName i)

/-- Nodes with their names and messages. -/
def finish (nodes : Array Node) (names : Array String) : Array Rule :=
  let lists := savesList nodes
  nodes.mapIdx fun i n =>
    { n with
      display := names[i]?.getD ""
      message := failureMessage (fun i => names[i]?.getD "?") i n
      savesList := lists.contains i }

/-- Builds the grammar of a builder's nodes with a root. -/
def Builder.build (b : Builder) (root : ExprId) : Except BuildError Grammar := do
  if b.size ≤ root then throw (.unknownExpr root)
  checkReferences b.nodes
  checkForwards b.nodes root
  checkCommits b.nodes root
  let nodes := passDown b.nodes
  let names ← assignNames nodes
  return {
    rules := finish nodes names.toArray
    root
    defaultWhitespace := b.defaultWhitespace
    leftRecursive := Packrat.leftRecursive nodes }

/-! ## Records -/

namespace Grammar

/-- What is logged when a grammar is built. -/
def buildRecords (g : Grammar) : List LogRecord :=
  ((shadowedNames g.nodes g.root).map fun i => ⟨.warn, g.display i
    ++ " repeats a named expression; only the last value is kept unless the name ends with '*' or the child is grouped"⟩)
  ++ (g.leftRecursive.map fun i => ⟨.debug, g.display i
    ++ " is left-recursive; it needs left-recursion memoization to terminate"⟩)
  ++ [⟨.debug, "built grammar with " ++ toString g.size ++ " nodes rooted at " ++ renderExpr g.root⟩]

/-- What is logged when a left-recursive grammar is used without left recursion. -/
def leftRecursionRecords (g : Grammar) (m : Memoization) : List LogRecord :=
  if m = .leftRecursion then []
  else g.leftRecursive.map fun i => ⟨.warn, g.display i
    ++ " is left-recursive but left-recursion memoization is off; parsing it will hit the recursion limit"⟩

end Grammar

/-- What is logged about an error in building. -/
def BuildError.records : BuildError → List LogRecord
  | .forwardRebound label =>
    [⟨.warn, "forward \x60" ++ label ++ "\x60 bound more than once; keeping the first binding"⟩]
  | _ => []

end Packrat
