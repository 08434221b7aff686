import Packrat.Grammar.Reach

/-!
# `Packrat.Grammar.Analysis` — questions about grammars

## Contents

* `nullable` — the nodes that can match without consuming text;
* `savesList` — the nodes whose tokens a name records as one list;
* `leftRecursive` — the forwards that can reach themselves without consuming text;
* `shadowedNames` — repetitions in which only the last value of a name survives.
-/

namespace Packrat

/-- Whether an expression can match the empty text, given which nodes can. -/
def NodeKind.isNullable (known : ExprId → Bool) : NodeKind → Bool
  | .literal _ _ | .keyword _ _ _ | .word _ _ _ _ | .noMatch => false
  | .charsNotIn _ min _ => min == 0
  | .pattern _ p => p.matchesIn []
  | .sequence cs | .each cs => cs.all known
  | .orderedChoice cs | .longestChoice cs => cs.any known
  | .repetition c min _ _ => min == 0 || known c
  | .forward _ target => target.any known
  | .transform c _ | .named c _ _ | .combine c _ | .group c | .dict c | .suppress c | .originalText c => known c
  | .optional _ _ | .lookahead _ | .notAhead _ | .precededBy _ _ | .skipTo _ _ _ | .empty | .stringStart
  | .stringEnd | .lineStart | .lineEnd | .wordStart _ | .wordEnd _ | .commit => true

/-- Whether the tokens of an expression are always recorded as a list, given for which nodes they are. -/
def NodeKind.isList (known : ExprId → Bool) : NodeKind → Bool
  | .sequence _ | .each _ | .repetition _ _ _ _ | .dict _ => true
  | .orderedChoice cs | .longestChoice cs => cs.any known
  | .forward _ target => target.any known
  | .optional c _ | .transform c _ | .named c _ _ => known c
  | _ => false

/-- The least set of nodes closed under a rule on expressions. -/
def closure (nodes : Array Node) (rule : (ExprId → Bool) → NodeKind → Bool) : List ExprId :=
  saturate nodes.size fun known i => (kindOf? nodes i).any (rule known)

/-- The nodes that can match without consuming text. -/
def nullable (nodes : Array Node) : List ExprId := closure nodes NodeKind.isNullable

/-- The nodes whose tokens a name records as one list. -/
def savesList (nodes : Array Node) : List ExprId := closure nodes NodeKind.isList

/-- The longest front of a list all of whose members satisfy a test, and the member after it. -/
def takeThrough {α : Type} (test : α → Bool) : List α → List α
  | [] => []
  | a :: as => if test a then a :: takeThrough test as else [a]

/-- The nodes an expression may attempt at its own starting position. Lookbehind attempts its child only
before it. -/
def NodeKind.leftCalls (nullable : ExprId → Bool) : NodeKind → List ExprId
  | .sequence cs => takeThrough nullable cs
  | .precededBy _ _ => []
  | k => k.children

/-- Whether a node is a forward that can reach itself without consuming text. -/
def isLeftRecursive (nodes : Array Node) (nullable : ExprId → Bool) (i : ExprId) : Bool :=
  match kindOf? nodes i with
  | some (.forward _ (some target)) =>
    (preorder (edgesOf nodes fun n => n.kind.leftCalls nullable) nodes.size [target]).contains i
  | _ => false

/-- The forwards that can reach themselves without consuming text. -/
def leftRecursive (nodes : Array Node) : List ExprId :=
  let known := nullable nodes
  (List.range nodes.size).filter (isLeftRecursive nodes known.contains)

/-- Whether a node repeats a child that is named without accumulating. -/
def repeatsName (nodes : Array Node) (i : ExprId) : Bool :=
  match kindOf? nodes i with
  | some (.repetition c _ _ _) =>
    match kindOf? nodes c with
    | some (.named _ _ accumulates) => !accumulates
    | _ => false
  | _ => false

/-- Repetitions within reach of the root in which only the last value of a name survives. -/
def shadowedNames (nodes : Array Node) (root : ExprId) : List ExprId :=
  (walk nodes root).filter (repeatsName nodes)

end Packrat
