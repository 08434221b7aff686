import Packrat.CharSet
import Packrat.Grammar.Action
import Packrat.Pattern.Matching

/-!
# `Packrat.Node` — the expressions of a grammar

A grammar is a list of nodes that refer to each other by index. A node is one of the expressions of
`NodeKind`, with what is skipped before it: characters of its whitespace set, and matches of its ignorables.
-/

namespace Packrat

/-- The expressions. -/
inductive NodeKind
  /-- Exactly this text, or this text in any case. -/
  | literal (text : String) (caseless : Bool)
  /-- A literal that touches no identifier character on either side. -/
  | keyword (text : String) (caseless : Bool) (identChars : CharSet)
  /-- A run of characters, the first from `init` and the others from `body`. -/
  | word (init body : CharSet) (min : Nat) (max : Option Nat)
  /-- A run of characters not in `excluded`. -/
  | charsNotIn (excluded : CharSet) (min : Nat) (max : Option Nat)
  | pattern (source : String) (compiled : Pattern)
  /-- All children in order. Once past a commit marker, a failure is final. -/
  | sequence (children : List ExprId)
  /-- The first child that matches. -/
  | orderedChoice (children : List ExprId)
  /-- The child that matches most, the first of several. -/
  | longestChoice (children : List ExprId)
  /-- All children in any order. -/
  | each (children : List ExprId)
  /-- A child several times, ending early where `stop` would match. -/
  | repetition (child : ExprId) (min : Nat) (max : Option Nat) (stop : Option ExprId)
  | optional (child : ExprId) (default : Option Value)
  /-- The child matches here; consumes nothing, keeps fields and drops tokens. -/
  | lookahead (child : ExprId)
  /-- The child does not match here. -/
  | notAhead (child : ExprId)
  /-- The child matches text that ends here, starting at most `retreat` characters back. -/
  | precededBy (child : ExprId) (retreat : Option Nat)
  /-- A name for a node that is given later. -/
  | forward (label : String) (target : Option ExprId)
  /-- An action on the results of the child. -/
  | transform (child : ExprId) (action : Action)
  /-- The tokens of the child recorded under a name. -/
  | named (child : ExprId) (name : String) (accumulates : Bool)
  /-- The results of the child as one group token. -/
  | group (child : ExprId)
  /-- Each group token of the child recorded under its first token. -/
  | dict (child : ExprId)
  /-- The child without its results. -/
  | suppress (child : ExprId)
  /-- The tokens of the child joined to one; nothing inside skips anything. -/
  | combine (child : ExprId) (joiner : String)
  /-- The text of the child's match as one token. -/
  | originalText (child : ExprId)
  /-- All text up to the next match of `target`, which is consumed too when `includes`. -/
  | skipTo (target : ExprId) (includes : Bool) (failOn : Option ExprId)
  | empty
  | noMatch
  | stringStart
  | stringEnd
  | lineStart
  | lineEnd
  /-- Where a run of the characters begins. -/
  | wordStart (chars : CharSet)
  /-- Where a run of the characters ends. -/
  | wordEnd (chars : CharSet)
  /-- A marker in a sequence, after which failures are final. -/
  | commit
deriving Inhabited

/-- The direct children, in the order of evaluation. -/
def NodeKind.children : NodeKind → List ExprId
  | .sequence cs | .orderedChoice cs | .longestChoice cs | .each cs => cs
  | .repetition c _ _ stop => c :: stop.toList
  | .skipTo target _ failOn => target :: failOn.toList
  | .optional c _ | .lookahead c | .notAhead c | .precededBy c _ | .transform c _ | .named c _ _ | .group c
  | .dict c | .suppress c | .combine c _ | .originalText c => [c]
  | .forward _ target => target.toList
  | .literal _ _ | .keyword _ _ _ | .word _ _ _ _ | .charsNotIn _ _ _ | .pattern _ _ | .empty | .noMatch
  | .stringStart | .stringEnd | .lineStart | .lineEnd | .wordStart _ | .wordEnd _ | .commit => []

/-- Whether an expression is a commit marker. -/
def NodeKind.isCommit : NodeKind → Bool
  | .commit => true
  | _ => false

/-- Whether an expression is a sequence, the only one that may hold commit markers. -/
def NodeKind.isSequence : NodeKind → Bool
  | .sequence _ => true
  | _ => false

/-- An expression with its name and with what is skipped before it. -/
structure Node where
  kind : NodeKind
  customName : Option String := none
  skipsWhitespace : Bool := true
  whitespace : CharSet
  ignores : List ExprId := []
deriving Inhabited

namespace Node

/-- The direct children of a node. -/
def children (n : Node) : List ExprId := n.kind.children

/-- All nodes a node refers to: its children and then its ignorables. -/
def references (n : Node) : List ExprId := n.children ++ n.ignores

end Node

/-- The expression at an index, if there is a node. -/
def kindOf? (nodes : Array Node) (i : ExprId) : Option NodeKind := nodes[i]?.map (·.kind)

end Packrat
