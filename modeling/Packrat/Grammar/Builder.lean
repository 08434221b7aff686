import Packrat.Grammar.Node
import Packrat.Grammar.BuildError
import Packrat.Pattern.Reader

/-!
# `Packrat.Builder` — putting grammars together

A builder holds the nodes made so far and the whitespace that new nodes skip. Each constructor checks its
arguments and adds one node; what a node refers to is not checked before the grammar is built, so that nodes
may refer to later ones.

A node takes over how its first child skips whitespace, a choice skips if all its children do, and tests of a
place do not skip at all.

## Contents

* `Bounds.resolve` — the least and the greatest number of a range;
* terminals: `literal`, `keyword`, `word`, `charsNotIn`, `pattern`;
* combinators: `sequence`, `orderedChoice`, …, and the tests of a place;
* settings of nodes: `bind`, `setName`, `leaveWhitespace`, `withWhitespace`, `ignore`.
-/

namespace Packrat

/-! ## Ranges of counts -/

/-- An end of a range of counts. -/
inductive Bound
  | included (n : Nat)
  | excluded (n : Nat)
  | unbounded
deriving DecidableEq, Repr, Inhabited

/-- A range of counts. -/
structure Bounds where
  lower : Bound
  upper : Bound
deriving DecidableEq, Repr, Inhabited

/-- The greatest count there is. -/
def maxCount : Nat := UInt64.size - 1

/-- The least count of a range. -/
def Bounds.least (b : Bounds) : Nat :=
  match b.lower with
  | .included n => n
  | .excluded n => min (n + 1) maxCount
  | .unbounded => 0

/-- The least and the greatest count of a range; a range without counts is an error. -/
def Bounds.resolve (b : Bounds) : Except BuildError (Nat × Option Nat) :=
  match b.upper with
  | .unbounded => .ok (b.least, none)
  | .included n => if n < b.least then .error (.invalidBounds b.least n) else .ok (b.least, some n)
  | .excluded 0 => .error (.invalidBounds b.least 0)
  | .excluded (n + 1) => if n < b.least then .error (.invalidBounds b.least n) else .ok (b.least, some n)

/-- All counts from `n` on. -/
def Bounds.from (n : Nat) : Bounds := ⟨.included n, .unbounded⟩

/-! ## Builders -/

/-- The nodes made so far, and the whitespace for new ones. -/
structure Builder where
  nodes : Array Node := #[]
  defaultWhitespace : CharSet := CharSet.ofString " \n\t\r"
deriving Inhabited

namespace Builder

/-- The whitespace for nodes made from now on. -/
def setDefaultWhitespace (b : Builder) (s : CharSet) : Builder := { b with defaultWhitespace := s }

/-- The number of nodes made so far. -/
def size (b : Builder) : Nat := b.nodes.size

/-- A new node with a skipping policy. -/
def push (b : Builder) (kind : NodeKind) (skips : Bool) (whitespace : CharSet) : ExprId × Builder :=
  (b.nodes.size, { b with nodes := b.nodes.push { kind, skipsWhitespace := skips, whitespace } })

/-- A new node that skips the default whitespace. -/
def pushSkipping (b : Builder) (kind : NodeKind) : ExprId × Builder := b.push kind true b.defaultWhitespace

/-- A new node that does not skip whitespace. -/
def pushStill (b : Builder) (kind : NodeKind) : ExprId × Builder := b.push kind false b.defaultWhitespace

/-- A new node that skips as another one does, if that is known. -/
def pushLike (b : Builder) (kind : NodeKind) (model : Option ExprId) : ExprId × Builder :=
  match model.bind fun i => b.nodes[i]? with
  | some n => b.push kind n.skipsWhitespace n.whitespace
  | none => b.pushSkipping kind

/-- A new node that skips the default whitespace if all known children skip theirs. -/
def pushIfAllSkip (b : Builder) (kind : NodeKind) (children : List ExprId) : ExprId × Builder :=
  b.push kind ((children.filterMap fun i => b.nodes[i]?).all (·.skipsWhitespace)) b.defaultWhitespace

/-! ## Terminals -/

/-- A text, exactly or in any case. -/
def literal (b : Builder) (text : String) (caseless : Bool) : Except BuildError (ExprId × Builder) :=
  if text.isEmpty then .error .emptyLiteral else .ok (b.pushSkipping (.literal text caseless))

/-- The identifier characters that a keyword does not touch by default. -/
def keywordChars : CharSet := CharSet.identifier.union (CharSet.ofString "$")

/-- A text that touches no identifier character. -/
def keyword (b : Builder) (text : String) (identChars : CharSet) (caseless : Bool) :
    Except BuildError (ExprId × Builder) :=
  if text.isEmpty then .error .emptyLiteral else .ok (b.pushSkipping (.keyword text caseless identChars))

/-- A run of characters of a length within bounds, of at least one character. -/
def word (b : Builder) (init body : CharSet) (bounds : Bounds) : Except BuildError (ExprId × Builder) := do
  if init.isEmpty then throw (.emptyCharSet .wordStart)
  if body.isEmpty then throw (.emptyCharSet .wordBody)
  let (min, max) ← bounds.resolve
  if min = 0 then throw (.zeroMinimum .word)
  return b.pushSkipping (.word init body min max)

/-- A run of characters outside a set, of a length within bounds, of at least one character. -/
def charsNotIn (b : Builder) (excluded : CharSet) (bounds : Bounds) :
    Except BuildError (ExprId × Builder) := do
  if excluded.isEmpty then throw (.emptyCharSet .excluded)
  let (min, max) ← bounds.resolve
  if min = 0 then throw (.zeroMinimum .excluded)
  return b.pushStill (.charsNotIn excluded min max)

/-- A regular expression. -/
def pattern (b : Builder) (source : String) (flags : Pattern.Flags) :
    Except BuildError (ExprId × Builder) :=
  match Pattern.readAnchored? flags source with
  | some p => .ok (b.pushSkipping (.pattern source p))
  | none => .error .invalidPattern

/-! ## Combinators -/

/-- All children in order. -/
def sequence (b : Builder) (children : List ExprId) : ExprId × Builder :=
  b.pushLike (.sequence children) children.head?

/-- A commit marker. -/
def commit (b : Builder) : ExprId × Builder := b.pushStill .commit

/-- The first child that matches. -/
def orderedChoice (b : Builder) (children : List ExprId) : ExprId × Builder :=
  b.pushIfAllSkip (.orderedChoice children) children

/-- The child that matches most. -/
def longestChoice (b : Builder) (children : List ExprId) : ExprId × Builder :=
  b.pushIfAllSkip (.longestChoice children) children

/-- All children in any order. -/
def each (b : Builder) (children : List ExprId) : ExprId × Builder :=
  b.pushIfAllSkip (.each children) children

/-- A child a number of times within bounds, ending early where `stop` would match. -/
def repetition (b : Builder) (child : ExprId) (bounds : Bounds) (stop : Option ExprId) :
    Except BuildError (ExprId × Builder) := do
  let (min, max) ← bounds.resolve
  return b.pushLike (.repetition child min max stop) (some child)

/-- A child any number of times. -/
def zeroOrMore (b : Builder) (child : ExprId) : ExprId × Builder :=
  b.pushLike (.repetition child 0 none none) (some child)

/-- A child at least once. -/
def oneOrMore (b : Builder) (child : ExprId) : ExprId × Builder :=
  b.pushLike (.repetition child 1 none none) (some child)

/-- A child that may be absent, with what stands for it then. -/
def optional (b : Builder) (child : ExprId) (default : Option Value) : ExprId × Builder :=
  b.pushLike (.optional child default) (some child)

/-- The child matches here. -/
def followedBy (b : Builder) (child : ExprId) : ExprId × Builder := b.pushStill (.lookahead child)

/-- The child does not match here. -/
def notFollowedBy (b : Builder) (child : ExprId) : ExprId × Builder := b.pushStill (.notAhead child)

/-- The child matches text that ends here. -/
def precededBy (b : Builder) (child : ExprId) (retreat : Option Nat) : ExprId × Builder :=
  b.pushStill (.precededBy child retreat)

/-- A name for a node that is given later. -/
def forward (b : Builder) (label : String) : ExprId × Builder := b.pushSkipping (.forward label none)

/-- An action on a child. -/
def transform (b : Builder) (child : ExprId) (action : Action) : ExprId × Builder :=
  b.pushLike (.transform child action) (some child)

/-- The name of a field without the star that makes it accumulate, and whether it had one. -/
def splitStar (name : String) : String × Bool :=
  let t := name.toList
  if t.getLast? = some '*' then (String.ofList t.dropLast, true) else (name, false)

/-- The tokens of a child under a name; a star at the end of the name makes the field accumulate. -/
def named (b : Builder) (child : ExprId) (name : String) : ExprId × Builder :=
  let (name, accumulates) := splitStar name
  b.pushLike (.named child name accumulates) (some child)

/-- The tokens of a child under the name of an accumulating field. -/
def namedList (b : Builder) (child : ExprId) (name : String) : ExprId × Builder :=
  b.pushLike (.named child name true) (some child)

/-- The results of a child as a group. -/
def group (b : Builder) (child : ExprId) : ExprId × Builder := b.pushLike (.group child) (some child)

/-- The groups of a child as fields by their first tokens. -/
def dictOf (b : Builder) (child : ExprId) : ExprId × Builder := b.pushLike (.dict child) (some child)

/-- A child without its results. -/
def suppress (b : Builder) (child : ExprId) : ExprId × Builder := b.pushLike (.suppress child) (some child)

/-- The tokens of a child joined to one. -/
def combine (b : Builder) (child : ExprId) (joiner : String) : ExprId × Builder :=
  b.pushLike (.combine child joiner) (some child)

/-- The text of a child's match. -/
def originalText (b : Builder) (child : ExprId) : ExprId × Builder :=
  b.pushLike (.originalText child) (some child)

/-- All text up to the next match of a target. -/
def skipTo (b : Builder) (target : ExprId) (includes : Bool) (failOn : Option ExprId) : ExprId × Builder :=
  b.pushSkipping (.skipTo target includes failOn)

/-- The empty text. -/
def empty (b : Builder) : ExprId × Builder := b.pushSkipping .empty

/-- No text at all. -/
def noMatch (b : Builder) : ExprId × Builder := b.pushSkipping .noMatch

/-- The start of the text. -/
def stringStart (b : Builder) : ExprId × Builder := b.pushSkipping .stringStart

/-- The end of the text. -/
def stringEnd (b : Builder) : ExprId × Builder := b.pushSkipping .stringEnd

/-- The start of a line. -/
def lineStart (b : Builder) : ExprId × Builder := b.pushSkipping .lineStart

/-- The end of a line, before which newlines are not skipped. -/
def lineEnd (b : Builder) : ExprId × Builder := b.push .lineEnd true (b.defaultWhitespace.without '\n')

/-- Where a run of characters begins. -/
def wordStart (b : Builder) (chars : CharSet) : ExprId × Builder := b.pushSkipping (.wordStart chars)

/-- Where a run of characters ends. -/
def wordEnd (b : Builder) (chars : CharSet) : ExprId × Builder := b.pushStill (.wordEnd chars)

/-! ## Settings of nodes -/

/-- Changes a known node. -/
def modify (b : Builder) (i : ExprId) (f : Node → Node) : Except BuildError Builder :=
  if i < b.size then .ok { b with nodes := b.nodes.modify i f } else .error (.unknownExpr i)

/-- Gives a forward its target, once; it then skips as its target does. -/
def bind (b : Builder) (forward target : ExprId) : Except BuildError Builder :=
  match b.nodes[target]?, b.nodes[forward]? with
  | none, _ => .error (.unknownExpr target)
  | some _, none => .error (.unknownExpr forward)
  | some t, some n =>
    match n.kind with
    | .forward label (some _) => .error (.forwardRebound label)
    | .forward label none =>
      b.modify forward fun n => { n with
        kind := .forward label (some target)
        skipsWhitespace := t.skipsWhitespace
        whitespace := t.whitespace }
    | _ => .error (.notAForward forward)

/-- Gives a node a name for messages. -/
def setName (b : Builder) (i : ExprId) (name : String) : Except BuildError Builder :=
  b.modify i fun n => { n with customName := some name }

/-- Makes a node not skip whitespace. -/
def leaveWhitespace (b : Builder) (i : ExprId) : Except BuildError Builder :=
  b.modify i fun n => { n with skipsWhitespace := false }

/-- Makes a node skip the characters of a set. -/
def withWhitespace (b : Builder) (i : ExprId) (s : CharSet) : Except BuildError Builder :=
  b.modify i fun n => { n with whitespace := s, skipsWhitespace := true }

/-- Makes a node, and everything beneath it in the grammar, skip matches of another. -/
def ignore (b : Builder) (i ignorable : ExprId) : Except BuildError Builder :=
  if ignorable < b.size then
    b.modify i fun n =>
      if n.ignores.contains ignorable then n else { n with ignores := n.ignores ++ [ignorable] }
  else .error (.unknownExpr ignorable)

end Builder
end Packrat
