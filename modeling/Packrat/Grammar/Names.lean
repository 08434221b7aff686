import Packrat.Grammar.Node

/-!
# `Packrat.Grammar.Names` — how nodes are called in messages

A node without a name of its own is called by what it is made of, down to its literals; a forward is called by
its label, which cuts the recursion of grammars. Names are built as texts.

## Contents

* `quoteName`, `setName` — literals and character sets inside names;
* `stripBraces` — sequences inside sequences lose their braces;
* `nameOf?` — the name of a node, if it is finite;
* `failureMessage` — what is reported when a node does not match.
-/

namespace Packrat

/-! ## Parts of names -/

/-- Literal text in single quotes, or in double quotes when that spares an escape. -/
def quoteName (t : Text) : Text :=
  if t.contains '\'' && !t.contains '"' then '"' :: t ++ ['"']
  else '\'' :: (t.flatMap fun c => if c == '\'' then ['\\', '\''] else [c]) ++ ['\'']

/-- The description of a character set, cut off when it is long. -/
def setName (s : CharSet) : Text :=
  let t := s.describe.toList
  if 16 < t.length then t.take 13 ++ ['.', '.', '.'] else t

/-- A text between braces. -/
def braced (t : Text) : Text := '\x7b' :: t ++ ['\x7d']

/-- A text behind a word and a colon, in parentheses. -/
def tagged (word : String) (t : Text) : Text := word.toList ++ [':', '('] ++ t ++ [')']

/-- A text without the pairs of braces around it. -/
def stripBraces (t : Text) : Text :=
  match t with
  | '\x7b' :: r => if r.getLast? = some '\x7d' then stripBraces r.dropLast else t
  | _ => t
termination_by t.length
decreasing_by simp only [List.length_dropLast, List.length_cons]; omega

/-- Texts with a separator between them. -/
def joinNames (separator : String) (ts : List Text) : Text := separator.toList.intercalate ts

/-- A number as text. -/
def numberText (n : Nat) : Text := Nat.toDigits 10 n

/-- How often a repetition repeats, around the name of what it repeats. -/
def repetitionName (child : Text) (min : Nat) (max : Option Nat) : Text :=
  match min, max with
  | 0, none => '[' :: child ++ "]...".toList
  | 1, none => braced child ++ "...".toList
  | m, none => child ++ braced (numberText m ++ [','])
  | m, some n =>
    if m = n then child ++ braced (numberText m) else child ++ braced (numberText m ++ [','] ++ numberText n)

/-! ## Names of nodes -/

/-- The name of an expression without a name of its own, given the names of its children. -/
def NodeKind.defaultName? (name? : ExprId → Option Text) : NodeKind → Option Text
  | .literal text _ | .keyword text _ _ => some (quoteName text.toList)
  | .word init body _ _ =>
    some (tagged "W" (if init = body then setName init else setName init ++ [',', ' '] ++ setName body))
  | .charsNotIn excluded _ _ => some (tagged "!W" (setName excluded))
  | .pattern source _ => some (tagged "Re" (quoteName source.toList))
  | .sequence cs => (cs.mapM name?).map fun ns => braced (stripBraces (joinNames " " ns))
  | .orderedChoice cs => (cs.mapM name?).map fun ns => braced (joinNames " | " ns)
  | .longestChoice cs => (cs.mapM name?).map fun ns => braced (joinNames " ^ " ns)
  | .each cs => (cs.mapM name?).map fun ns => braced (joinNames " & " ns)
  | .repetition c min max _ => (name? c).map fun n => repetitionName n min max
  | .optional c _ => (name? c).map fun n => '[' :: n ++ [']']
  | .lookahead c => (name? c).map (tagged "FollowedBy")
  | .notAhead c => (name? c).map fun n => '~' :: braced n
  | .precededBy c _ => (name? c).map (tagged "PrecededBy")
  | .forward label _ => some ("Forward: ".toList ++ label.toList)
  | .transform c _ | .named c _ _ => name? c
  | .group c => (name? c).map (tagged "Group")
  | .dict c => (name? c).map (tagged "Dict")
  | .suppress c => (name? c).map (tagged "Suppress")
  | .combine c _ => (name? c).map (tagged "Combine")
  | .originalText c => (name? c).map (tagged "OriginalText")
  | .skipTo target _ _ => (name? target).map (tagged "SkipTo")
  | .empty => some "Empty".toList
  | .noMatch => some "NoMatch".toList
  | .stringStart => some "start of text".toList
  | .stringEnd => some "end of text".toList
  | .lineStart => some "start of line".toList
  | .lineEnd => some "end of line".toList
  | .wordStart _ => some "start of a word".toList
  | .wordEnd _ => some "end of a word".toList
  | .commit => some ['-']

/-- The name of a node, to a depth of nesting. -/
def nameAt? (nodes : Array Node) : (depth : Nat) → ExprId → Option Text
  | 0, _ => none
  | depth + 1, i =>
    match nodes[i]? with
    | none => some ['?']
    | some n =>
      match n.customName with
      | some name => some name.toList
      | none => n.kind.defaultName? (nameAt? nodes depth)

/-- The name of a node; `none` when it would contain itself, which is when it nests deeper than there are
nodes. -/
def nameOf? (nodes : Array Node) (i : ExprId) : Option Text := nameAt? nodes (nodes.size + 1) i

/-! ## Failure messages -/

/-- What is reported when a node does not match, given the names of nodes. -/
def failureMessage (name : ExprId → String) (i : ExprId) (n : Node) : String :=
  match n.customName, n.kind with
  | none, .noMatch => "Unmatchable token"
  | none, .notAhead c => "Found unwanted token, " ++ name c
  | none, .precededBy c _ => "Not preceded by " ++ name c
  | none, .skipTo target _ _ => "No match found for " ++ name target
  | _, _ => "Expected " ++ name i

end Packrat
