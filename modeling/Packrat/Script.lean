import Packrat.Decimal.Read
import Packrat.Grammar.Action
import Packrat.Results.Edit
import Packrat.Results.View

/-!
# `Packrat.Script` — actions as lists of commands

A script is an action that can be written down: commands that read the matched text, change the results, leave
notes or refuse the match, each under a condition. The first refusal ends the script.
-/

namespace Packrat

/-- What must hold for a command to be run. Conditions that are not given hold. -/
structure Condition where
  /-- The matched text. -/
  text : Option String := none
  /-- The number of tokens. -/
  length : Option Nat := none
  /-- The greatest number of tokens. -/
  maxLength : Option Nat := none
  /-- A field there must be. -/
  field : Option String := none
  /-- The first token, a string. -/
  first : Option String := none
deriving DecidableEq, Repr, Inhabited

/-- Whether a condition holds. Where no text was matched, no condition on it holds. -/
def Condition.holds (c : Condition) (matched : Option Text) (r : Results) : Bool :=
  c.text.all (fun s => matched == some s.toList)
    && c.length.all (· == r.length)
    && c.maxLength.all (r.length ≤ ·)
    && c.field.all (r.hasField ·)
    && c.first.all (fun s => r.tokens.head?.bind Value.str? == some s)

/-- What a script can do. -/
inductive Command
  /-- Leaves a note: a tag, where the match is, and its tokens. -/
  | log (tag : String)
  /-- The matched text as an integer. -/
  | int
  /-- The matched text as a floating-point number. -/
  | float
  /-- The matched text with the letters of ASCII in upper case. -/
  | upper
  /-- The matched text. -/
  | text
  /-- The tokens joined to one. -/
  | joined
  /-- The start and the end of the match. -/
  | span
  /-- The text before the match. -/
  | before
  /-- The value of an operator between two integers. -/
  | arith
  | reject (message : String)
  | fatal (message : String)
  | fail (message : String)
  | edit (e : Edit Value)
  | nothing

/-- A command with its condition. -/
structure ScriptLine where
  condition : Condition := {}
  command : Command

/-- An integer token, or zero. -/
def intOrZero (r : Results) (i : Nat) : Int64 := (r.tokens[i]?.bind Value.int?).getD 0

/-- The value of the operator that is the second of three tokens, if it is one; integers wrap around. -/
def arithmetic? (r : Results) : Option Int64 :=
  let a := intOrZero r 0
  let b := intOrZero r 2
  match r.tokens[1]?.bind Value.str? with
  | some "+" => some (a + b)
  | some "-" => some (a - b)
  | some "*" => some (a * b)
  | _ => none

/-- A character with the letters of ASCII in upper case. -/
def upperLetter (c : Char) : Char := if 'a' ≤ c ∧ c ≤ 'z' then Char.ofNat (c.toNat - 32) else c

/-- A number that was read as the only token, or the failure to read it. -/
def numberTokens {α : Type} (toValue : α → Value) (r : Results) :
    Except Decimal.NumberError α → Except ActionError Results
  | .ok n => .ok (r.setTokens [toValue n])
  | .error e => .error (.failed e.message)

/-- An integer token of a position. -/
def positionValue (p : Nat) : Value := Value.int (Int64.ofInt p)

/-- What a command makes of results. -/
def Command.apply (c : ActionContext) (r : Results) : Command → Except ActionError Results
  | .log _ | .nothing => .ok r
  | .int => numberTokens Value.int r (Decimal.readInt c.matched)
  | .float => numberTokens Value.float r (Decimal.readFloat c.matched)
  | .upper => .ok (r.setTokens [Value.ofText (c.matched.map upperLetter)])
  | .text => .ok (r.setTokens [Value.ofText c.matched])
  | .joined => .ok (r.setTokens [Value.str r.joined])
  | .span => .ok (r.setTokens [positionValue c.start, positionValue c.stop])
  | .before => .ok (r.setTokens [Value.ofText (c.text.before c.start)])
  | .arith =>
    match arithmetic? r with
    | some n => .ok (r.setTokens [Value.int n])
    | none => .ok r
  | .reject message => .error (.reject message)
  | .fatal message => .error (.fatal message)
  | .fail message => .error (.failed message)
  | .edit e =>
    match e.apply r with
    | some (_, r) => .ok r
    | none => .error .outOfRange

/-- The note a command leaves, if it leaves one. -/
def Command.note? (c : ActionContext) (r : Results) : Command → Option String
  | .log tag => some (tag ++ " " ++ (Span.mk c.start c.stop).render ++ " " ++ r.render)
  | _ => none

/-- Runs the lines of a script in order, with the notes left so far, the latest first. -/
def runLines (c : ActionContext) : List ScriptLine → (notes : List String) → Results → ActionReply
  | [], notes, r => ⟨notes.reverse, .ok r⟩
  | line :: lines, notes, r =>
    if line.condition.holds (some c.matched) r then
      let notes := (line.command.note? c r).toList ++ notes
      match line.command.apply c r with
      | .ok r => runLines c lines notes r
      | .error e => ⟨notes.reverse, .error e⟩
    else runLines c lines notes r

/-- The action of a script. -/
def Action.ofScript (lines : List ScriptLine) : Action := ⟨fun c r => runLines c lines [] r⟩

end Packrat
