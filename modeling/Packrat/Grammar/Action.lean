import Packrat.Results.Basic
import Packrat.Text.Span

/-!
# `Packrat.Action` — code that runs on a match

An action sees where its node matched and the results so far. It may change the results, refuse the match in
one of three ways, and leave notes for whoever started the parse.
-/

namespace Packrat

/-- Where an action's node matched. -/
structure ActionContext where
  text : Text
  start : Nat
  stop : Nat
deriving Repr, Inhabited

/-- The text an action's node matched. -/
def ActionContext.matched (c : ActionContext) : Text := (Span.mk c.start c.stop).slice c.text

/-- How an action refuses a match. -/
inductive ActionError
  /-- An ordinary failure, from which alternatives recover. -/
  | reject (message : String)
  /-- A failure from which no alternative recovers. -/
  | fatal (message : String)
  /-- An error of the action's own, which ends the parse. -/
  | failed (cause : String)
  /-- A token position that does not exist, which ends the parse. -/
  | outOfRange
deriving DecidableEq, Repr, Inhabited

/-- What an action answers: the notes it leaves, and the results or its refusal. -/
structure ActionReply where
  notes : List String
  outcome : Except ActionError Results

instance : Inhabited ActionReply := ⟨⟨[], .ok {}⟩⟩

/-- An action. -/
structure Action where
  run : ActionContext → Results → ActionReply

instance : Inhabited Action := ⟨⟨fun _ r => ⟨[], .ok r⟩⟩⟩

namespace Action

/-- The action that changes results and never refuses. -/
def ofMap (f : Results → Results) : Action := ⟨fun _ r => ⟨[], .ok (f r)⟩⟩

/-- The action that rejects, with a message, the matches whose results fail a test. -/
def ofTest (test : Results → Bool) (message : String) : Action :=
  ⟨fun _ r => ⟨[], if test r then .ok r else .error (.reject message)⟩⟩

/-- The action that replaces the tokens by one value. -/
def constant (v : Value) : Action := ofMap (ResultsOf.setTokens [v])

end Action
end Packrat
