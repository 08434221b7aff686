import Packrat.Proofs.Coupling.Lockstep
import Packrat.Proofs.Memory.Reset

/-!
# `Packrat.Proofs.Memory.Reuse` — a parser that is used again parses as a new one

A parse that halts leaves seeds and remembered outcomes behind, of another text and from the middle of growth. The next
parse forgets them; what it starts from cannot be told apart from the state of a new parser, and so the two parses go
in lockstep, in every mode.

## Contents

* `Parser.after` — a parser after a history of parses;
* `Parser.Used.alike_initial` — what a parse starts from;
* `Parser.Used.parse_outcome` — a used parser parses as a new one;
* `parse_after_outcome` — **no history of parses shows in the next one**.
-/

namespace Packrat

/-- A table that a strategy made cannot be told apart from a new one once it is cleared. -/
theorem Memo.alike_clear {m : Memo} {strategy : Memoization} (h : m.blank = ofStrategy strategy) :
    m.clear.Alike (ofStrategy strategy).clear := by
  rw [← h]
  cases m with
  | off => exact .off
  | all entries => exact .all ∅
  | limited retention uses entries =>
    rcases strategy with _ | ((_ | _ | n)) | _
    · exact absurd h (by simp [blank, ofStrategy])
    · exact absurd h (by simp [blank, ofStrategy])
    · exact absurd h (by simp [blank, ofStrategy])
    · -- the table keeps the latest outcomes, so its uses do not count
      obtain ⟨rfl, -, -⟩ : retention = .latest (n + 1) ∧ 0 = 0 ∧ ([] : List (MemoKey × Step)) = [] := by
        simpa [blank, ofStrategy] using h
      exact .latest (n + 1) uses 0 []
    · exact absurd h (by simp [blank, ofStrategy])

/-- Parses that go in lockstep come to the same results or error. -/
theorem Coupling.Agree.resolve_eq {g : Grammar} {strategy : Memoization} {r : Bool}
    {x y : EStateM.Result Halt State Step} (h : (lockstep g strategy).Agree () r (Step.Alike true) x y) (t : Text) :
    (Packrat.resolve t x).1 = (Packrat.resolve t y).1 := by
  rcases h.inStep with ⟨e, s, s', rfl, rfl, -⟩ | ⟨step, step', s, s', rfl, rfl, halike, -⟩
  · rfl
  · obtain rfl := Step.alike_true halike
    cases step <;> rfl

namespace Parser

/-- A parser after a history of parses, each of a text or of the front of one. -/
def after (p : Parser) (history : List (Text × Bool)) : Parser :=
  history.foldl (fun p (t, all) => (p.parse t all).2) p

namespace Used

variable {p : Parser} (h : p.Used)
include h

theorem after (history : List (Text × Bool)) : (p.after history).Used := by
  induction history generalizing p with
  | nil => exact h
  | cons call history ih => exact ih (h.parse call.1 call.2)

/-- What a parse starts from cannot be told apart from what the first parse of a new parser starts from. -/
theorem alike_initial : State.Alike p.config.memoization { p.state.forget with journal := [] }
    { (State.initial p.config).forget with journal := [] } :=
  ⟨Memo.alike_clear h.blank, fun _ => rfl⟩

/-- **A used parser parses as a new one**, whatever its parses have left behind. -/
theorem parse_outcome (t : Text) (all : Bool) :
    (p.parse t all).1.outcome = (p.grammar.parse p.config p.watch t all).outcome := by
  let c := Context.top p.grammar p.config p.watch (viewOf p.config t)
  have hlinked : (Coupling.lockstep p.grammar p.config.memoization).Linked () false (Step.Alike true)
      (matchRoot c all) (matchRoot c all) :=
    Coupling.matchRoot_linked (Coupling.lockstep_agrees _ _ _) (Coupling.LockstepPair.refl c) trivial all
  exact (hlinked _ _ h.alike_initial).resolve_eq _

end Used

@[simp] theorem after_grammar (p : Parser) (history : List (Text × Bool)) : (p.after history).grammar = p.grammar := by
  induction history generalizing p with
  | nil => rfl
  | cons call history ih => exact ih (p.parse call.1 call.2).2

@[simp] theorem after_config (p : Parser) (history : List (Text × Bool)) : (p.after history).config = p.config := by
  induction history generalizing p with
  | nil => rfl
  | cons call history ih => exact ih (p.parse call.1 call.2).2

@[simp] theorem after_watch (p : Parser) (history : List (Text × Bool)) : (p.after history).watch = p.watch := by
  induction history generalizing p with
  | nil => rfl
  | cons call history ih => exact ih (p.parse call.1 call.2).2

end Parser

/-- **No history of parses shows in the next one.** In every mode, after any parses that matched, failed or halted, a
parse comes to what it comes to with a parser of its own. -/
theorem parse_after_outcome (g : Grammar) (config : Config) (watch : Watch) (history : List (Text × Bool)) (t : Text)
    (all : Bool) :
    (((Parser.new g config watch).after history).parse t all).1.outcome = (g.parse config watch t all).outcome := by
  have hused : ((Parser.new g config watch).after history).Used := (Parser.Used.new g config watch).after history
  have houtcome := hused.parse_outcome t all
  simpa [Parser.new] using houtcome

end Packrat
