import Packrat.Proofs.Coupling.Runs
import Packrat.Proofs.Seeds.Rounds

/-!
# `Packrat.Proofs.Plain.Yields` — computations that come to a value

What a computation comes to from every state with a property, as long as it leaves such a state.

## Contents

* `Yields` — coming to a value, with `pure` and `bind`;
* `Yields.perform` — a performance, by where it begins and what its node comes to there;
* `valueOf?` — the value of a run, to be computed.
-/

namespace Packrat

/-- From every state with a property a computation comes to a value, and leaves a state with that property. -/
def Yields {α : Type} (I : State → Prop) (m : MatchM α) (a : α) : Prop := ∀ s, I s → ∃ s', m s = .ok a s' ∧ I s'

namespace Yields

variable {α β : Type} {I : State → Prop} {m : MatchM α} {a : α}

protected theorem pure (a : α) : Yields I (pure a : MatchM α) a := fun s hs => ⟨s, rfl, hs⟩

protected theorem bind {f : α → MatchM β} {b : β} (hm : Yields I m a) (hf : Yields I (f a) b) :
    Yields I (m >>= f) b := by
  intro s hs
  obtain ⟨s', hrun, hs'⟩ := hm s hs
  rw [bind_ok hrun]
  exact hf s' hs'

section SameTables

variable (hI : ∀ ⦃s s' : State⦄, s'.SameTables s → I s → I s')
include hI

theorem of_sameTables {m : MatchM Unit} (h : ∀ s, ∃ s', m s = .ok () s' ∧ s'.SameTables s) : Yields I m () := by
  intro s hs
  obtain ⟨s', hrun, hsame⟩ := h s
  exact ⟨s', hrun, hI hsame hs⟩

/-- A performance matches the node where it begins. -/
protected theorem perform {a : Attempt} {c : Context} {i : ExprId} {p start : Nat} {acts skips : Bool} {step : Step}
    (hbegin : Yields I (if skips = true then skipLeading a c (c.rule i) p else pure p) start)
    (h : Yields I (matchNode a c i (c.rule i) start acts) step) :
    Yields I (perform a c i p acts skips) (step.mapResults (ResultsOf.withOrigin i)) := by
  have hrest : Yields I
      (do let step ← matchNode a c i (c.rule i) start acts
          reportStep (c.watch.wants (c.rule i)) i start (step.mapResults (ResultsOf.withOrigin i))
          return step.mapResults (ResultsOf.withOrigin i)) (step.mapResults (ResultsOf.withOrigin i)) :=
    h.bind ((of_sameTables hI (reportStep_sameTables _ _ _ _)).bind (Yields.pure _))
  refine (of_sameTables hI (reportTry_sameTables _ _ _ _)).bind ?_
  cases skips with
  | true => exact hbegin.bind hrest
  | false => exact hbegin.bind hrest

end SameTables

end Yields

/-- The value that a run has given, if it has not halted. -/
def valueOf? {α : Type} : EStateM.Result Halt State α → Option α
  | .ok a _ => some a
  | .error _ _ => none

theorem exists_of_valueOf? {α : Type} {x : EStateM.Result Halt State α} {p : α → Bool}
    (h : (valueOf? x).any p = true) : ∃ a s, x = .ok a s ∧ p a = true := by
  cases x with
  | ok a s => exact ⟨a, s, rfl, h⟩
  | error e s => exact absurd h Bool.false_ne_true

end Packrat
