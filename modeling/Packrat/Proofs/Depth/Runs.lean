import Packrat.Proofs.Coupling.Runs
import Packrat.Proofs.Depth.Nodes

/-!
# `Packrat.Proofs.Depth.Runs` — parses under different limits

When attempts are the same in two contexts, so is the match of the root with what follows it. A parse whose limit
covers the nesting then comes to the same outcome as under any greater limit.

## Contents

* `matchRoot_same` — the root and the end of the text;
* `Settled` — grammars for which a limit is enough on a text;
* `settled_of_same` — **a limit that covers the nesting is enough**.
-/

namespace Packrat

/-- The match of the root, with the end of the text after it, is the same in two runs. -/
theorem Twin.matchRoot_same {g : Grammar} {D : Twin g} (h₁ : D.first = attempt D.c₁) (h₂ : D.second = attempt D.c₂)
    (hroot : D.Meets true g.root 0)
    (hignores : ∀ j ∈ (g.rule g.root).ignores, D.MeetsFrom false 0 j) (all : Bool) :
    D.Same (fun _ => True) (matchRoot D.c₁ all) (matchRoot D.c₂ all) := by
  have hgrammar : D.c₂.grammar = g := D.peers.grammar.symm.trans D.grammar
  unfold matchRoot
  simp only [← h₁, ← h₂, D.grammar, hgrammar, D.text_eq]
  refine (hroot true true id).step ?_ fun _ => Same.pure trivial
  intro stop r hstop
  cases all with
  | false => exact Same.pure trivial
  | true =>
    simp only [Bool.not_true, Bool.false_eq_true, if_false]
    refine (skipLeading_same (fun j hj => (hignores j hj).mono (Nat.zero_le _)) hstop.place).bind fun q _ => ?_
    split
    · exact Same.pure trivial
    · exact Same.pure trivial

/-- A configuration under a limit of nesting. -/
def Config.limited (config : Config) (limit : Nat) : Config := { config with recursionLimit := some limit }

/-- A limit of nesting is enough for a parse: it does not nest too deeply, and comes to one outcome under this limit
and under every greater one. -/
def Settled (g : Grammar) (config : Config) (watch : Watch) (t : Text) (all : Bool) (enough : Nat) : Prop :=
  ∃ outcome, ¬ TooDeep outcome ∧ ∀ limit, enough ≤ limit →
    (g.parse (config.limited limit) watch t all).outcome = outcome

/-- **A limit that covers the nesting is enough**: where runs under two such limits are the same and do not nest too
deeply, all outcomes are the same. -/
theorem settled_of_same {g : Grammar} {config : Config} {watch : Watch} {t : Text} {all : Bool} {enough : Nat}
    {I : State → Prop} (hstart : ∀ s, s.memo = Memo.ofStrategy config.memoization → s.seeds = .empty → I s)
    (hsame : ∀ limit limit', enough ≤ limit → enough ≤ limit' →
      Concur I (fun h => h.isTooDeep = false) (fun _ => True)
        (matchRoot (Context.top g (config.limited limit) watch (viewOf config t)) all)
        (matchRoot (Context.top g (config.limited limit') watch (viewOf config t)) all)) :
    Settled g config watch t all enough := by
  let s₀ : State := { (State.initial config).forget with journal := [] }
  have hclear : (Memo.ofStrategy config.memoization).clear = Memo.ofStrategy config.memoization := by
    rcases config.memoization with _ | ((_ | _ | n)) | _ <;> rfl
  have hs₀ : I s₀ := hstart s₀ hclear rfl
  have houtcome (limit : Nat) : (g.parse (config.limited limit) watch t all).outcome
      = (resolve (viewOf config t)
          (matchRoot (Context.top g (config.limited limit) watch (viewOf config t)) all s₀)).1 := rfl
  refine ⟨(g.parse (config.limited enough) watch t all).outcome, ?_, ?_⟩
  · rw [houtcome]
    have hkeeps := (hsame enough enough (le_refl _) (le_refl _)).keeps s₀ hs₀
    cases hr : matchRoot (Context.top g (config.limited enough) watch (viewOf config t)) all s₀ with
    | ok step s =>
      cases step with
      | matched stop r => exact id
      | failed d => exact Bool.false_ne_true
    | error e s =>
      rw [hr] at hkeeps
      show ¬ (e.toError (viewOf config t)).isTooDeep = true
      rw [Halt.isTooDeep_toError, hkeeps.1]
      exact Bool.false_ne_true
  · intro limit hlimit
    rw [houtcome, houtcome, (hsame limit enough hlimit (le_refl _)).eq s₀ hs₀]

end Packrat
