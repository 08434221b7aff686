import Packrat.Proofs.Plain.Answer
import Packrat.Proofs.Placement.Nodes
import Packrat.Proofs.Seeds.Ledger
import Packrat.Proofs.Seeds.Safety

/-!
# `Packrat.Proofs.Seeds.Frame` — nodes that leave the seeds alone

A node that reaches no forward neither reads nor sets a seed. Where forwards grow seeds it comes to the answer of
the plain run, and the ledger stays as it is.

## Contents

* `Coupling.framed` — a run that grows seeds and a plain one, on nodes that are no forwards;
* `framed_agrees` — attempts of such nodes agree;
* `frame_ends` — **an attempt of such a node** leaves the ledger alone;
* `Settles.probe`, `Settles.place` — answers with and without actions, and where they lie.
-/

namespace Packrat
namespace Coupling

/-! ## Frames -/

/-- A context in which forwards grow seeds and a plain one on one text, the second with at least the room `k` and
the first with at most that. -/
structure FramePair (g : Grammar) (n m k : Nat) (c₁ c₂ : Context) : Prop where
  alike : Context.Alike g c₁ c₂
  seeding : c₁.config.memoization = .leftRecursion
  plain : c₂.IsPlain
  room₁ : c₁.room n ≤ k
  room₂ : k ≤ c₂.room m

/-- A run with a ledger and a plain one. -/
@[reducible] def framed (g : Grammar) (N : ExprId → Prop) (hN : g.Closed N) (n m k : Nat) : Coupling g where
  World := Ledger
  exact := true
  state l s₁ s₂ := l.Of s₁ ∧ s₂.memo = .off
  contexts _ := FramePair g n m k
  nodes _ _ i := N i
  state_congr := fun hs h₁ h₂ => ⟨hs.1.congr h₁, h₂.memo.trans hs.2⟩
  alike := fun hc => hc.alike
  combined := fun hc => ⟨⟨hc.alike.1, hc.alike.2, hc.alike.3, rfl⟩, hc.2, hc.3, hc.4, hc.5⟩
  behind := by
    intro l c₁ c₂ hc p
    refine ⟨⟨.empty, 0⟩, ⟨⟨hc.alike.1, hc.alike.2, ?_, rfl⟩, hc.2, hc.3, hc.4, hc.5⟩, ⟨?_, rfl, rfl⟩, ?_⟩
    · exact congrArg (Text.before · p) hc.alike.text
    · rw [State.initial, hc.seeding, Memo.ofStrategy]
    · rw [State.initial, hc.plain, Memo.ofStrategy]
  nodes_within := hN.within
  nodes_recovering := hN.recovering
  nodes_combined := hN.combined
  nodes_behind := hN.behind

/-- Attempts of nodes that reach no forward agree, whatever the ledger, unless the first nests too deeply. -/
theorem framed_agrees {g : Grammar} {N : ExprId → Prop} (hN : g.Closed N) (hforward : ∀ i, N i → ¬ g.IsForward i)
    (n m k : Nat) : (framed g N hN n m k).Agrees (attemptWithin n) (attemptWithin m) := by
  induction k using Nat.strong_induction_on generalizing n m with
  | _ k ih =>
    intro w c₁ c₂ r i p acts₁ acts₂ skips hc hi hacts
    refine linked_of_room hc.room₁ hc.room₂ fun {n' m' k'} hk h₁ h₂ e₁ => ?_
    subst hk
    rw [e₁]
    have hdeep : FramePair g n' m' k' c₁.deeper c₂.deeper := ⟨hc.alike.deeper, hc.seeding, hc.plain, h₁, h₂⟩
    have ha := ih k' (Nat.lt_succ_self k') n' m'
    refine remember_linked (K := framed g N hN n' m' k') (w := w) (fun _ _ hs => ⟨hs.1.memo, hs.2⟩) hdeep skips ?_
    intro skips'
    refine perform_linked ha hdeep hi p skips' ?_
    intro start
    -- no node here is a forward, the only place where seeds are asked for
    exact matchNode_linked ha hdeep hi hacts start
      (fun label target hk => absurd ⟨label, target, hk⟩ (hforward i hi)) (by simp) (by simp)

end Coupling

/-! ## Attempts -/

/-- No plain attempt of a node outside combined regions halts, but for too deep nesting. -/
def Grammar.Quiet (g : Grammar) (i : ExprId) : Prop :=
  ∀ t k p acts skips e, g.answer? t k ⟨i, p, acts, skips, false⟩ ≠ some (.error e)

/-- Literals do not halt. -/
theorem Grammar.quiet_literal {g : Grammar} {i : ExprId} {text : String} {caseless : Bool}
    (hk : (g.rule i).kind = .literal text caseless) (hignores : (g.rule i).ignores = []) : g.Quiet i := by
  intro t k p acts skips e h
  cases k with
  | zero => exact absurd h (by simp)
  | succ k =>
    let c := (plainContext g t false).deeper
    have hends : Ends (fun _ => False) ⟨.empty, 0⟩ (perform (attemptWithin k) c i p acts (skips && !c.adjacent))
        fun _ _ => True := by
      refine perform_ends hignores ?_
      simp only [matchNode, show (c.rule i).kind = .literal text caseless from hk]
      exact Ends.pure trivial
    obtain ⟨step, s', -, hrun, -⟩ := hends.exists_ok (s := (State.initial {}).counted) ⟨rfl, rfl, rfl⟩
    have hanswer : g.answer? t (k + 1) ⟨i, p, acts, skips, false⟩
        = answerOf? (remember (attemptWithin k) c i p acts skips (State.initial {})) := rfl
    rw [hanswer, remember_off rfl, hrun] at h
    exact absurd h (by simp)

/-- **An attempt of a node that reaches no forward** comes to the answer of the plain run and leaves the ledger
alone. -/
theorem Context.Seeding.frame_ends {g : Grammar} {t : Text} {limit : Option Nat} {c : Context}
    (hc : c.Seeding g t limit) {i : ExprId} (hforward : ∀ j, g.Reaches i j → ¬ g.IsForward j) (hquiet : g.Quiet i)
    (n p : Nat) (acts skips : Bool) (l : Ledger) :
    Ends (fun e => e.isTooDeep = true) l (attemptWithin n c i p acts skips) fun step l' =>
      l' = l ∧ g.Settles t ⟨i, p, acts, skips, false⟩ (.ok step) := by
  intro s hs
  have hpair : Coupling.FramePair g n (c.room n) (c.room n) c (plainContext g t false) :=
    ⟨⟨hc.grammar, rfl, hc.text, hc.apart⟩, hc.seeding, rfl, le_refl _, le_refl _⟩
  have hlinked : (Coupling.framed g (g.Reaches i) (Grammar.closed_reaches g i) n (c.room n) (c.room n)).Linked l false
      (Step.Alike true) (attemptWithin n c i p acts skips)
      (attemptWithin (c.room n) (plainContext g t false) i p acts skips) :=
    Coupling.framed_agrees (Grammar.closed_reaches g i) hforward n (c.room n) (c.room n) hpair
      (Grammar.Reaches.self g i) fun _ => rfl
  have hanswer : g.answer? t (c.room n) ⟨i, p, acts, skips, false⟩
      = answerOf? (attemptWithin (c.room n) (plainContext g t false) i p acts skips (State.initial {})) := rfl
  rcases (hlinked s (State.initial {}) ⟨hs, rfl⟩).cases with
    ⟨e, s₁, he, h₁⟩ | ⟨e, s₁, s₂, h₁, h₂, -⟩ | ⟨step, step', s₁, s₂, h₁, h₂, halike, hstate⟩
  · rw [h₁]
    exact he
  · rw [h₁]
    cases he : e.isTooDeep with
    | true => exact he
    | false =>
      -- the plain run would halt as well, which a quiet node does not
      rw [h₂, answerOf?_error he] at hanswer
      exact absurd hanswer (hquiet t (c.room n) p acts skips e)
  · obtain rfl : step = step' := Step.alike_true halike
    rw [h₁]
    refine ⟨l, hstate.1, rfl, c.room n, ?_⟩
    rw [hanswer, h₂]
    rfl

/-! ## Answers -/

namespace Grammar.Settles

variable {g : Grammar} {t : Text} {i : ExprId} {p : Nat} {acts skips adjacent : Bool} {step : Step}

/-- Where no action refuses a match, the answer without actions ends where the one with them does. -/
theorem probe (h : g.Settles t ⟨i, p, acts, skips, adjacent⟩ (.ok step)) (haccepting : g.Accepting (g.Reaches i))
    (acts' : Bool) : ∃ step', g.Settles t ⟨i, p, acts', skips, adjacent⟩ (.ok step') ∧ step.Alike false step' := by
  obtain ⟨k, hk⟩ := h
  obtain ⟨o, ho, halike⟩ := answer?_probe (closed_reaches g i) haccepting (Reaches.self g i) acts' hk
  obtain ⟨step', rfl, hstep⟩ := halike.ok_eq
  exact ⟨step', ⟨k, ho⟩, hstep⟩

theorem eq (h : g.Settles t ⟨i, p, acts, skips, adjacent⟩ (.ok step)) {step' : Step}
    (h' : g.Settles t ⟨i, p, acts, skips, adjacent⟩ (.ok step')) : step = step' :=
  Except.ok.inj (h.unique h')

/-- An answer lies at a place at or after the position of the attempt. -/
theorem place (h : g.Settles t ⟨i, p, acts, skips, adjacent⟩ (.ok step)) (hp : t.IsBoundary p) :
    t.IsBoundary step.place ∧ p ≤ step.place := by
  obtain ⟨k, hk⟩ := h
  obtain ⟨s, hs⟩ := answerOf?_eq_ok hk
  have hrun : (Upkeep.places g).Run (plainContext g t adjacent) p _
      (attemptWithin k (plainContext g t adjacent) i p acts skips) :=
    Upkeep.attemptWithin_sound (Upkeep.places g) k rfl trivial hp
  have hend := hrun (State.initial {}) (State.Placed.initial _ _ _)
  rw [hs] at hend
  exact ⟨hend.1.site, hend.1.le⟩

end Grammar.Settles
end Packrat
