import Packrat.Proofs.Plain.Agreement

/-!
# `Packrat.Proofs.Plain.Course` — runs with and without actions take one course

Tokens and fields never decide how a match goes on, and an action that accepts changes nothing else. Where nothing is
remembered, an attempt with actions and one without, made at the same depth under the same limit, therefore meet at
every point: they match up to the same end, fail with the same message at the same position, or halt alike, the limit
of nesting included.

## Contents

* `SameCourse` — ends of runs that agree up to results;
* `Coupling.level` — two plain runs at the same depth;
* `level_agrees`, `sameCourse_of_plain` — **plain attempts with and without actions take one course**.
-/

namespace Packrat

/-! ## The same course -/

/-- Two runs of attempts end alike: with matches up to the same end, whatever their results; with the same failure; or
with the same halt. -/
inductive SameCourse : EStateM.Result Halt State Step → EStateM.Result Halt State Step → Prop
  | ended {a b : Step} (h : a.Alike false b) (s s' : State) : SameCourse (.ok a s) (.ok b s')
  | halted (h : Halt) (s s' : State) : SameCourse (.error h s) (.error h s')

/-- A run halts because attempts nest too deeply. -/
def NestsTooDeeply (x : EStateM.Result Halt State Step) : Prop :=
  ∃ h s, x = .error h s ∧ h.isTooDeep = true

namespace Coupling

/-! ## Runs at one level -/

/-- Two plain contexts on one text at the same depth under the same limit of nesting. -/
structure LevelPair (g : Grammar) (c₁ c₂ : Context) : Prop where
  alike : Context.Alike g c₁ c₂
  plain₁ : c₁.IsPlain
  plain₂ : c₂.IsPlain
  depth : c₁.depth = c₂.depth
  limit : c₁.config.recursionLimit = c₂.config.recursionLimit

theorem LevelPair.deeper {g : Grammar} {c₁ c₂ : Context} (h : LevelPair g c₁ c₂) : LevelPair g c₁.deeper c₂.deeper :=
  ⟨h.alike.deeper, h.plain₁, h.plain₂, congrArg (· + 1) h.depth, h.limit⟩

theorem LevelPair.off_congr {s₁ s₁' s₂ s₂' : State} (hs : s₁.memo = .off ∧ s₂.memo = .off)
    (h₁ : s₁'.SameTables s₁) (h₂ : s₂'.SameTables s₂) : s₁'.memo = .off ∧ s₂'.memo = .off :=
  ⟨h₁.memo.trans hs.1, h₂.memo.trans hs.2⟩

/-- Two plain runs at one level on a closed set of nodes, compared up to results. Neither is excused: they nest too
deeply at the same point. -/
@[reducible] def level (g : Grammar) (N : ExprId → Prop) (hN : g.Closed N) : Coupling g where
  World := Unit
  exact := false
  deep₁ := false
  state _ s₁ s₂ := s₁.memo = .off ∧ s₂.memo = .off
  contexts _ := LevelPair g
  nodes _ _ i := N i
  state_congr := LevelPair.off_congr
  alike := fun hc => hc.alike
  combined := fun hc => ⟨⟨hc.alike.1, hc.alike.2, hc.alike.3, rfl⟩, hc.2, hc.3, hc.4, hc.5⟩
  behind := by
    intro _ c₁ c₂ hc p
    refine ⟨(), ⟨⟨hc.alike.1, hc.alike.2, ?_, rfl⟩, hc.2, hc.3, hc.4, hc.5⟩, ?_, ?_⟩
    · exact congrArg (Text.before · p) hc.alike.text
    · rw [State.initial, hc.plain₁, Memo.ofStrategy]
    · rw [State.initial, hc.plain₂, Memo.ofStrategy]
  nodes_within := hN.within
  nodes_recovering := hN.recovering
  nodes_combined := hN.combined
  nodes_behind := hN.behind

variable {g : Grammar} {N : ExprId → Prop} (hN : g.Closed N)

theorem forgetful_level : (level g N hN).Forgetful := ⟨rfl, rfl, Iff.rfl⟩

/-- Attempts with actions and without, made at one level, agree where no action refuses a match. -/
theorem level_agrees (haccepting : g.Accepting N) (n : Nat) :
    (level g N hN).Agrees (attemptWithin n) (attemptWithin n) := by
  induction n with
  | zero => exact fun _ _ _ _ _ _ _ _ _ _ _ _ => Linked.halt .endless
  | succ n ih =>
    intro w c₁ c₂ r i p acts₁ acts₂ skips hc hi hacts
    have hdeep : LevelPair g c₁.deeper c₂.deeper := hc.deeper
    have hremember : (level g N hN).Linked w r (Step.Alike false)
        (remember (attemptWithin n) c₁.deeper i p acts₁ skips)
        (remember (attemptWithin n) c₂.deeper i p acts₂ skips) := by
      refine remember_linked (K := level g N hN) (w := w) (fun _ _ hs => hs) hdeep skips ?_
      intro skips'
      apply perform_linked_of_seedless ih hdeep hdeep.plain₁.seedless hdeep.plain₂.seedless hi hacts p skips'
      · intro _ children hk start
        exact matchLongest_forgetful (forgetful_level hN) ih hdeep
          (fun j hj => hN.child hi (by simp [hk, NodeKind.children, hj])) _ _ _
      · exact fun _ child action hk => haccepting hi hk
    unfold attemptWithin
    rw [← hc.limit, ← hc.depth]
    cases c₁.config.recursionLimit with
    | none => exact hremember
    | some limit =>
      -- both are at the limit, or neither is
      by_cases hlimit : limit ≤ c₁.depth
      · simp only [hlimit, if_true]
        exact Linked.halt _
      · simp only [hlimit, if_false]
        exact hremember

end Coupling

/-- **Plain attempts with and without actions take one course**, whatever the states they are made in. -/
theorem sameCourse_of_plain {g : Grammar} {N : ExprId → Prop} (hN : g.Closed N) (haccepting : g.Accepting N)
    {c : Context} (hg : c.grammar = g) (hc : c.IsPlain) {i : ExprId} (hi : N i) (n p : Nat) (skips : Bool)
    {s s' : State} (hs : s.memo = .off) (hs' : s'.memo = .off) :
    SameCourse (attemptWithin n c i p true skips s) (attemptWithin n c i p false skips s') := by
  have hpair : Coupling.LevelPair g c c := ⟨⟨hg, hg, rfl, rfl⟩, hc, hc, rfl, rfl⟩
  have hlinked : (Coupling.level g N hN).Linked () false (Step.Alike false) (attemptWithin n c i p true skips)
      (attemptWithin n c i p false skips) := Coupling.level_agrees hN haccepting n hpair hi (by simp)
  rcases (hlinked s s' ⟨hs, hs'⟩).cases_all with
    ⟨e, u, he, -⟩ | ⟨e, u, he, -⟩ | ⟨e, u, u', h₁, h₂, -⟩ | ⟨a, b, u, u', h₁, h₂, hab, -⟩
  · exact absurd he.1 Bool.false_ne_true
  · exact absurd he.1 Bool.false_ne_true
  · rw [h₁, h₂]
    exact .halted e u u'
  · rw [h₁, h₂]
    exact .ended hab u u'

end Packrat
