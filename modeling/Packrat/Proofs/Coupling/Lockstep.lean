import Packrat.Proofs.Coupling.Runs
import Packrat.Proofs.Memory.Table
import Packrat.Proofs.Seeds.Rounds

/-!
# `Packrat.Proofs.Coupling.Lockstep` — runs from states that nobody can tell apart

What an attempt does depends on the tables of the state alone, and on those only as far as they are used: on the
remembered outcomes and what the table keeps of them, and on seeds where forwards grow them. Two runs of the same
attempt, from states that agree there, make the same attempts one after the other. They come to the same results, fail
alike and halt alike, too deep nesting included.

## Contents

* `Memo.Alike`, `State.Alike` — tables and states that cannot be told apart;
* `Coupling.lockstep` — two runs from such states;
* `growSeed_lockstep` — the attempt of a forward, by its seeds;
* `lockstep_agrees` — **attempts go in lockstep**.
-/

namespace Packrat

/-! ## States that cannot be told apart -/

/-- Tables that hold the same and give up the same at each use. How often they have been used may differ. -/
inductive Memo.Alike : Memo → Memo → Prop
  | off : Alike .off .off
  | all (entries : Std.HashMap MemoKey Step) : Alike (.all entries) (.all entries)
  | latest (capacity uses uses' : Nat) (entries : List (MemoKey × Step)) :
    Alike (.limited (.latest capacity) uses entries) (.limited (.latest capacity) uses' entries)

namespace Memo

variable {m m' : Memo}

theorem Alike.isOn_eq (h : m.Alike m') : m.isOn = m'.isOn := by cases h <;> rfl

theorem Alike.find? (h : m.Alike m') (key : MemoKey) :
    (m.find? key).1 = (m'.find? key).1 ∧ (m.find? key).2.Alike (m'.find? key).2 := by
  cases h with
  | off => exact ⟨rfl, .off⟩
  | all entries => exact ⟨rfl, .all entries⟩
  | latest capacity uses uses' entries =>
    simp only [Memo.find?]
    cases entries.lookup key with
    | none => exact ⟨rfl, .latest capacity uses uses' entries⟩
    | some step => exact ⟨rfl, .latest capacity (uses + 1) (uses' + 1) _⟩

theorem Alike.insert (h : m.Alike m') (key : MemoKey) (step : Step) :
    (m.insert key step).Alike (m'.insert key step) := by
  cases h with
  | off => exact .off
  | all entries => exact .all _
  | latest capacity uses uses' entries => exact .latest capacity (uses + 1) (uses' + 1) _

theorem alike_ofStrategy (strategy : Memoization) : (ofStrategy strategy).Alike (ofStrategy strategy) := by
  rcases strategy with _ | ((_ | _ | n)) | _
  · exact .off
  · exact .all ∅
  · exact .off
  · exact .latest (n + 1) 0 0 []
  · exact .off

end Memo

/-- States that no attempt under a strategy can tell apart. -/
structure State.Alike (strategy : Memoization) (s s' : State) : Prop where
  memo : s.memo.Alike s'.memo
  seeds : strategy = .leftRecursion → s.seeds = s'.seeds

namespace State.Alike

variable {strategy : Memoization} {s s' u u' : State}

theorem congr (h : s.Alike strategy s') (hu : u.SameTables s) (hu' : u'.SameTables s') : u.Alike strategy u' := by
  constructor
  · rw [hu.memo, hu'.memo]
    exact h.memo
  · intro hseeds
    rw [hu.seeds, hu'.seeds]
    exact h.seeds hseeds

theorem initial (config config' : Config) (hconfig : config.memoization = config'.memoization) :
    (State.initial config).Alike strategy (State.initial config') := by
  refine ⟨?_, fun _ => rfl⟩
  rw [State.initial, State.initial, hconfig]
  exact Memo.alike_ofStrategy _

theorem consulted (h : s.Alike strategy s') (key : MemoKey) :
    (s.counted.consulted key).Alike strategy (s'.counted.consulted key) :=
  ⟨(h.memo.find? key).2, h.seeds⟩

theorem withSeeds (h : s.Alike strategy s') (f : Seeds → Seeds) :
    (s.withSeeds f).Alike strategy (s'.withSeeds f) :=
  ⟨h.memo, fun hseeds => congrArg f (h.seeds hseeds)⟩

end State.Alike

/-! ## Two runs -/

namespace Coupling

/-- Two contexts of one attempt: under one strategy and one limit, and equally deep. -/
structure LockstepPair (g : Grammar) (strategy : Memoization) (c₁ c₂ : Context) : Prop where
  alike : Context.Alike g c₁ c₂
  strategy₁ : c₁.config.memoization = strategy
  strategy₂ : c₂.config.memoization = strategy
  limit : c₁.config.recursionLimit = c₂.config.recursionLimit
  growthLimit : c₁.config.growthLimit = c₂.config.growthLimit
  depth : c₁.depth = c₂.depth

theorem LockstepPair.refl (c : Context) : LockstepPair c.grammar c.config.memoization c c :=
  ⟨⟨rfl, rfl, rfl, rfl⟩, rfl, rfl, rfl, rfl, rfl⟩

theorem LockstepPair.deeper {g : Grammar} {strategy : Memoization} {c₁ c₂ : Context}
    (h : LockstepPair g strategy c₁ c₂) : LockstepPair g strategy c₁.deeper c₂.deeper :=
  ⟨h.alike.deeper, h.strategy₁, h.strategy₂, h.limit, h.growthLimit, congrArg (· + 1) h.depth⟩

/-- Two runs of one attempt, from states that cannot be told apart. Neither is excused. -/
@[reducible] def lockstep (g : Grammar) (strategy : Memoization) : Coupling g where
  World := Unit
  exact := true
  deep₁ := false
  state _ := State.Alike strategy
  contexts _ := LockstepPair g strategy
  state_congr := State.Alike.congr
  alike := fun hc => hc.alike
  combined := fun hc => ⟨⟨hc.alike.1, hc.alike.2, hc.alike.3, rfl⟩, hc.2, hc.3, hc.4, hc.5, hc.6⟩
  behind := by
    intro _ c₁ c₂ hc p
    refine ⟨(), ⟨⟨hc.alike.1, hc.alike.2, ?_, rfl⟩, hc.2, hc.3, hc.4, hc.5, hc.6⟩, ?_⟩
    · exact congrArg (Text.before · p) hc.alike.text
    · exact State.Alike.initial _ _ (hc.strategy₁.trans hc.strategy₂.symm)

section Attempts

variable {g : Grammar} {strategy : Memoization} {r : Bool} {a₁ a₂ : Attempt} {c₁ c₂ : Context}

/-- Runs in lockstep both halt alike, or both give related values. -/
theorem Agree.inStep {α β : Type} {V : α → β → Prop} {x : EStateM.Result Halt State α}
    {y : EStateM.Result Halt State β} (h : (lockstep g strategy).Agree () r V x y) :
    (∃ e s s', x = .error e s ∧ y = .error e s' ∧ (r = true → e.isCommitted = true → s.Alike strategy s')) ∨
      ∃ a b s s', x = .ok a s ∧ y = .ok b s' ∧ V a b ∧ s.Alike strategy s' := by
  rcases h.cases_all with ⟨e, s, he, -⟩ | ⟨e, s, he, -⟩ | h
  · exact absurd he.1 Bool.false_ne_true
  · exact absurd he.1 Bool.false_ne_true
  · exact h

/-! ## Forwards -/

section Growth

variable (ha : (lockstep g strategy).Agrees a₁ a₂) (hc : LockstepPair g strategy c₁ c₂)
  (hstrategy : strategy = .leftRecursion) (keys : SeedKeys) (target : ExprId) (acts : Bool)

theorem putAll_lockstep (step : Step) :
    (lockstep g strategy).Linked () r Eq (keys.putAll acts step) (keys.putAll acts step) := by
  intro s₁ s₂ hs
  rw [putAll_eq, putAll_eq]
  exact ⟨rfl, hs.withSeeds _⟩

theorem put_lockstep (step : Step) :
    (lockstep g strategy).Linked () r Eq (keys.put acts step) (keys.put acts step) :=
  fun _ _ hs => ⟨rfl, hs.withSeeds (·.insert (keys.key acts) step)⟩

include hstrategy in
/-- A seed that grows no further is the answer in both runs. -/
theorem release_lockstep (step : Step) :
    (lockstep g strategy).Linked () r (Step.Alike true) (keys.release acts step) (keys.release acts step) := by
  intro s₁ s₂ hs
  rw [release_eq, release_eq, hs.seeds hstrategy]
  exact ⟨Step.Alike.refl _ _, hs.withSeeds _⟩

include ha hc

theorem advanceSeed_lockstep (step : Step) :
    (lockstep g strategy).Linked () r Eq (advanceSeed a₁ c₁ keys target acts step)
      (advanceSeed a₂ c₂ keys target acts step) := by
  have hpeek : (lockstep g strategy).Linked () r Eq (do keys.put false step; return none : MatchM (Option Diagnostic))
      (do keys.put false step; return none) :=
    (put_lockstep keys false step).bind fun _ _ _ => Linked.pure rfl
  unfold advanceSeed
  cases acts with
  | false => exact hpeek
  | true =>
    refine Linked.step (ha hc trivial fun _ => rfl) ?_ ?_
    · intro stop r₁ r₂ hr
      obtain rfl := hr rfl
      exact (put_lockstep keys true _).bind fun _ _ _ => hpeek
    · intro d
      exact (putAll_lockstep keys true _).bind fun _ _ _ => Linked.pure rfl

include hstrategy

theorem growRounds_lockstep (rule : Rule) (limit fuel rounds : Nat) (seed : Seed) :
    (lockstep g strategy).Linked () r (Step.Alike true)
      (growRounds a₁ c₁ rule keys target limit acts fuel rounds seed)
      (growRounds a₂ c₂ rule keys target limit acts fuel rounds seed) := by
  induction fuel generalizing rounds seed with
  | zero => exact Linked.halt _
  | succ fuel ih =>
    intro s₁ s₂ hs
    have hround : (lockstep g strategy).Linked () r (Step.Alike true) (a₁ c₁ target keys.position false false)
        (a₂ c₂ target keys.position false false) := ha hc trivial fun _ => rfl
    rcases (hround s₁ s₂ hs).inStep with ⟨e, u₁, u₂, h₁, h₂, hstate⟩ | ⟨grown, grown', u₁, u₂, h₁, h₂, halike, hu⟩
    · rw [growRounds_error h₁, growRounds_error h₂]
      exact Or.inr (Or.inr ⟨rfl, hstate⟩)
    · obtain rfl : grown = grown' := Step.alike_true halike
      have hrelease (hmatch : grown.isMatch = true ∨ seed.step.isMatch = true)
          (hend : furtherEnd seed.stop (seed.after grown).stop = false) :
          (lockstep g strategy).Agree () r (Step.Alike true)
            (growRounds a₁ c₁ rule keys target limit acts (fuel + 1) rounds seed s₁)
            (growRounds a₂ c₂ rule keys target limit acts (fuel + 1) rounds seed s₂) := by
        rw [growRounds_release h₁ hmatch hend, growRounds_release h₂ hmatch hend]
        exact release_lockstep hstrategy keys acts seed.step u₁ u₂ hu
      cases grown with
      | failed d =>
        cases hseed : seed.step with
        | matched stop res => exact hrelease (Or.inr (by rw [hseed]; rfl)) (furtherEnd_self _)
        | failed d' =>
          rw [growRounds_refuse h₁ hseed, growRounds_refuse h₂ hseed, refuse_eq, refuse_eq]
          exact ⟨rfl, hu.withSeeds _⟩
      | matched stop res =>
        cases hend : furtherEnd seed.stop (some stop) with
        | false => exact hrelease (Or.inl rfl) hend
        | true =>
          by_cases hlimit : limit < rounds + 1
          · rw [growRounds_limit h₁ hend hlimit, growRounds_limit h₂ hend hlimit]
            exact Or.inr (Or.inr ⟨rfl, fun _ _ => hu⟩)
          · rw [growRounds_grow h₁ hend (by omega), growRounds_grow h₂ hend (by omega)]
            refine (advanceSeed_lockstep ha hc keys target acts (.matched stop res)).bind ?_ _ _ ⟨hu.memo, hu.seeds⟩
            -- the round with actions fails in both runs, or the next round follows in both
            rintro (_ | d) _ rfl
            · exact ih (rounds + 1) _
            · exact Linked.pure rfl

/-- **Seeds grow in lockstep**, where they are the same to begin with. -/
theorem growSeed_lockstep (rule : Rule) (i : ExprId) (p : Nat) :
    (lockstep g strategy).Linked () r (Step.Alike true) (growSeed a₁ c₁ rule i target p acts)
      (growSeed a₂ c₂ rule i target p acts) := by
  intro s₁ s₂ hs
  have hseeds : s₁.seeds = s₂.seeds := hs.seeds hstrategy
  cases hget : s₁.seeds.get? ⟨p, i, acts⟩ with
  | some step =>
    rw [growSeed_answered hget, growSeed_answered (hseeds ▸ hget)]
    exact ⟨Step.Alike.refl _ _, hs⟩
  | none =>
    have hbound : growthBound c₁ p = growthBound c₂ p := by
      rw [growthBound, growthBound, hc.growthLimit, hc.alike.text]
    rw [growSeed_opens hget, growSeed_opens (hseeds ▸ hget), hbound, hc.alike.text]
    exact growRounds_lockstep ha hc hstrategy ⟨p, i⟩ target acts rule _ _ _ _ _ _ (hs.withSeeds _)

end Growth

/-! ## Attempts -/

/-- A match of a node goes in lockstep. -/
theorem matchNode_lockstep (ha : (lockstep g strategy).Agrees a₁ a₂) (hc : LockstepPair g strategy c₁ c₂) (i : ExprId)
    (start : Nat) (acts : Bool) :
    (lockstep g strategy).Linked () r (Step.Alike true) (matchNode a₁ c₁ i (g.rule i) start acts)
      (matchNode a₂ c₂ i (g.rule i) start acts) := by
  apply matchNode_linked (K := lockstep g strategy) (w := ()) ha hc trivial (fun _ => rfl) start
  · intro label target hk
    by_cases hstrategy : strategy = .leftRecursion
    · simp only [matchNode, hk, if_pos (hc.strategy₁.trans hstrategy), if_pos (hc.strategy₂.trans hstrategy)]
      exact growSeed_lockstep ha hc hstrategy target acts _ i start
    · rw [matchNode_forward (hc.strategy₁.symm ▸ hstrategy) hk, matchNode_forward (hc.strategy₂.symm ▸ hstrategy) hk]
      exact ha hc trivial fun _ => rfl
  · exact fun he => absurd he.symm Bool.false_ne_true
  · exact fun he => absurd he.symm Bool.false_ne_true

/-- An attempt that is performed goes in lockstep. -/
theorem perform_lockstep (ha : (lockstep g strategy).Agrees a₁ a₂) (hc : LockstepPair g strategy c₁ c₂) (i : ExprId)
    (p : Nat) (acts skips : Bool) :
    (lockstep g strategy).Linked () r (Step.Alike true) (perform a₁ c₁ i p acts skips)
      (perform a₂ c₂ i p acts skips) :=
  perform_linked (K := lockstep g strategy) (w := ()) ha hc trivial p skips fun start =>
    matchNode_lockstep ha hc i start acts

theorem Agree.addOutcome (key : MemoKey) {x y : EStateM.Result Halt State Step}
    (h : (lockstep g strategy).Agree () r (Step.Alike true) x y) :
    (lockstep g strategy).Agree () r (Step.Alike true) (addOutcome key x) (addOutcome key y) := by
  rcases h.inStep with ⟨e, u₁, u₂, rfl, rfl, hstate⟩ | ⟨step, step', u₁, u₂, rfl, rfl, halike, hu⟩
  · exact Or.inr (Or.inr ⟨rfl, hstate⟩)
  · obtain rfl := Step.alike_true halike
    exact ⟨Step.Alike.refl _ _, hu.memo.insert key step, hu.seeds⟩

/-- An attempt is answered from memory in both runs or in neither. -/
theorem remember_lockstep (ha : (lockstep g strategy).Agrees a₁ a₂) (hc : LockstepPair g strategy c₁ c₂) (i : ExprId)
    (p : Nat) (acts skips : Bool) :
    (lockstep g strategy).Linked () r (Step.Alike true) (remember a₁ c₁ i p acts skips)
      (remember a₂ c₂ i p acts skips) := by
  intro s₁ s₂ hs
  cases hon : s₁.memo.isOn with
  | false =>
    have hoff : s₂.memo.isOn = false := hs.memo.isOn_eq ▸ hon
    rw [remember_off (Memo.eq_off hon), remember_off (Memo.eq_off hoff), ← hc.alike.adjacent]
    exact perform_lockstep ha hc i p acts _ _ _ (hs.congr s₁.counted_sameTables s₂.counted_sameTables)
  | true =>
    have hon' : s₂.memo.isOn = true := hs.memo.isOn_eq ▸ hon
    have hkey : c₂.key i p acts (skips && !c₂.adjacent) = c₁.key i p acts (skips && !c₁.adjacent) := by
      rw [Context.key, Context.key, hc.alike.adjacent]
    rw [remember_of_isOn hon, remember_of_isOn hon', hkey]
    have hconsulted := hs.consulted (c₁.key i p acts (skips && !c₁.adjacent))
    rw [← (hs.memo.find? (c₁.key i p acts (skips && !c₁.adjacent))).1, ← hc.alike.adjacent]
    cases (s₁.memo.find? (c₁.key i p acts (skips && !c₁.adjacent))).1 with
    | some step => exact ⟨Step.Alike.refl _ _, hconsulted⟩
    | none => exact (perform_lockstep ha hc i p acts _ _ _ hconsulted).addOutcome _

end Attempts

/-- **Attempts go in lockstep** from states that cannot be told apart. -/
theorem lockstep_agrees (g : Grammar) (strategy : Memoization) (n : Nat) :
    (lockstep g strategy).Agrees (attemptWithin n) (attemptWithin n) := by
  induction n with
  | zero => exact fun _ _ _ _ _ _ _ _ _ _ _ _ => Linked.halt .endless
  | succ n ih =>
    intro w c₁ c₂ r i p acts₁ acts₂ skips hc hi hacts
    obtain rfl : acts₁ = acts₂ := hacts rfl
    have hremember := remember_lockstep (r := r) ih hc.deeper i p acts₁ skips
    unfold attemptWithin
    rw [← hc.limit, ← hc.depth]
    cases c₁.config.recursionLimit with
    | none => exact hremember
    | some limit =>
      by_cases hlimit : limit ≤ c₁.depth
      · simp only [hlimit, if_true]
        exact Linked.halt _
      · simp only [hlimit, if_false]
        exact hremember

end Coupling
end Packrat
