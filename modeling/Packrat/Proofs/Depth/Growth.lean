import Packrat.Proofs.Depth.Nodes
import Packrat.Proofs.Seeds.Rounds

/-!
# `Packrat.Proofs.Depth.Growth` — growing a seed in two runs

While a seed grows, more is known of the states than before: the forward has a seed. Two runs grow a seed in the
same way when the attempts of its target are the same from such states. Every round that grows ends further into
the text, so the rounds are over before their fuel is.

## Contents

* `Growth` — what is known of the states while a seed grows;
* `growRounds_same` — rounds, by their equations;
* `growSeed_same` — **forwards grow their seeds in the same way**.
-/

namespace Packrat

/-- States with `I` before and after a forward is attempted, and states with `J` while its seed grows; `Q` is what
is known of the steps of its target, which end within the text. -/
structure Growth (I J : State → Prop) (H : Halt → Prop) (Q : Step → Prop) (t : Text) (keys : SeedKeys) (acts : Bool) :
    Prop where
  start : keys.position ≤ t.size
  ends : ∀ {stop r}, Q (.matched stop r) → keys.position ≤ stop ∧ stop ≤ t.size
  first : Q (firstSeed keys.position)
  answered : ∀ {s step}, I s → s.seeds.get? (keys.key acts) = some step → Q step
  opens : ∀ {s}, I s → s.seeds.get? (keys.key acts) = none →
    J (s.withSeeds (keys.set acts (firstSeed keys.position)))
  grown : ∀ {s}, J s → J s.grown
  put : ∀ {s step b}, J s → Q step → keys.Owns acts (keys.key b) → J (s.withSeeds (·.insert (keys.key b) step))
  held : ∀ {s step b}, J s → s.seeds.get? (keys.key b) = some step → Q step
  leaves : ∀ {s}, J s → I s
  closes : ∀ {s}, J s → I (s.withSeeds (keys.unset acts))

/-- Where a run ends: with a step with `Q` or a halt with `H`, in a state with `I`. -/
def EndsIn (I : State → Prop) (H : Halt → Prop) (Q : Step → Prop) : EStateM.Result Halt State Step → Prop
  | .ok step s => Q step ∧ I s
  | .error h s => H h ∧ I s

namespace Growth

variable {I J : State → Prop} {H : Halt → Prop} {Q : Step → Prop} {t : Text} {keys : SeedKeys} {acts : Bool}
  {s : State}

theorem set (h : Growth I J H Q t keys acts) {step : Step} (hs : J s) (hstep : Q step) :
    J (s.withSeeds (keys.set acts step)) := by
  cases acts with
  | false => exact h.put hs hstep (Or.inl rfl)
  | true => exact h.put (h.put hs hstep (Or.inl rfl)) hstep (Or.inr ⟨rfl, rfl⟩)

theorem advance (h : Growth I J H Q t keys true) {act peek : Step} (hs : J s) (hact : Q act) (hpeek : Q peek) :
    J (s.withSeeds (keys.advance act peek)) :=
  h.put (h.put hs hact (Or.inr ⟨rfl, rfl⟩)) hpeek (Or.inl rfl)

/-- A failure that stays as the seed. -/
theorem refuse (h : Growth I J H Q t keys acts) {d : Diagnostic} (hs : J s) (hd : Q (.failed d)) :
    EndsIn I H Q (keys.refuse acts d s) := by
  rw [refuse_eq]
  exact ⟨hd, h.leaves (h.set hs hd)⟩

/-- A seed that grows no further. -/
theorem release (h : Growth I J H Q t keys acts) {step : Step} (hs : J s) (hstep : Q step) :
    EndsIn I H Q (keys.release acts step s) := by
  rw [release_eq]
  refine ⟨?_, h.closes hs⟩
  cases acts with
  | false => exact hstep
  | true =>
    rw [if_pos rfl]
    cases hget : s.seeds.get? (keys.key true) with
    | none => exact hstep
    | some step' => exact h.held hs hget

end Growth

/-- How far a seed has got: past its end, if it matches. -/
def Seed.far (seed : Seed) (p : Nat) : Nat :=
  match seed.stop with
  | some stop => stop + 1
  | none => p

/-- What ends further than a seed makes one that is further. -/
theorem Seed.far_lt {seed : Seed} {p stop : Nat} {r : Results} (h : furtherEnd seed.stop (some stop) = true)
    (hp : p ≤ stop) : seed.far p < (seed.after (.matched stop r)).far p := by
  unfold Seed.far Seed.after
  cases hstop : seed.stop with
  | none =>
    dsimp only
    omega
  | some old =>
    rw [hstop] at h
    have hlt : old < stop := of_decide_eq_true h
    dsimp only
    omega

section Rounds

variable {I J : State → Prop} {H : Halt → Prop} {Q : Step → Prop} {a₁ a₂ : Attempt} {c₁ c₂ : Context} {rule : Rule}
  {keys : SeedKeys} {target : ExprId} {acts : Bool}
  (h : Growth I J H Q c₁.text keys acts)
  (ha : ∀ b, (b = true → acts = true) →
    Concur J H Q (a₁ c₁ target keys.position b false) (a₂ c₂ target keys.position b false))
include h ha

/-- A round that grows is followed by the next in both runs, or by a failure of the round made with actions. -/
theorem advanceSeed_same {stop limit fuel rounds : Nat} {r : Results} {s : State} (hs : J s)
    (hstep : Q (.matched stop r))
    (ih : ∀ {s : State}, J s →
      growRounds a₁ c₁ rule keys target limit acts fuel rounds ⟨some stop, .matched stop r⟩ s
          = growRounds a₂ c₂ rule keys target limit acts fuel rounds ⟨some stop, .matched stop r⟩ s ∧
        EndsIn I H Q (growRounds a₁ c₁ rule keys target limit acts fuel rounds ⟨some stop, .matched stop r⟩ s)) :
    let next (a : Attempt) (c : Context) : MatchM Step := do
      match ← advanceSeed a c keys target acts (.matched stop r) with
      | some d => return .failed d
      | none => growRounds a c rule keys target limit acts fuel rounds ⟨some stop, .matched stop r⟩
    next a₁ c₁ s = next a₂ c₂ s ∧ EndsIn I H Q (next a₁ c₁ s) := by
  intro next
  cases acts with
  | false =>
    have hput : J (s.withSeeds (·.insert (keys.key false) (.matched stop r))) := h.put hs hstep (Or.inl rfl)
    show (advanceSeed a₁ c₁ keys target false (.matched stop r) >>= _) s
        = (advanceSeed a₂ c₂ keys target false (.matched stop r) >>= _) s
      ∧ EndsIn I H Q ((advanceSeed a₁ c₁ keys target false (.matched stop r) >>= _) s)
    rw [bind_ok (advanceSeed_false _ s), bind_ok (advanceSeed_false _ s)]
    exact ih hput
  | true =>
    have hround := (ha true id).keeps s hs
    have heq := (ha true id).eq s hs
    show (advanceSeed a₁ c₁ keys target true (.matched stop r) >>= _) s
        = (advanceSeed a₂ c₂ keys target true (.matched stop r) >>= _) s
      ∧ EndsIn I H Q ((advanceSeed a₁ c₁ keys target true (.matched stop r) >>= _) s)
    cases hr : a₁ c₁ target keys.position true false s with
    | error e s' =>
      rw [hr] at hround heq
      rw [bind_error (advanceSeed_error _ hr), bind_error (advanceSeed_error _ heq.symm)]
      exact ⟨rfl, hround.1, h.leaves hround.2⟩
    | ok step s' =>
      rw [hr] at hround heq
      cases step with
      | failed d =>
        have hrefused (a : Attempt) (c : Context) (hfail : a c target keys.position true false s = .ok (.failed d) s') :
            advanceSeed a c keys target true (.matched stop r) s
              = .ok (some d) (s'.withSeeds (keys.set true (.failed d))) := by
          rw [advanceSeed]
          simp only [if_true]
          rw [bind_ok hfail]
          exact bind_ok (putAll_eq keys true (.failed d) s')
        rw [bind_ok (hrefused a₁ c₁ hr), bind_ok (hrefused a₂ c₂ heq.symm)]
        exact ⟨rfl, hround.1, h.leaves (h.set hround.2 hround.1)⟩
      | matched stop' r' =>
        rw [bind_ok (advanceSeed_true _ hr), bind_ok (advanceSeed_true _ heq.symm)]
        exact ih (h.advance hround.2 hround.1 hstep)

/-- Rounds are the same in both runs, and end before their fuel does. They are not too many when the limit covers
those that fit into the rest of the text. -/
theorem growRounds_same (limit : Nat) {fuel rounds : Nat} {seed : Seed} (hseed : Q seed.step)
    (hstop : ∀ stop ∈ seed.stop, stop ≤ c₁.text.size) (hfuel : c₁.text.size + 1 < fuel + seed.far keys.position)
    (hlimit : (∀ name, H (.growthLimit name keys.position limit)) ∨
      c₁.text.size + 1 + rounds ≤ limit + seed.far keys.position)
    {s : State} (hs : J s) :
    growRounds a₁ c₁ rule keys target limit acts fuel rounds seed s
        = growRounds a₂ c₂ rule keys target limit acts fuel rounds seed s ∧
      EndsIn I H Q (growRounds a₁ c₁ rule keys target limit acts fuel rounds seed s) := by
  induction fuel generalizing rounds seed s with
  | zero =>
    -- the seed would be past the end of the text
    have hstart := h.start
    unfold Seed.far at hfuel
    cases hst : seed.stop with
    | none => rw [hst] at hfuel; simp only at hfuel; omega
    | some stop =>
      have := hstop stop hst
      rw [hst] at hfuel
      simp only at hfuel
      omega
  | succ fuel ih =>
    have hround := (ha false (by simp)).keeps s hs
    have heq := (ha false (by simp)).eq s hs
    cases hr : a₁ c₁ target keys.position false false s with
    | error e s' =>
      rw [hr] at hround heq
      rw [growRounds_error hr, growRounds_error heq.symm]
      exact ⟨rfl, hround.1, h.leaves hround.2⟩
    | ok grown s' =>
      rw [hr] at hround heq
      obtain ⟨hgrown, hs'⟩ := hround
      have hrelease (hmatch : grown.isMatch = true ∨ seed.step.isMatch = true)
          (hend : furtherEnd seed.stop (seed.after grown).stop = false) :
          growRounds a₁ c₁ rule keys target limit acts (fuel + 1) rounds seed s
              = growRounds a₂ c₂ rule keys target limit acts (fuel + 1) rounds seed s ∧
            EndsIn I H Q (growRounds a₁ c₁ rule keys target limit acts (fuel + 1) rounds seed s) := by
        rw [growRounds_release hr hmatch hend, growRounds_release heq.symm hmatch hend]
        exact ⟨rfl, h.release hs' hseed⟩
      cases grown with
      | failed d =>
        cases hstep : seed.step with
        | failed d' =>
          rw [growRounds_refuse hr hstep, growRounds_refuse heq.symm hstep]
          exact ⟨rfl, h.refuse hs' hgrown⟩
        | matched stop r => exact hrelease (Or.inr (by rw [hstep]; rfl)) (furtherEnd_self _)
      | matched stop r =>
        cases hend : furtherEnd seed.stop (some stop) with
        | false => exact hrelease (Or.inl rfl) hend
        | true =>
          obtain ⟨hle, hsize⟩ := h.ends hgrown
          have hfar := Seed.far_lt (r := r) hend hle
          simp only [Seed.after] at hfar
          by_cases hover : limit < rounds + 1
          · -- a round too many would end past the end of the text
            have hhalt : ∀ name, H (.growthLimit name keys.position limit) := by
              refine hlimit.resolve_right fun hcovers => ?_
              simp only [Seed.far] at hfar hcovers
              omega
            rw [growRounds_limit hr hend hover, growRounds_limit heq.symm hend hover]
            exact ⟨rfl, hhalt _, h.leaves hs'⟩
          · rw [growRounds_grow hr hend (by omega), growRounds_grow heq.symm hend (by omega)]
            refine advanceSeed_same h ha (h.grown hs') hgrown fun hs'' => ih hgrown ?_ (by omega) ?_ hs''
            · intro stop' hstop'
              obtain rfl := Option.some.inj hstop'
              exact hsize
            · exact hlimit.imp_right fun hcovers => by omega

/-- **Forwards grow their seeds in the same way**, when the attempts of the target are the same while the seed
grows. Without a limit of its own the text is the limit, and rounds are never too many. -/
theorem growSeed_same (ht : c₂.text = c₁.text) (hg : c₂.config.growthLimit = c₁.config.growthLimit)
    (hlimit : (∀ name limit, H (.growthLimit name keys.position limit)) ∨ c₁.config.growthLimit = none) :
    Concur I H Q (growSeed a₁ c₁ rule keys.forward target keys.position acts)
      (growSeed a₂ c₂ rule keys.forward target keys.position acts) := by
  have hboth (s : State) (hs : I s) :
      growSeed a₁ c₁ rule keys.forward target keys.position acts s
          = growSeed a₂ c₂ rule keys.forward target keys.position acts s ∧
        EndsIn I H Q (growSeed a₁ c₁ rule keys.forward target keys.position acts s) := by
    cases hget : s.seeds.get? ⟨keys.position, keys.forward, acts⟩ with
    | some step =>
      rw [growSeed_answered hget, growSeed_answered hget]
      exact ⟨rfl, h.answered hs hget, hs⟩
    | none =>
      have hbound : growthBound c₂ keys.position = growthBound c₁ keys.position := by
        rw [growthBound, growthBound, hg, ht]
      rw [growSeed_opens hget, growSeed_opens hget, hbound, ht]
      refine growRounds_same h ha _ h.first (by simp) (by simp [Seed.far]; omega) ?_ (h.opens hs hget)
      refine hlimit.imp (fun hhalt name => hhalt name _) fun hnone => ?_
      have hstart := h.start
      simp only [growthBound, hnone, Option.getD_none, Seed.far]
      omega
  refine ⟨fun s hs => ?_, fun s hs => (hboth s hs).1⟩
  have hend := (hboth s hs).2
  cases hr : growSeed a₁ c₁ rule keys.forward target keys.position acts s with
  | ok step s' =>
    rw [hr] at hend
    exact hend
  | error e s' =>
    rw [hr] at hend
    exact hend

end Rounds
end Packrat
