import Mathlib.Tactic
import Packrat.Matching.Attempt

/-!
# `Packrat.Proofs.Seeds.Rounds` — rounds of growth, one by one

What one round of growth does, as equations on states: which seeds it sets and removes, and how it goes on. A
proof about growth applies one equation for each round and never unfolds the loop.

## Contents

* `SeedKeys.Owns`, `SeedKeys.set` — the seeds of one forward at one position;
* `refuse_eq`, `release_eq` — how growth ends;
* `growRounds_refuse`, `growRounds_release`, `growRounds_limit`, `growRounds_grow` — one round;
* `growSeed_answered`, `growSeed_opens` — the attempt of a forward.
-/

namespace Packrat

/-! ## Sequencing -/

theorem bind_ok {α β : Type} {m : MatchM α} {f : α → MatchM β} {s s' : State} {a : α} (h : m s = .ok a s') :
    (m >>= f) s = f a s' := by
  show EStateM.bind m f s = _
  rw [EStateM.bind, h]

theorem bind_error {α β : Type} {m : MatchM α} {f : α → MatchM β} {s s' : State} {e : Halt}
    (h : m s = .error e s') : (m >>= f) s = .error e s' := by
  show EStateM.bind m f s = _
  rw [EStateM.bind, h]

/-! ## The seeds of one forward -/

namespace SeedKeys

variable (k : SeedKeys) (acts : Bool)

/-- The keys under which a forward keeps its seeds when actions are to run or not. -/
def Owns (key : SeedKey) : Prop := key = k.key false ∨ (acts = true ∧ key = k.key true)

instance (key : SeedKey) : Decidable (k.Owns acts key) := inferInstanceAs (Decidable (_ ∨ _))

/-- Seeds with one step under all keys of a forward. -/
def set (step : Step) (seeds : Seeds) : Seeds :=
  if acts then (seeds.insert (k.key false) step).insert (k.key true) step else seeds.insert (k.key false) step

/-- Seeds without those of a forward. -/
def unset (seeds : Seeds) : Seeds :=
  if acts then (seeds.erase (k.key false)).erase (k.key true) else seeds.erase (k.key false)

/-- Seeds with one step for attempts with actions, and one for those without. -/
def advance (act peek : Step) (seeds : Seeds) : Seeds := (seeds.insert (k.key true) act).insert (k.key false) peek

theorem key_injective {a b : Bool} (h : k.key a = k.key b) : a = b := congrArg SeedKey.acts h

theorem key_true_ne_key_false : k.key true ≠ k.key false := fun h => Bool.noConfusion (k.key_injective h)

theorem owns_key_self : k.Owns acts (k.key acts) := by
  cases acts with
  | false => exact Or.inl rfl
  | true => exact Or.inr ⟨rfl, rfl⟩

/-- When actions are to run, a forward keeps seeds both with and without them. -/
theorem owns_key (b : Bool) : k.Owns true (k.key b) := by
  cases b with
  | false => exact Or.inl rfl
  | true => exact Or.inr ⟨rfl, rfl⟩

variable {k acts}

/-- All keys of a forward are about it, at its position. -/
theorem Owns.eq {key : SeedKey} (h : k.Owns acts key) : key = k.key key.acts := by
  rcases h with rfl | ⟨-, rfl⟩
  · rfl
  · rfl

theorem get?_set_of_owns {key : SeedKey} (h : k.Owns acts key) (step : Step) (seeds : Seeds) :
    (k.set acts step seeds).get? key = some step := by
  unfold set
  rcases h with rfl | ⟨rfl, rfl⟩
  · cases acts with
    | false => exact Seeds.get?_insert_self _ _ _
    | true =>
      rw [if_pos rfl, Seeds.get?_insert_of_ne _ _ k.key_true_ne_key_false.symm, Seeds.get?_insert_self]
  · rw [if_pos rfl, Seeds.get?_insert_self]

theorem get?_set_of_not_owns {key : SeedKey} (h : ¬ k.Owns acts key) (step : Step) (seeds : Seeds) :
    (k.set acts step seeds).get? key = seeds.get? key := by
  have h₁ : key ≠ k.key false := fun he => h (Or.inl he)
  unfold set
  cases acts with
  | false => exact Seeds.get?_insert_of_ne _ _ h₁
  | true =>
    have h₂ : key ≠ k.key true := fun he => h (Or.inr ⟨rfl, he⟩)
    rw [if_pos rfl, Seeds.get?_insert_of_ne _ _ h₂, Seeds.get?_insert_of_ne _ _ h₁]

theorem get?_unset_of_owns {key : SeedKey} (h : k.Owns acts key) (seeds : Seeds) :
    (k.unset acts seeds).get? key = none := by
  unfold unset
  rcases h with rfl | ⟨rfl, rfl⟩
  · cases acts with
    | false => exact Seeds.get?_erase_self _ _
    | true =>
      rw [if_pos rfl, Seeds.get?_erase_of_ne _ k.key_true_ne_key_false.symm, Seeds.get?_erase_self]
  · rw [if_pos rfl, Seeds.get?_erase_self]

theorem get?_unset_of_not_owns {key : SeedKey} (h : ¬ k.Owns acts key) (seeds : Seeds) :
    (k.unset acts seeds).get? key = seeds.get? key := by
  have h₁ : key ≠ k.key false := fun he => h (Or.inl he)
  unfold unset
  cases acts with
  | false => exact Seeds.get?_erase_of_ne _ h₁
  | true =>
    have h₂ : key ≠ k.key true := fun he => h (Or.inr ⟨rfl, he⟩)
    rw [if_pos rfl, Seeds.get?_erase_of_ne _ h₂, Seeds.get?_erase_of_ne _ h₁]

@[simp] theorem get?_set_key (b : Bool) (step : Step) (seeds : Seeds) :
    (k.set true step seeds).get? (k.key b) = some step :=
  get?_set_of_owns (owns_key k b) step seeds

@[simp] theorem get?_advance_true (act peek : Step) (seeds : Seeds) :
    (k.advance act peek seeds).get? (k.key true) = some act :=
  (Seeds.get?_insert_of_ne _ _ k.key_true_ne_key_false).trans (Seeds.get?_insert_self _ _ _)

@[simp] theorem get?_advance_false (act peek : Step) (seeds : Seeds) :
    (k.advance act peek seeds).get? (k.key false) = some peek :=
  Seeds.get?_insert_self _ _ _

theorem get?_advance_of_not_owns {key : SeedKey} (h : ¬ k.Owns true key) (act peek : Step) (seeds : Seeds) :
    (k.advance act peek seeds).get? key = seeds.get? key :=
  (Seeds.get?_insert_of_ne _ _ fun he => h (Or.inl he)).trans
    (Seeds.get?_insert_of_ne _ _ fun he => h (Or.inr ⟨rfl, he⟩))

end SeedKeys

/-- A state with other seeds. -/
def State.withSeeds (s : State) (f : Seeds → Seeds) : State := { s with seeds := f s.seeds }

@[simp] theorem State.withSeeds_seeds (s : State) (f : Seeds → Seeds) : (s.withSeeds f).seeds = f s.seeds := rfl

/-- A state with one more round of growth. -/
def State.grown (s : State) : State := { s with metrics := { s.metrics with growths := s.metrics.growths + 1 } }

/-! ## How growth ends -/

section Rounds

variable {a : Attempt} {c : Context} {rule : Rule} {keys : SeedKeys} {target : ExprId} {limit fuel rounds : Nat}
  {acts : Bool} {seed : Seed} {s s' : State}

theorem putAll_eq (keys : SeedKeys) (acts : Bool) (step : Step) (s : State) :
    keys.putAll acts step s = .ok () (s.withSeeds (keys.set acts step)) := by
  cases acts <;> rfl

/-- A failure stays as the seed. -/
theorem refuse_eq (keys : SeedKeys) (acts : Bool) (d : Diagnostic) (s : State) :
    keys.refuse acts d s = .ok (.failed d) (s.withSeeds (keys.set acts (.failed d))) :=
  bind_ok (putAll_eq keys acts (.failed d) s)

/-- A seed that grows no further is removed; the answer is the one grown with actions, when these are to run. -/
theorem release_eq (keys : SeedKeys) (acts : Bool) (step : Step) (s : State) :
    keys.release acts step s = .ok (if acts then (s.seeds.get? (keys.key true)).getD step else step)
      (s.withSeeds (keys.unset acts)) := by
  cases acts with
  | false => rfl
  | true =>
    have hget : (s.seeds.erase (keys.key false)).get? (keys.key true) = s.seeds.get? (keys.key true) :=
      Seeds.get?_erase_of_ne _ keys.key_true_ne_key_false
    rw [if_pos rfl, ← hget]
    rfl

/-! ## One round -/

/-- A seed ends no further than itself. -/
theorem furtherEnd_self (x : Option Nat) : furtherEnd x x = false := by
  cases x with
  | none => rfl
  | some n => simp [furtherEnd]

/-- Nothing matches without left recursion, or no longer: the failure is the answer. -/
theorem growRounds_refuse {d d' : Diagnostic} (h : a c target keys.position false false s = .ok (.failed d) s')
    (hseed : seed.step = .failed d') :
    growRounds a c rule keys target limit acts (fuel + 1) rounds seed s = keys.refuse acts d s' := by
  rw [growRounds, bind_ok h, hseed]

/-- The round ends no further than the seed, which is the answer. -/
theorem growRounds_release {grown : Step} (h : a c target keys.position false false s = .ok grown s')
    (hmatch : grown.isMatch = true ∨ seed.step.isMatch = true)
    (hend : furtherEnd seed.stop (seed.after grown).stop = false) :
    growRounds a c rule keys target limit acts (fuel + 1) rounds seed s = keys.release acts seed.step s' := by
  rw [growRounds, bind_ok h]
  simp only [hend, Bool.not_false, if_true]
  cases grown with
  | matched stop r => rfl
  | failed d =>
    cases hstep : seed.step with
    | matched stop r => rfl
    | failed d' =>
      rw [hstep] at hmatch
      exact absurd hmatch (by simp [Step.isMatch])

/-- A halt ends the growth. -/
theorem growRounds_error {e : Halt} (h : a c target keys.position false false s = .error e s') :
    growRounds a c rule keys target limit acts (fuel + 1) rounds seed s = .error e s' := by
  rw [growRounds, bind_error h]

/-- The round ends further than the seed, but it is one too many. -/
theorem growRounds_limit {stop : Nat} {r : Results}
    (h : a c target keys.position false false s = .ok (.matched stop r) s')
    (hend : furtherEnd seed.stop (some stop) = true) (hlimit : limit < rounds + 1) :
    growRounds a c rule keys target limit acts (fuel + 1) rounds seed s
      = .error (.growthLimit rule.display keys.position limit) s' := by
  rw [growRounds, bind_ok h]
  dsimp only
  simp only [Seed.after, hend, Bool.not_true, Bool.false_eq_true, if_false, hlimit, if_true]
  rfl

/-- The round ends further than the seed: it is counted and becomes the seed, and growth goes on. -/
theorem growRounds_grow {stop : Nat} {r : Results}
    (h : a c target keys.position false false s = .ok (.matched stop r) s')
    (hend : furtherEnd seed.stop (some stop) = true) (hlimit : rounds + 1 ≤ limit) :
    growRounds a c rule keys target limit acts (fuel + 1) rounds seed s
      = (do
          match ← advanceSeed a c keys target acts (.matched stop r) with
          | some d => return .failed d
          | none => growRounds a c rule keys target limit acts fuel (rounds + 1) ⟨some stop, .matched stop r⟩ :
          MatchM Step) s'.grown := by
  have hnot : ¬ limit < rounds + 1 := by omega
  rw [growRounds, bind_ok h]
  dsimp only
  simp only [Seed.after, hend, Bool.not_true, Bool.false_eq_true, if_false, hnot]
  rfl

/-- Without actions the round becomes the seed. -/
theorem advanceSeed_false (step : Step) (s : State) :
    advanceSeed a c keys target false step s = .ok none (s.withSeeds (·.insert (keys.key false) step)) := rfl

/-- With actions the round is made once more, and both become seeds. -/
theorem advanceSeed_true {stop : Nat} {r : Results} (step : Step)
    (h : a c target keys.position true false s = .ok (.matched stop r) s') :
    advanceSeed a c keys target true step s
      = .ok none (s'.withSeeds (keys.advance (.matched stop r) step)) := by
  rw [advanceSeed]
  simp only [if_true]
  rw [bind_ok h]
  rfl

theorem advanceSeed_error {e : Halt} (step : Step) (h : a c target keys.position true false s = .error e s') :
    advanceSeed a c keys target true step s = .error e s' := by
  rw [advanceSeed]
  simp only [if_true]
  exact bind_error h

/-! ## The attempt of a forward -/

/-- A forward that is attempted again is answered by its seed. -/
theorem growSeed_answered {i : ExprId} {p : Nat} {step : Step} (h : s.seeds.get? ⟨p, i, acts⟩ = some step) :
    growSeed a c rule i target p acts s = .ok step s := by
  have hget : SeedKeys.get? ⟨p, i⟩ acts s = .ok (some step) s := by
    show EStateM.Result.ok (s.seeds.get? ⟨p, i, acts⟩) s = _
    rw [h]
  rw [growSeed, bind_ok hget]
  rfl

/-- The failure of a forward that is attempted again before anything has matched. -/
def baseless (p : Nat) : Diagnostic := ⟨p, "Forward recursion without base case"⟩

/-- The first seed of a forward fails. -/
def firstSeed (p : Nat) : Step := .failed (baseless p)

/-- A forward that is not attempted yet starts to grow. -/
theorem growSeed_opens {i : ExprId} {p : Nat} (h : s.seeds.get? ⟨p, i, acts⟩ = none) :
    growSeed a c rule i target p acts s
      = growRounds a c rule ⟨p, i⟩ target (growthBound c p) acts (c.text.size + 2) 0 ⟨none, firstSeed p⟩
          (s.withSeeds (SeedKeys.set ⟨p, i⟩ acts (firstSeed p))) := by
  have hget : SeedKeys.get? ⟨p, i⟩ acts s = .ok none s := by
    show EStateM.Result.ok (s.seeds.get? ⟨p, i, acts⟩) s = _
    rw [h]
  rw [growSeed, bind_ok hget]
  exact bind_ok (putAll_eq _ acts _ s)

end Rounds
end Packrat
