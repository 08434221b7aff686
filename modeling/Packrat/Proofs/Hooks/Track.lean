import Mathlib.Tactic
import Packrat.Proofs.Hooks.Basic

/-!
# `Packrat.Proofs.Hooks.Track` — runs with hooks track the run without them

A second run *tracks* a first one when it is the same, except that the first may end in an escape: a halt that
nothing recovers from. If the first run escapes, nothing is asked of the second. Every way of matching tracks
itself as long as its attempts do, so what the hooks do only has to be looked at where they are used.

## Contents

* `Escape`, `Tracks` — how two runs are compared, and how this composes;
* `AttemptsTrack` — attempts that track each other, with actions or without;
* `skipLeading_tracks`, `matchSequence_tracks`, … — one lemma for each way of matching;
* `Hooks.Harmless` — what hooks may do;
* `attemptWithin_tracks`, `matchRoot_tracks`, `attemptAt_tracks` — **runs with harmless hooks track**.
-/

namespace Packrat

/-! ## Computations that track each other -/

/-- The ways in which a run may end before the other one: a halt, and the journal at that point. Nothing recovers
from it. -/
structure Escape where
  ends : Halt → List Event → Prop
  uncaught : ∀ {d journal}, ¬ ends (.committed d) journal

/-- No way to end before the other run. -/
def Escape.none : Escape := ⟨fun _ _ => False, id⟩

/-- From every state the second computation does what the first does, or the first escapes. -/
def Tracks {α : Type} (E : Escape) (m₁ m₂ : MatchM α) : Prop :=
  ∀ s, m₁ s = m₂ s ∨ ∃ h s', m₁ s = .error h s' ∧ E.ends h s'.journal

namespace Tracks

variable {E : Escape} {α β : Type} {m₁ m₂ : MatchM α}

theorem refl (m : MatchM α) : Tracks E m m := fun _ => Or.inl rfl

/-- Without an escape the computations are the same. -/
theorem eq (h : Tracks .none m₁ m₂) : m₁ = m₂ := by
  funext s
  rcases h s with heq | ⟨_, _, _, hescape⟩
  · exact heq
  · exact absurd hescape id

theorem bind {f₁ f₂ : α → MatchM β} (hm : Tracks E m₁ m₂) (hf : ∀ a, Tracks E (f₁ a) (f₂ a)) :
    Tracks E (m₁ >>= f₁) (m₂ >>= f₂) := by
  intro s
  show EStateM.bind m₁ f₁ s = EStateM.bind m₂ f₂ s ∨ ∃ h s', EStateM.bind m₁ f₁ s = .error h s' ∧ E.ends h s'.journal
  unfold EStateM.bind
  rcases hm s with heq | ⟨h, s', herror, hescape⟩
  · rw [← heq]
    cases m₁ s with
    | ok a s' => exact hf a s'
    | error h s' => exact Or.inl rfl
  · rw [herror]
    exact Or.inr ⟨h, s', rfl, hescape⟩

/-- What follows one computation in both runs. -/
theorem andThen (m : MatchM α) {f₁ f₂ : α → MatchM β} (hf : ∀ a, Tracks E (f₁ a) (f₂ a)) :
    Tracks E (m >>= f₁) (m >>= f₂) :=
  (refl m).bind hf

theorem ite {p : Prop} [Decidable p] {m₁ m₂ m₁' m₂' : MatchM α} (h : p → Tracks E m₁ m₂)
    (h' : ¬ p → Tracks E m₁' m₂') : Tracks E (if p then m₁ else m₁') (if p then m₂ else m₂') := by
  by_cases hp : p
  · rw [if_pos hp, if_pos hp]
    exact h hp
  · rw [if_neg hp, if_neg hp]
    exact h' hp

/-- What follows an attempt, after a match and after a failure. -/
theorem step {m₁ m₂ : MatchM Step} {f₁ f₂ : Step → MatchM β} (hm : Tracks E m₁ m₂)
    (hmatched : ∀ stop r, Tracks E (f₁ (.matched stop r)) (f₂ (.matched stop r)))
    (hfailed : ∀ d, Tracks E (f₁ (.failed d)) (f₂ (.failed d))) : Tracks E (m₁ >>= f₁) (m₂ >>= f₂) := by
  apply hm.bind
  rintro (⟨stop, r⟩ | d)
  · exact hmatched stop r
  · exact hfailed d

/-- What follows a search, when nothing is found and when something is. -/
theorem option {γ : Type} {m₁ m₂ : MatchM (Option γ)} {f₁ f₂ : Option γ → MatchM β} (hm : Tracks E m₁ m₂)
    (hnone : Tracks E (f₁ none) (f₂ none)) (hsome : ∀ x, Tracks E (f₁ (some x)) (f₂ (some x))) :
    Tracks E (m₁ >>= f₁) (m₂ >>= f₂) := by
  apply hm.bind
  rintro (_ | x)
  · exact hnone
  · exact hsome x

/-- Nothing recovers from an escape. -/
theorem recover {m₁ m₂ : MatchM Step} (hm : Tracks E m₁ m₂) :
    Tracks E (MatchM.recover m₁) (MatchM.recover m₂) := by
  intro s
  unfold MatchM.recover
  rcases hm s with heq | ⟨h, s', herror, hescape⟩
  · rw [heq]
    exact Or.inl rfl
  · rw [herror]
    right
    cases h with
    | committed d => exact absurd hescape E.uncaught
    | _ => exact ⟨_, s', rfl, hescape⟩

/-- An escape of a run on a state of its own is one of the parse: the journal is the same. -/
theorem aside (config : Config) (hm : Tracks E m₁ m₂) :
    Tracks E (Packrat.aside config m₁) (Packrat.aside config m₂) := by
  intro s
  unfold Packrat.aside
  rcases hm { State.initial config with journal := s.journal } with heq | ⟨h, s', herror, hescape⟩
  · rw [heq]
    exact Or.inl rfl
  · rw [herror]
    exact Or.inr ⟨h, _, rfl, hescape⟩

end Tracks

/-- Attempts track each other, without actions and, if `acts`, also with them. -/
def AttemptsTrack (E : Escape) (acts : Bool) (a₁ a₂ : Attempt) : Prop :=
  ∀ c i p b skips, (b = true → acts = true) → Tracks E (a₁ c i p b skips) (a₂ c i p b skips)

namespace AttemptsTrack

variable {E : Escape} {acts acts' : Bool} {a₁ a₂ : Attempt}

theorem refl (a : Attempt) : AttemptsTrack E acts a a := fun _ _ _ _ _ _ => Tracks.refl _

theorem mono (ha : AttemptsTrack E acts a₁ a₂) (h : acts' = true → acts = true) : AttemptsTrack E acts' a₁ a₂ :=
  fun c i p b skips hb => ha c i p b skips fun hb' => h (hb hb')

/-- An attempt with the same flag for actions. -/
theorem attempt (ha : AttemptsTrack E acts a₁ a₂) (c : Context) (i : ExprId) (p : Nat) (skips : Bool) :
    Tracks E (a₁ c i p acts skips) (a₂ c i p acts skips) :=
  ha c i p acts skips id

/-- An attempt without actions. -/
theorem without (ha : AttemptsTrack E acts a₁ a₂) (c : Context) (i : ExprId) (p : Nat) (skips : Bool) :
    Tracks E (a₁ c i p false skips) (a₂ c i p false skips) :=
  ha c i p false skips fun h => absurd h Bool.false_ne_true

theorem probe (ha : AttemptsTrack E acts a₁ a₂) (c : Context) (i : ExprId) (p : Nat) :
    Tracks E (Packrat.probe a₁ c i p) (Packrat.probe a₂ c i p) :=
  (ha.without c i p true).recover

end AttemptsTrack

/-! ## Ways of matching -/

section Matching

variable {E : Escape} {acts : Bool} {a₁ a₂ b₁ b₂ : Attempt}

section Peeks

variable (hb : AttemptsTrack E false b₁ b₂) (c : Context)
include hb

theorem skipOne_tracks (i : ExprId) (fuel loc : Nat) :
    Tracks E (skipOne b₁ c i fuel loc) (skipOne b₂ c i fuel loc) := by
  induction fuel generalizing loc with
  | zero => exact Tracks.refl _
  | succ fuel ih =>
    rw [skipOne, skipOne]
    refine (hb.probe c i loc).step ?_ fun _ => Tracks.refl _
    intro stop _
    exact Tracks.ite (fun _ => Tracks.refl _) fun _ => ih stop

theorem skipEach_tracks (ignores : List ExprId) (loc : Nat) :
    Tracks E (skipEach b₁ c ignores loc) (skipEach b₂ c ignores loc) := by
  induction ignores generalizing loc with
  | nil => exact Tracks.refl _
  | cons i ignores ih => exact (skipOne_tracks hb c i _ loc).bind ih

theorem skipRounds_tracks (ignores : List ExprId) (fuel loc : Nat) :
    Tracks E (skipRounds b₁ c ignores fuel loc) (skipRounds b₂ c ignores fuel loc) := by
  induction fuel generalizing loc with
  | zero => exact Tracks.refl _
  | succ fuel ih =>
    rw [skipRounds, skipRounds]
    apply (skipEach_tracks hb c ignores loc).bind
    intro after
    exact Tracks.ite (fun _ => Tracks.refl _) fun _ => ih after

theorem skipIgnorables_tracks (ignores : List ExprId) (loc : Nat) :
    Tracks E (skipIgnorables b₁ c ignores loc) (skipIgnorables b₂ c ignores loc) := by
  rw [skipIgnorables, skipIgnorables]
  exact Tracks.ite (fun _ => Tracks.refl _) fun _ => skipRounds_tracks hb c ignores _ loc

theorem skipLeading_tracks (rule : Rule) (loc : Nat) :
    Tracks E (skipLeading b₁ c rule loc) (skipLeading b₂ c rule loc) :=
  (skipIgnorables_tracks hb c rule.ignores loc).bind fun _ => Tracks.refl _

theorem atTextStart_tracks (rule : Rule) (start : Nat) :
    Tracks E (atTextStart b₁ c rule start) (atTextStart b₂ c rule start) := by
  rw [atTextStart, atTextStart]
  apply Tracks.ite fun _ => Tracks.refl _
  intro _
  exact (skipLeading_tracks hb c rule 0).bind fun _ => Tracks.refl _

theorem findCandidates_tracks (start : Nat) (children : List ExprId) (found : List Candidate)
    (best : Option Diagnostic) :
    Tracks E (findCandidates b₁ c start children found best) (findCandidates b₂ c start children found best) := by
  induction children generalizing found best with
  | nil => exact Tracks.refl _
  | cons i children ih =>
    rw [findCandidates, findCandidates]
    apply (hb.without c i start true).step
    · intro stop r
      exact ih _ best
    · intro d
      exact ih found _

theorem discoverRound_tracks (items : List (EachItem × Nat)) (d : Discovery) (progressed : Bool) :
    Tracks E (discoverRound b₁ c items d progressed) (discoverRound b₂ c items d progressed) := by
  induction items generalizing d progressed with
  | nil => exact Tracks.refl _
  | cons x items ih =>
    obtain ⟨item, i⟩ := x
    rw [discoverRound, discoverRound]
    apply Tracks.ite fun _ => ih d progressed
    intro _
    refine (hb.without c item.test d.loc true).step ?_ fun _ => ih d progressed
    intro stop _
    exact Tracks.ite (fun _ => ih _ true) fun _ => ih d progressed

theorem discover_tracks (items : List (EachItem × Nat)) (fuel : Nat) (d : Discovery) :
    Tracks E (discover b₁ c items fuel d) (discover b₂ c items fuel d) := by
  induction fuel generalizing d with
  | zero => exact Tracks.refl _
  | succ fuel ih =>
    rw [discover, discover]
    apply (discoverRound_tracks hb c items d false).bind
    rintro ⟨d', progressed⟩
    cases progressed with
    | true => exact ih d'
    | false => exact Tracks.refl _

theorem findAhead_tracks (target : ExprId) (failOn : Option ExprId) (fuel loc : Nat) :
    Tracks E (findAhead b₁ c target failOn fuel loc) (findAhead b₂ c target failOn fuel loc) := by
  induction fuel generalizing loc with
  | zero => exact Tracks.refl _
  | succ fuel ih =>
    -- what is done if `failOn` does not match
    have htry : Tracks E (tryTarget b₁ c target (findAhead b₁ c target failOn fuel) loc)
        (tryTarget b₂ c target (findAhead b₂ c target failOn fuel) loc) := by
      apply (skipIgnorables_tracks hb c _ loc).bind
      intro q
      refine (hb.without c target q false).recover.step (fun _ _ => Tracks.refl _) fun _ => ?_
      exact ih _
    rw [findAhead, findAhead]
    apply Tracks.ite fun _ => Tracks.refl _
    intro _
    cases failOn with
    | none => exact htry
    | some i => exact (hb.probe c i loc).step (fun _ _ => Tracks.refl _) fun _ => htry

end Peeks

section Attempts

variable (ha : AttemptsTrack E acts a₁ a₂) (c : Context)
include ha

theorem matchSequence_tracks (children : List ExprId) (first committed : Bool) (loc : Nat) (r : Results) :
    Tracks E (matchSequence a₁ c acts children first committed loc r)
      (matchSequence a₂ c acts children first committed loc r) := by
  induction children generalizing first committed loc r with
  | nil => exact Tracks.refl _
  | cons i children ih =>
    rw [matchSequence, matchSequence]
    apply Tracks.ite fun _ => ih false true loc r
    intro _
    apply (ha.attempt c i loc _).step
    · intro stop part
      exact ih false committed stop _
    · intro d
      exact Tracks.refl _

theorem matchFirst_tracks (rule : Rule) (start : Nat) (children : List ExprId) (best : Option Diagnostic) :
    Tracks E (matchFirst a₁ c rule start acts children best) (matchFirst a₂ c rule start acts children best) := by
  induction children generalizing best with
  | nil => exact Tracks.refl _
  | cons i children ih =>
    rw [matchFirst, matchFirst]
    apply (ha.attempt c i start true).step
    · intro stop r
      exact Tracks.refl _
    · intro d
      exact ih _

theorem matchCandidates_tracks (hacts : acts = true) (rule : Rule) (start : Nat) (candidates : List Candidate)
    (longest : Option (Nat × Results)) (best : Option Diagnostic) :
    Tracks E (matchCandidates a₁ c rule start candidates longest best)
      (matchCandidates a₂ c rule start candidates longest best) := by
  subst hacts
  induction candidates generalizing longest best with
  | nil => exact Tracks.refl _
  | cons x candidates ih =>
    have htry : Tracks E (tryCandidate a₁ c start x longest best (matchCandidates a₁ c rule start candidates))
        (tryCandidate a₂ c start x longest best (matchCandidates a₂ c rule start candidates)) := by
      rw [tryCandidate, tryCandidate]
      refine (ha.attempt c x.child start true).step ?_ fun d => ih longest _
      intro stop r
      exact Tracks.ite (fun _ => Tracks.refl _) fun _ => ih _ best
    unfold matchCandidates
    cases longest with
    | none => exact htry
    | some l => exact Tracks.ite (fun _ => Tracks.refl _) fun _ => htry

theorem runInOrder_tracks (order : List ExprId) (loc : Nat) (r : Results) :
    Tracks E (runInOrder a₁ c acts order loc r) (runInOrder a₂ c acts order loc r) := by
  induction order generalizing loc r with
  | nil => exact Tracks.refl _
  | cons i order ih =>
    rw [runInOrder, runInOrder]
    refine (ha.attempt c i loc true).step ?_ fun _ => Tracks.refl _
    intro stop part
    exact ih stop _

theorem takeRound_tracks (child : ExprId) {again₁ again₂ : Rounds → MatchM Rounds}
    (hagain : ∀ r, Tracks E (again₁ r) (again₂ r)) (r : Rounds) :
    Tracks E (takeRound a₁ c child acts again₁ r) (takeRound a₂ c child acts again₂ r) := by
  rw [takeRound, takeRound]
  refine (ha.attempt c child r.loc true).step ?_ fun _ => Tracks.refl _
  intro after part
  exact Tracks.ite (fun _ => hagain _) fun _ => Tracks.refl _

theorem matchPrecededBy_tracks (rule : Rule) (child : ExprId) (retreat : Option Nat) (start : Nat) :
    Tracks E (matchPrecededBy a₁ c rule child retreat start acts)
      (matchPrecededBy a₂ c rule child retreat start acts) := by
  have hfind (positions : List Nat) : Tracks E (findBehind a₁ (c.behind start) child acts positions)
      (findBehind a₂ (c.behind start) child acts positions) := by
    induction positions with
    | nil => exact Tracks.refl _
    | cons p positions ih =>
      rw [findBehind, findBehind]
      refine (ha.attempt _ child p false).recover.step ?_ fun _ => ih
      intro stop r
      exact Tracks.ite (fun _ => Tracks.refl _) fun _ => ih
  exact ((hfind _).aside c.config).bind fun _ => Tracks.refl _

theorem advanceSeed_tracks (keys : SeedKeys) (target : ExprId) (step : Step) :
    Tracks E (advanceSeed a₁ c keys target acts step) (advanceSeed a₂ c keys target acts step) := by
  cases acts with
  | false => exact Tracks.refl _
  | true =>
    refine (ha.attempt c target keys.position false).step ?_ ?_
    · intro stop r
      exact Tracks.refl _
    · intro d
      exact Tracks.refl _

end Attempts

/-! ## Attempts made for a purpose -/

section Peeking

variable (ha : AttemptsTrack E acts a₁ a₂) (hb : AttemptsTrack E false a₁ b₂) (c : Context)
include ha hb

theorem matchLongest_tracks (rule : Rule) (children : List ExprId) (start : Nat) :
    Tracks E (matchLongest a₁ c rule children start acts)
      (Hooks.matchLongest a₂ b₂ c rule children start acts) := by
  apply (findCandidates_tracks hb c start children [] none).bind
  rintro ⟨found, best⟩
  cases acts with
  | true => exact matchCandidates_tracks ha c rfl rule start _ none best
  | false => exact Tracks.refl _

theorem matchEach_tracks (children : List ExprId) (start : Nat) :
    Tracks E (matchEach a₁ c children start acts) (Hooks.matchEach a₂ b₂ c children start acts) := by
  apply (discover_tracks hb c _ _ _).bind
  intro found
  exact Tracks.ite (fun _ => Tracks.refl _) fun _ => runInOrder_tracks ha c _ start {}

theorem repeatRounds_tracks (child : ExprId) (max : Option Nat) (stop : Option ExprId) (fuel : Nat) (r : Rounds) :
    Tracks E (repeatRounds a₁ c child max stop acts fuel r)
      (Hooks.repeatRounds a₂ b₂ c child max stop acts fuel r) := by
  induction fuel generalizing r with
  | zero => exact Tracks.refl _
  | succ fuel ih =>
    -- the round that is taken if the stop test fails
    have hround := takeRound_tracks ha c child ih r
    rw [repeatRounds, Hooks.repeatRounds]
    apply Tracks.ite fun _ => Tracks.refl _
    intro _
    cases stop with
    | none => exact hround
    | some i => exact (hb.probe c i r.loc).step (fun _ _ => Tracks.refl _) fun _ => hround

theorem matchRepetition_tracks (rule : Rule) (child : ExprId) (min : Nat) (max : Option Nat)
    (stop : Option ExprId) (start : Nat) :
    Tracks E (matchRepetition a₁ c rule child min max stop start acts)
      (Hooks.matchRepetition a₂ b₂ c rule child min max stop start acts) :=
  (repeatRounds_tracks ha hb c child max stop _ _).bind fun _ => Tracks.refl _

theorem matchSkipTo_tracks (rule : Rule) (target : ExprId) (includes : Bool) (failOn : Option ExprId)
    (start : Nat) :
    Tracks E (matchSkipTo a₁ c rule target includes failOn start acts)
      (Hooks.matchSkipTo a₂ b₂ c rule target includes failOn start acts) := by
  refine (findAhead_tracks hb c target failOn _ start).option (Tracks.refl _) ?_
  intro loc
  cases includes with
  | false => exact Tracks.refl _
  | true => exact (ha.attempt c target loc false).step (fun _ _ => Tracks.refl _) fun _ => Tracks.refl _

theorem growRounds_tracks (rule : Rule) (keys : SeedKeys) (target : ExprId) (limit fuel rounds : Nat)
    (seed : Seed) :
    Tracks E (growRounds a₁ c rule keys target limit acts fuel rounds seed)
      (Hooks.growRounds a₂ b₂ c rule keys target limit acts fuel rounds seed) := by
  induction fuel generalizing rounds seed with
  | zero => exact Tracks.refl _
  | succ fuel ih =>
    rw [growRounds, Hooks.growRounds]
    apply (hb.without c target keys.position false).bind
    intro grown
    -- a seed that fails twice is refused; any other grows, or is released
    cases grown with
    | matched stop r =>
      exact Tracks.ite (fun _ => Tracks.refl _) fun _ => Tracks.ite (fun _ => Tracks.refl _) fun _ =>
        Tracks.andThen _ fun _ => (advanceSeed_tracks ha c keys target _).option (ih _ _) fun _ => Tracks.refl _
    | failed d =>
      obtain ⟨stop, step⟩ := seed
      cases step with
      | matched stop' r =>
        exact Tracks.ite (fun _ => Tracks.refl _) fun _ => Tracks.ite (fun _ => Tracks.refl _) fun _ =>
          Tracks.andThen _ fun _ => (advanceSeed_tracks ha c keys target _).option (ih _ _) fun _ => Tracks.refl _
      | failed d' => exact Tracks.refl _

theorem growSeed_tracks (rule : Rule) (id target : ExprId) (position : Nat) :
    Tracks E (growSeed a₁ c rule id target position acts)
      (Hooks.growSeed a₂ b₂ c rule id target position acts) := by
  apply (Tracks.refl _).option
  · exact Tracks.andThen _ fun _ => growRounds_tracks ha hb c rule _ target _ _ _ _
  · exact fun _ => Tracks.refl _

end Peeking

/-! ## Attempts -/

/-- Whether attempts for a purpose run actions when the node that makes them does. -/
def Purpose.runsActions : Purpose → Bool
  | .lookahead | .behind => true
  | _ => false

section Nodes

variable {H : Hooks} {chain : List Purpose} {under : Purpose → Attempt}
  (ha : AttemptsTrack E acts a₁ a₂) (hunder : ∀ u, AttemptsTrack E (acts && u.runsActions) a₁ (under u))
  (hcall : acts = true → ∀ c action start stop r,
    Tracks E (runAction c action start stop r) (H.call chain c action start stop r))
include ha hunder hcall

theorem matchNode_tracks (c : Context) (i : ExprId) (rule : Rule) (start : Nat) :
    Tracks E (matchNode a₁ c i rule start acts) (H.matchNode chain a₂ under c i rule start acts) := by
  -- attempts for a purpose run no actions, unless they look ahead or behind
  have hpeek (u : Purpose) : AttemptsTrack E false a₁ (under u) := (hunder u).mono fun h => absurd h Bool.false_ne_true
  have hacting {u : Purpose} (hu : u.runsActions = true) : AttemptsTrack E acts a₁ (under u) := by
    have h := hunder u
    rwa [hu, Bool.and_true] at h
  cases hk : rule.kind with
  | literal | keyword | word | charsNotIn | pattern | empty | noMatch | stringEnd | lineStart | lineEnd | wordStart
  | wordEnd | commit =>
    simp only [matchNode, Hooks.matchNode, hk]
    exact Tracks.refl _
  | sequence children =>
    simp only [matchNode, Hooks.matchNode, hk]
    exact matchSequence_tracks ha c children true false start {}
  | orderedChoice children =>
    simp only [matchNode, Hooks.matchNode, hk]
    exact matchFirst_tracks ha c rule start children none
  | longestChoice children =>
    simp only [matchNode, Hooks.matchNode, hk]
    exact matchLongest_tracks ha (hpeek _) c rule children start
  | each children =>
    simp only [matchNode, Hooks.matchNode, hk]
    exact matchEach_tracks ha (hpeek _) c children start
  | repetition child min max stop =>
    simp only [matchNode, Hooks.matchNode, hk]
    exact matchRepetition_tracks ha (hpeek _) c rule child min max stop start
  | optional child default =>
    simp only [matchNode, Hooks.matchNode, hk]
    exact (ha.attempt c child start false).step (fun _ _ => Tracks.refl _) fun _ => Tracks.refl _
  | lookahead child =>
    simp only [matchNode, Hooks.matchNode, hk]
    exact ((hacting rfl).attempt c child start true).recover.step (fun _ _ => Tracks.refl _) fun _ => Tracks.refl _
  | notAhead child =>
    simp only [matchNode, Hooks.matchNode, hk]
    exact ((hpeek _).probe c child start).step (fun _ _ => Tracks.refl _) fun _ => Tracks.refl _
  | precededBy child retreat =>
    simp only [matchNode, Hooks.matchNode, hk]
    exact matchPrecededBy_tracks (hacting rfl) c rule child retreat start
  | forward label target =>
    cases target with
    | none =>
      simp only [matchNode, Hooks.matchNode, hk]
      exact Tracks.refl _
    | some target =>
      simp only [matchNode, Hooks.matchNode, hk]
      exact Tracks.ite (fun _ => growSeed_tracks ha (hpeek _) c rule i target start) fun _ =>
        ha.attempt c target start false
  | transform child action =>
    simp only [matchNode, Hooks.matchNode, hk]
    refine (ha.attempt c child start false).step ?_ fun _ => Tracks.refl _
    intro stop r
    exact Tracks.ite (fun hacts => hcall hacts c action start stop r) fun _ => Tracks.refl _
  | named child | group child | dict child | suppress child | originalText child =>
    simp only [matchNode, Hooks.matchNode, hk]
    exact (ha.attempt c child start false).bind fun _ => Tracks.refl _
  | combine child joiner =>
    simp only [matchNode, Hooks.matchNode, hk]
    exact (ha.attempt c.combined child start false).bind fun _ => Tracks.refl _
  | skipTo target includes failOn =>
    simp only [matchNode, Hooks.matchNode, hk]
    exact matchSkipTo_tracks ha (hpeek _) c rule target includes failOn start
  | stringStart =>
    simp only [matchNode, Hooks.matchNode, hk]
    exact (atTextStart_tracks (hpeek _) c rule start).bind fun _ => Tracks.refl _

theorem perform_tracks (c : Context) (i : ExprId) (p : Nat) (skips : Bool) :
    Tracks E (perform a₁ c i p acts skips) (H.perform chain a₂ under c i p acts skips) := by
  have hpeek : AttemptsTrack E false a₁ (under .ignorable) :=
    (hunder _).mono fun h => absurd h Bool.false_ne_true
  apply Tracks.andThen
  intro _
  have hrest (start : Nat) : Tracks E
      (do let step ← matchNode a₁ c i (c.rule i) start acts
          reportStep (c.watch.wants (c.rule i)) i start (step.mapResults (ResultsOf.withOrigin i))
          return step.mapResults (ResultsOf.withOrigin i))
      (do let step ← H.matchNode chain a₂ under c i (c.rule i) start acts
          reportStep (c.watch.wants (c.rule i)) i start (step.mapResults (ResultsOf.withOrigin i))
          return step.mapResults (ResultsOf.withOrigin i)) :=
    (matchNode_tracks ha hunder hcall c i (c.rule i) start).bind fun _ => Tracks.refl _
  cases skips with
  | true => exact (skipLeading_tracks hpeek c (c.rule i) p).bind hrest
  | false => exact hrest p

theorem remember_tracks (c : Context) (i : ExprId) (p : Nat) (skips : Bool) :
    Tracks E (remember a₁ c i p acts skips) (H.remember chain a₂ under c i p acts skips) := by
  have hperform := perform_tracks ha hunder hcall c i p (skips && !c.adjacent)
  apply Tracks.andThen
  intro _
  apply Tracks.andThen
  intro on
  apply Tracks.ite fun _ => hperform
  intro _
  apply (Tracks.refl _).option
  · exact hperform.bind fun _ => Tracks.refl _
  · exact fun _ => Tracks.refl _

end Nodes
end Matching

/-! ## Runs with hooks -/

namespace Hooks

/-- Hooks that a run does not notice, up to escapes: under the chains of purposes that lead to action calls, calls do
what they do without hooks, and so do attempts. -/
structure Harmless (E : Escape) (live : List Purpose → Prop) (H : Hooks) : Prop where
  start : live []
  /-- Only what looks ahead or behind runs actions. -/
  under : ∀ {u chain}, u.runsActions = true → live chain → live (u :: chain)
  call : ∀ {chain}, live chain → ∀ c action start stop r,
    Tracks E (runAction c action start stop r) (H.call chain c action start stop r)
  made : ∀ {m₁ m₂}, Tracks E m₁ m₂ → Tracks E m₁ (H.made m₂)

namespace Harmless

variable {E : Escape} {live : List Purpose → Prop} {H : Hooks} (h : H.Harmless E live)
include h

/-- **Attempts with harmless hooks track** those without: under every chain of purposes those without actions, and
under chains that lead to action calls also those with actions. -/
theorem attemptWithin_tracks (n : Nat) {chain : List Purpose} {acts : Bool} (hlive : acts = true → live chain) :
    AttemptsTrack E acts (Packrat.attemptWithin n) (H.attemptWithin n chain) := by
  induction n generalizing chain acts with
  | zero => exact fun _ _ _ _ _ _ => h.made (Tracks.refl _)
  | succ n ih =>
    intro c i p b skips hb
    have hremember : Tracks E (Packrat.remember (Packrat.attemptWithin n) c.deeper i p b skips)
        (H.remember chain (H.attemptWithin n chain) (fun u => H.attemptWithin n (u :: chain)) c.deeper i p b
          skips) := by
      apply remember_tracks (ih fun hb' => hlive (hb hb'))
      · intro u
        apply ih
        intro hu
        simp only [Bool.and_eq_true] at hu
        exact h.under hu.2 (hlive (hb hu.1))
      · intro hb'
        exact h.call (hlive (hb hb'))
    unfold Packrat.attemptWithin Hooks.attemptWithin
    apply h.made
    cases c.config.recursionLimit with
    | none => exact hremember
    | some limit => exact Tracks.ite (fun _ => Tracks.refl _) fun _ => hremember

theorem attempt_tracks (c : Context) {chain : List Purpose} {acts : Bool} (hlive : acts = true → live chain) :
    AttemptsTrack E acts (Packrat.attempt c) (H.attempt c chain) :=
  h.attemptWithin_tracks (attemptFuel c) hlive

theorem matchRoot_tracks (c : Context) (all : Bool) : Tracks E (Packrat.matchRoot c all) (H.matchRoot c all) := by
  refine ((h.attempt_tracks c fun _ => h.start).attempt c c.grammar.root 0 true).step ?_ fun _ => Tracks.refl _
  intro stop r
  apply Tracks.ite fun _ => Tracks.refl _
  intro _
  have hskip : AttemptsTrack E false (Packrat.attempt c) (H.attempt c [.ignorable]) :=
    h.attempt_tracks c fun hacts => absurd hacts Bool.false_ne_true
  exact (skipLeading_tracks hskip c _ stop).bind fun _ => Tracks.refl _

theorem attemptAt_tracks (c : Context) (p : Nat) : Tracks E (Scan.attemptAt c p) (H.attemptAt c p) := by
  have hskip : AttemptsTrack E false (Packrat.attempt c) (H.attempt c [.ignorable]) :=
    h.attempt_tracks c fun hacts => absurd hacts Bool.false_ne_true
  apply (skipLeading_tracks hskip c _ p).bind
  intro start
  exact ((h.attempt_tracks c fun _ => h.start).attempt c _ start false).bind fun _ => Tracks.refl _

end Harmless
end Hooks
end Packrat
