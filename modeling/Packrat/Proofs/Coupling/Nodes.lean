import Packrat.Proofs.Coupling.Basic

/-!
# `Packrat.Proofs.Coupling.Nodes` — linked attempts make linked matches

Each way of matching is given attempts of other nodes as a function. Here every one of them is shown to be
linked when the attempts it makes are, so that a law on runs needs to be proved only where the two runs really
differ: at remembered outcomes, at forwards, at actions, and at the longest of several matches.

## Contents

* `skipLeading_linked`, `matchSequence_linked`, … — one lemma for each way of matching;
* `matchNode_linked`, `perform_linked` — all of them together;
* `perform_linked_of_seedless` — where forwards grow no seeds.
-/

namespace Packrat

/-! ## Contexts -/

namespace Context.Alike

variable {g : Grammar} {c₁ c₂ : Context} (h : Context.Alike g c₁ c₂)
include h

theorem rule₁ (i : ExprId) : c₁.rule i = g.rule i := by rw [Context.rule, h.grammar₁]

theorem rule₂ (i : ExprId) : c₂.rule i = g.rule i := by rw [Context.rule, h.grammar₂]

end Context.Alike

/-- Where forwards grow no seeds, they are matched by their targets. -/
theorem matchNode_forward {a : Attempt} {c : Context} (hc : c.config.memoization ≠ .leftRecursion) {rule : Rule}
    {label : String} {target : ExprId} (hk : rule.kind = .forward label (some target)) (i : ExprId) (p : Nat)
    (acts : Bool) : matchNode a c i rule p acts = a c target p acts false := by
  simp only [matchNode, hk, if_neg hc]

/-- A choice that none of its children matches fails. -/
theorem choiceFailure_eq_failed (best : Option Diagnostic) (start : Nat) (rule : Rule) :
    ∃ d, choiceFailure best start rule = .failed d := by
  unfold choiceFailure
  split
  · split
    · exact ⟨_, rfl⟩
    · exact ⟨_, rfl⟩
  · exact ⟨_, rfl⟩

/-! ## Reports -/

theorem reportTry_sameTables (watch : Watch) (watched : Bool) (i : ExprId) (p : Nat) (s : State) :
    ∃ s', reportTry watch watched i p s = .ok () s' ∧ s'.SameTables s := by
  unfold reportTry
  split
  · exact ⟨_, rfl, rfl, rfl, rfl, rfl⟩
  · split
    · exact ⟨_, rfl, rfl, rfl, rfl, rfl⟩
    · exact ⟨_, rfl, rfl, rfl, rfl, rfl⟩

theorem reportStep_sameTables (watched : Bool) (i : ExprId) (start : Nat) (step : Step) (s : State) :
    ∃ s', reportStep watched i start step s = .ok () s' ∧ s'.SameTables s := by
  cases watched with
  | false => exact ⟨s, rfl, rfl, rfl, rfl, rfl⟩
  | true =>
    cases step with
    | matched stop r => exact ⟨_, rfl, rfl, rfl, rfl, rfl⟩
    | failed d => exact ⟨_, rfl, rfl, rfl, rfl, rfl⟩

namespace Coupling

variable {g : Grammar} {K : Coupling g} {w : K.World} {r : Bool} {a₁ a₂ : Attempt} {c₁ c₂ : Context}
  {γ δ : Type} {W : γ → δ → Prop}

/-- What follows an attempt is linked when it is linked after a match and after a failure. -/
theorem Linked.step {m₁ m₂ : MatchM Step} {f₁ : Step → MatchM γ} {f₂ : Step → MatchM δ}
    (hm : K.Linked w r (Step.Alike K.exact) m₁ m₂)
    (hmatched : ∀ stop r₁ r₂, (K.exact = true → r₁ = r₂) →
      K.Linked w r W (f₁ (.matched stop r₁)) (f₂ (.matched stop r₂)))
    (hfailed : ∀ d, K.Linked w r W (f₁ (.failed d)) (f₂ (.failed d))) :
    K.Linked w r W (m₁ >>= f₁) (m₂ >>= f₂) := by
  refine hm.bind ?_
  intro a b hab
  rcases hab.cases with ⟨stop, r₁, r₂, rfl, rfl, hr⟩ | ⟨d, rfl, rfl⟩
  · exact hmatched stop r₁ r₂ hr
  · exact hfailed d

/-- A match changed by a function of its results. -/
theorem Linked.map {m₁ m₂ : MatchM Step} (f : Results → Results)
    (hm : K.Linked w r (Step.Alike K.exact) m₁ m₂) :
    K.Linked w r (Step.Alike K.exact) (do let step ← m₁; return step.mapResults f)
      (do let step ← m₂; return step.mapResults f) :=
  hm.bind fun _ _ hab => Linked.pure (hab.mapResults f)

/-! ## Skipping -/

section Attempts

variable (ha : K.Agrees a₁ a₂) (hc : K.contexts w c₁ c₂)
include ha hc

theorem probe_linked {i : ExprId} (hi : K.nodes c₁.adjacent true i) (p : Nat) :
    K.Linked w r (Step.Alike K.exact) (probe a₁ c₁ i p) (probe a₂ c₂ i p) :=
  Linked.recover (ha hc hi fun _ => rfl)

theorem skipOne_linked {i : ExprId} (hi : K.nodes c₁.adjacent true i) (fuel loc : Nat) :
    K.Linked w r Eq (skipOne a₁ c₁ i fuel loc) (skipOne a₂ c₂ i fuel loc) := by
  induction fuel generalizing loc with
  | zero => exact Linked.pure rfl
  | succ fuel ih =>
    rw [skipOne, skipOne]
    refine Linked.step (probe_linked ha hc hi loc) ?_ fun _ => Linked.pure rfl
    intro stop _ _ _
    by_cases h : stop ≤ loc
    · simpa only [h, if_true] using Linked.pure rfl
    · simpa only [h, if_false] using ih stop

theorem skipEach_linked {ignores : List ExprId} (hi : ∀ i ∈ ignores, K.nodes c₁.adjacent true i) (loc : Nat) :
    K.Linked w r Eq (skipEach a₁ c₁ ignores loc) (skipEach a₂ c₂ ignores loc) := by
  induction ignores generalizing loc with
  | nil => exact Linked.pure rfl
  | cons i ignores ih =>
    rw [skipEach, skipEach, ← (K.alike hc).text]
    refine (skipOne_linked ha hc (hi i (by simp)) _ loc).bind ?_
    intro a b hab
    subst hab
    exact ih (fun j hj => hi j (by simp [hj])) a

theorem skipRounds_linked {ignores : List ExprId} (hi : ∀ i ∈ ignores, K.nodes c₁.adjacent true i)
    (fuel loc : Nat) :
    K.Linked w r Eq (skipRounds a₁ c₁ ignores fuel loc) (skipRounds a₂ c₂ ignores fuel loc) := by
  induction fuel generalizing loc with
  | zero => exact Linked.pure rfl
  | succ fuel ih =>
    rw [skipRounds, skipRounds]
    refine (skipEach_linked ha hc hi loc).bind ?_
    intro a b hab
    subst hab
    by_cases h : a = loc
    · simpa only [h, if_true] using Linked.pure rfl
    · simpa only [h, if_false] using ih a

theorem skipIgnorables_linked {ignores : List ExprId} (hi : ∀ i ∈ ignores, K.nodes c₁.adjacent true i)
    (loc : Nat) :
    K.Linked w r Eq (skipIgnorables a₁ c₁ ignores loc) (skipIgnorables a₂ c₂ ignores loc) := by
  rw [skipIgnorables, skipIgnorables, ← (K.alike hc).text]
  by_cases h : ignores.isEmpty = true
  · rw [if_pos h, if_pos h]
    exact Linked.pure rfl
  · rw [if_neg h, if_neg h]
    exact skipRounds_linked ha hc hi _ loc

theorem skipLeading_linked {rule : Rule} (hi : ∀ i ∈ rule.ignores, K.nodes c₁.adjacent true i) (loc : Nat) :
    K.Linked w r Eq (skipLeading a₁ c₁ rule loc) (skipLeading a₂ c₂ rule loc) := by
  rw [skipLeading, skipLeading, ← (K.alike hc).text]
  refine (skipIgnorables_linked ha hc hi loc).bind ?_
  intro a b hab
  subst hab
  exact Linked.pure rfl

theorem atTextStart_linked {rule : Rule} (hi : ∀ i ∈ rule.ignores, K.nodes c₁.adjacent true i) (start : Nat) :
    K.Linked w r Eq (atTextStart a₁ c₁ rule start) (atTextStart a₂ c₂ rule start) := by
  rw [atTextStart, atTextStart]
  by_cases h : start = 0
  · simpa only [h, if_true] using Linked.pure rfl
  · simp only [h, if_false]
    refine (skipLeading_linked ha hc hi 0).bind ?_
    intro a b hab
    subst hab
    exact Linked.pure rfl

/-! ## Sequences and choices -/

variable {acts₁ acts₂ : Bool} (hacts : K.exact = true → acts₁ = acts₂)
include hacts

theorem matchSequence_linked {children : List ExprId} (hi : ∀ i ∈ children, K.nodes c₁.adjacent r i)
    (first committed : Bool) (loc : Nat) {r₁ r₂ : Results} (hr : K.exact = true → r₁ = r₂) :
    K.Linked w r (Step.Alike K.exact) (matchSequence a₁ c₁ acts₁ children first committed loc r₁)
      (matchSequence a₂ c₂ acts₂ children first committed loc r₂) := by
  induction children generalizing first committed loc r₁ r₂ with
  | nil => exact Linked.pure ⟨rfl, hr⟩
  | cons i children ih =>
    have ih := ih fun j hj => hi j (by simp [hj])
    rw [matchSequence, matchSequence, (K.alike hc).rule₁, (K.alike hc).rule₂]
    by_cases hk : (g.rule i).kind.isCommit = true
    -- a commit marker is passed without an attempt
    · simpa only [hk, if_true] using ih false true loc hr
    · simp only [hk]
      refine Linked.step (ha hc (hi i (by simp)) hacts) ?_ ?_
      · intro stop p₁ p₂ hp
        exact ih false committed stop fun he => by rw [hr he, hp he]
      · intro d
        cases committed with
        | true => exact Linked.halt _
        | false => exact Linked.pure rfl

theorem matchFirst_linked (rule : Rule) (start : Nat) {children : List ExprId}
    (hi : ∀ i ∈ children, K.nodes c₁.adjacent r i) (best : Option Diagnostic) :
    K.Linked w r (Step.Alike K.exact) (matchFirst a₁ c₁ rule start acts₁ children best)
      (matchFirst a₂ c₂ rule start acts₂ children best) := by
  induction children generalizing best with
  | nil => exact Linked.pure (Step.Alike.refl _ _)
  | cons i children ih =>
    rw [matchFirst, matchFirst]
    refine Linked.step (ha hc (hi i (by simp)) hacts) ?_ ?_
    · intro stop p₁ p₂ hp
      exact Linked.pure ⟨rfl, hp⟩
    · intro d
      exact ih (fun j hj => hi j (by simp [hj])) (furthestOf best d)

omit hacts

theorem tryCandidate_linked (he : K.exact = true) (start : Nat) {x : Candidate} (hi : K.nodes c₁.adjacent r x.child)
    (longest : Option (Nat × Results)) (best : Option Diagnostic)
    {next₁ next₂ : Option (Nat × Results) → Option Diagnostic → MatchM Step}
    (hnext : ∀ longest best, K.Linked w r (Step.Alike K.exact) (next₁ longest best) (next₂ longest best)) :
    K.Linked w r (Step.Alike K.exact) (tryCandidate a₁ c₁ start x longest best next₁)
      (tryCandidate a₂ c₂ start x longest best next₂) := by
  refine Linked.step (ha hc hi fun _ => rfl) ?_ ?_
  · intro stop p₁ p₂ hp
    rw [hp he]
    by_cases h : x.stop ≤ stop
    · simpa only [h, if_true] using Linked.pure (Step.Alike.refl _ _)
    · simpa only [h, if_false] using hnext _ best
  · intro d
    exact hnext longest (furthestOf best d)

theorem matchCandidates_linked (he : K.exact = true) (rule : Rule) (start : Nat) {candidates : List Candidate}
    (hi : ∀ x ∈ candidates, K.nodes c₁.adjacent r x.child) (longest : Option (Nat × Results))
    (best : Option Diagnostic) :
    K.Linked w r (Step.Alike K.exact) (matchCandidates a₁ c₁ rule start candidates longest best)
      (matchCandidates a₂ c₂ rule start candidates longest best) := by
  induction candidates generalizing longest best with
  | nil => exact Linked.pure (Step.Alike.refl _ _)
  | cons x candidates ih =>
    have ih := ih fun y hy => hi y (by simp [hy])
    -- what is done if `x` can still be longer than the longest match
    have hrest := tryCandidate_linked ha hc he start (hi x (by simp)) longest best ih
    unfold matchCandidates
    cases longest with
    | none => exact hrest
    | some l =>
      by_cases h : x.stop ≤ l.1
      · simpa only [h, if_true] using Linked.pure (Step.Alike.refl _ _)
      · simp only [h, if_false]
        exact hrest

/-- The candidates that are found are children, or were found before. -/
theorem findCandidates_children (he : K.exact = true) (start : Nat) {children : List ExprId}
    (hi : ∀ i ∈ children, K.nodes c₁.adjacent r i) {found : List Candidate}
    (hf : ∀ x ∈ found, K.nodes c₁.adjacent r x.child) (best : Option Diagnostic) :
    K.Linked w r (fun x y => x = y ∧ ∀ z ∈ x.1, K.nodes c₁.adjacent r z.child)
      (findCandidates a₁ c₁ start children found best) (findCandidates a₂ c₂ start children found best) := by
  induction children generalizing found best with
  | nil => exact Linked.pure ⟨rfl, fun z hz => hf z (List.mem_reverse.mp hz)⟩
  | cons i children ih =>
    have ih := @ih fun j hj => hi j (by simp [hj])
    rw [findCandidates, findCandidates]
    refine Linked.step (ha hc (hi i (by simp)) fun _ => rfl) ?_ ?_
    · intro stop p₁ p₂ hp
      rw [hp he]
      refine ih ?_ best
      intro z hz
      rcases List.mem_cons.mp hz with rfl | hz
      · exact hi i (by simp)
      · exact hf z hz
    · intro d
      exact ih hf (furthestOf best d)

theorem matchLongest_linked (he : K.exact = true) (rule : Rule) {children : List ExprId} (start : Nat)
    (acts : Bool) (hi : ∀ i ∈ children, K.nodes c₁.adjacent r i) :
    K.Linked w r (Step.Alike K.exact) (matchLongest a₁ c₁ rule children start acts)
      (matchLongest a₂ c₂ rule children start acts) := by
  rw [matchLongest, matchLongest]
  refine (findCandidates_children ha hc he start hi (by simp) none).bind ?_
  intro x y hxy
  obtain ⟨rfl, hx⟩ := hxy
  cases acts with
  | true => exact matchCandidates_linked ha hc he rule start (fun z hz => hx z (List.mem_mergeSort.mp hz)) none x.2
  | false =>
    simp only [Bool.false_eq_true, if_false]
    split
    · exact Linked.pure (Step.Alike.refl _ _)
    · exact Linked.pure (Step.Alike.refl _ _)

/-! ## Children in any order -/

variable {items : List (EachItem × Nat)} (htest : ∀ x ∈ items, K.nodes c₁.adjacent r x.1.test)
  (hrun : ∀ x ∈ items, K.nodes c₁.adjacent r x.1.run)
include htest hrun

theorem discoverRound_linked {d : Discovery} (hd : ∀ i ∈ d.order, K.nodes c₁.adjacent r i) (progressed : Bool) :
    K.Linked w r (fun x y => x = y ∧ ∀ i ∈ x.1.order, K.nodes c₁.adjacent r i)
      (discoverRound a₁ c₁ items d progressed) (discoverRound a₂ c₂ items d progressed) := by
  induction items generalizing d progressed with
  | nil => exact Linked.pure ⟨rfl, hd⟩
  | cons x items ih =>
    have ih {d} := ih (d := d) (fun y hy => htest y (by simp [hy])) fun y hy => hrun y (by simp [hy])
    obtain ⟨item, i⟩ := x
    rw [discoverRound, discoverRound]
    by_cases hseen : (item.isSingle && d.seen.contains i) = true
    -- a child that matches only once is not tested again
    · rw [if_pos hseen, if_pos hseen]
      exact ih hd progressed
    · rw [if_neg hseen, if_neg hseen]
      refine Linked.step (ha hc (htest (item, i) (by simp)) fun _ => rfl) ?_ fun _ => ?_
      · intro stop _ _ _
        by_cases h : (item.isSingle || decide (d.loc < stop)) = true
        · have hd' : ∀ j ∈ item.run :: d.order, K.nodes c₁.adjacent r j := by
            intro j hj
            rcases List.mem_cons.mp hj with rfl | hj
            · exact hrun (item, i) (by simp)
            · exact hd j hj
          simpa only [h, if_true] using ih (d := ⟨stop, item.run :: d.order, i :: d.seen⟩) hd' true
        · simp only [Bool.not_eq_true] at h
          simpa only [h, Bool.false_eq_true, if_false] using ih hd progressed
      · exact ih hd progressed

theorem discover_linked (fuel : Nat) {d : Discovery} (hd : ∀ i ∈ d.order, K.nodes c₁.adjacent r i) :
    K.Linked w r (fun x y => x = y ∧ ∀ i ∈ x.order, K.nodes c₁.adjacent r i)
      (discover a₁ c₁ items fuel d) (discover a₂ c₂ items fuel d) := by
  induction fuel generalizing d with
  | zero => exact Linked.pure ⟨rfl, hd⟩
  | succ fuel ih =>
    rw [discover, discover]
    refine (discoverRound_linked ha hc htest hrun hd false).bind ?_
    intro a b hab
    obtain ⟨rfl, hd'⟩ := hab
    obtain ⟨d', progressed⟩ := a
    cases progressed with
    | true => exact ih hd'
    | false => exact Linked.pure ⟨rfl, hd'⟩

omit htest hrun

theorem runInOrder_linked {acts₁ acts₂ : Bool} (hacts : K.exact = true → acts₁ = acts₂) {order : List ExprId}
    (hi : ∀ i ∈ order, K.nodes c₁.adjacent r i) (loc : Nat) {r₁ r₂ : Results} (hr : K.exact = true → r₁ = r₂) :
    K.Linked w r (Step.Alike K.exact) (runInOrder a₁ c₁ acts₁ order loc r₁)
      (runInOrder a₂ c₂ acts₂ order loc r₂) := by
  induction order generalizing loc r₁ r₂ with
  | nil => exact Linked.pure ⟨rfl, hr⟩
  | cons i order ih =>
    have ih := ih fun j hj => hi j (by simp [hj])
    rw [runInOrder, runInOrder]
    refine Linked.step (ha hc (hi i (by simp)) hacts) ?_ fun d => Linked.pure rfl
    intro stop p₁ p₂ hp
    exact ih stop fun he => by rw [hr he, hp he]

theorem matchEach_linked {acts₁ acts₂ : Bool} (hacts : K.exact = true → acts₁ = acts₂) {children : List ExprId}
    (hi : ∀ i ∈ children, K.nodes c₁.adjacent r i) (start : Nat) :
    K.Linked w r (Step.Alike K.exact) (matchEach a₁ c₁ children start acts₁)
      (matchEach a₂ c₂ children start acts₂) := by
  have hitems : ∀ x ∈ (children.map fun i => EachItem.ofChild i (g.rule i).kind).zipIdx,
      K.nodes c₁.adjacent r x.1.test ∧ K.nodes c₁.adjacent r x.1.run :=
    EachItem.items_within hi fun i hi inner hinner => K.nodes_within hi hinner.mem_within
  simp only [matchEach, (K.alike hc).rule₁, (K.alike hc).rule₂, ← (K.alike hc).text]
  refine (discover_linked ha hc (fun x hx => (hitems x hx).1) (fun x hx => (hitems x hx).2) _
    (by simp)).bind ?_
  intro a b hab
  obtain ⟨rfl, ha'⟩ := hab
  split
  · exact Linked.pure rfl
  · refine runInOrder_linked ha hc hacts ?_ start fun _ => rfl
    intro j hj
    -- the children that were found run first, then absent ones with a default
    rcases List.mem_append.mp hj with hj | hj
    · exact ha' j (List.mem_reverse.mp hj)
    · obtain ⟨x, hx, rfl⟩ := List.mem_map.mp hj
      exact (hitems x (List.mem_filter.mp hx).1).2

/-! ## Repetitions -/

/-- Rounds of a repetition agree, with their results when `exact`. -/
structure RoundsAlike (exact : Bool) (x y : Rounds) : Prop where
  loc : x.loc = y.loc
  count : x.count = y.count
  failure : x.failure = y.failure
  results : exact = true → x.results = y.results

theorem takeRound_linked {acts₁ acts₂ : Bool} (hacts : K.exact = true → acts₁ = acts₂) {child : ExprId}
    (hi : K.nodes c₁.adjacent r child) {again₁ again₂ : Rounds → MatchM Rounds}
    (hagain : ∀ {x y}, RoundsAlike K.exact x y → K.Linked w r (RoundsAlike K.exact) (again₁ x) (again₂ y))
    {x y : Rounds} (hxy : RoundsAlike K.exact x y) :
    K.Linked w r (RoundsAlike K.exact) (takeRound a₁ c₁ child acts₁ again₁ x)
      (takeRound a₂ c₂ child acts₂ again₂ y) := by
  obtain ⟨loc, count, results, failure⟩ := x
  obtain ⟨loc', count', results', failure'⟩ := y
  obtain ⟨h₁, h₂, h₃, hr⟩ := hxy
  dsimp only at h₁ h₂ h₃ hr
  subst h₁ h₂ h₃
  -- from here on the rounds differ in their results at most
  refine Linked.step (ha hc hi hacts) ?_ ?_
  · intro after p₁ p₂ hp
    have hnext : RoundsAlike K.exact ⟨after, count + 1, results.extend p₁, failure⟩
        ⟨after, count + 1, results'.extend p₂, failure⟩ := ⟨rfl, rfl, rfl, fun he => by rw [hr he, hp he]⟩
    by_cases h : loc < after
    · simpa only [h, if_true] using hagain hnext
    · simpa only [h, if_false] using Linked.pure hnext
  · intro d
    exact Linked.pure ⟨rfl, rfl, rfl, hr⟩

theorem repeatRounds_linked {acts₁ acts₂ : Bool} (hacts : K.exact = true → acts₁ = acts₂) {child : ExprId}
    (hi : K.nodes c₁.adjacent r child) (max : Option Nat) {stop : Option ExprId}
    (hs : ∀ i ∈ stop, K.nodes c₁.adjacent true i) (fuel : Nat) {x y : Rounds} (hxy : RoundsAlike K.exact x y) :
    K.Linked w r (RoundsAlike K.exact) (repeatRounds a₁ c₁ child max stop acts₁ fuel x)
      (repeatRounds a₂ c₂ child max stop acts₂ fuel y) := by
  induction fuel generalizing x y with
  | zero => exact Linked.pure hxy
  | succ fuel ih =>
    obtain ⟨loc, count, results, failure⟩ := x
    obtain ⟨loc', count', results', failure'⟩ := y
    obtain ⟨h₁, h₂, h₃, hr⟩ := hxy
    dsimp only at h₁ h₂ h₃ hr
    subst h₁ h₂ h₃
    -- the round that is taken if the stop test fails
    have hround := takeRound_linked ha hc hacts hi ih (x := ⟨loc, count, results, failure⟩)
      (y := ⟨loc, count, results', failure⟩) ⟨rfl, rfl, rfl, hr⟩
    rw [repeatRounds, repeatRounds]
    by_cases hmax : max.any (fun n => decide (n ≤ count)) = true
    · rw [if_pos hmax, if_pos hmax]
      exact Linked.pure ⟨rfl, rfl, rfl, hr⟩
    · rw [if_neg hmax, if_neg hmax]
      cases stop with
      | none => exact hround
      | some i =>
        refine Linked.step (probe_linked ha hc (hs i rfl) loc) (fun _ _ _ _ => ?_) fun _ => hround
        rw [(K.alike hc).rule₁, (K.alike hc).rule₂]
        exact Linked.pure ⟨rfl, rfl, rfl, hr⟩

theorem matchRepetition_linked {acts₁ acts₂ : Bool} (hacts : K.exact = true → acts₁ = acts₂) (rule : Rule)
    {child : ExprId} (hi : K.nodes c₁.adjacent r child) (min : Nat) (max : Option Nat) {stop : Option ExprId}
    (hs : ∀ i ∈ stop, K.nodes c₁.adjacent true i) (start : Nat) :
    K.Linked w r (Step.Alike K.exact) (matchRepetition a₁ c₁ rule child min max stop start acts₁)
      (matchRepetition a₂ c₂ rule child min max stop start acts₂) := by
  rw [matchRepetition, matchRepetition, ← (K.alike hc).text]
  refine (repeatRounds_linked ha hc hacts hi max hs _ ⟨rfl, rfl, rfl, fun _ => rfl⟩).bind ?_
  intro x y hxy
  obtain ⟨hloc, hcount, hfailure, hresults⟩ := hxy
  rw [hcount, hfailure, hloc]
  split
  · exact Linked.pure (Step.Alike.refl _ _)
  · exact Linked.pure ⟨rfl, hresults⟩

/-! ## Looking behind and skipping ahead -/

theorem findBehind_linked {acts₁ acts₂ : Bool} (hacts : K.exact = true → acts₁ = acts₂) {child : ExprId}
    (hi : K.nodes c₁.adjacent true child) (positions : List Nat) :
    K.Linked w r (fun x y => x.isSome = y.isSome ∧ (K.exact = true → x = y))
      (findBehind a₁ c₁ child acts₁ positions) (findBehind a₂ c₂ child acts₂ positions) := by
  induction positions with
  | nil => exact Linked.pure ⟨rfl, fun _ => rfl⟩
  | cons p positions ih =>
    rw [findBehind, findBehind, ← (K.alike hc).text]
    refine Linked.step (Linked.recover (ha hc hi hacts)) ?_ fun _ => ih
    intro stop p₁ p₂ hp
    by_cases h : stop = c₁.text.size
    · simpa only [h, if_true] using Linked.pure ⟨rfl, fun he => by rw [hp he]⟩
    · simpa only [h, if_false] using ih

theorem tryTarget_linked {target : ExprId} (hi : K.nodes c₁.adjacent true target)
    {again₁ again₂ : Nat → MatchM (Option Nat)} (hagain : ∀ loc, K.Linked w r Eq (again₁ loc) (again₂ loc))
    (loc : Nat) : K.Linked w r Eq (tryTarget a₁ c₁ target again₁ loc) (tryTarget a₂ c₂ target again₂ loc) := by
  unfold tryTarget
  rw [(K.alike hc).rule₁, (K.alike hc).rule₂, ← (K.alike hc).text]
  refine (skipIgnorables_linked ha hc (fun j hj => K.nodes_recovering hi (by simp [hj])) loc).bind ?_
  intro a b hab
  subst hab
  refine Linked.step (Linked.recover (ha hc hi fun _ => rfl)) (fun _ _ _ _ => Linked.pure rfl) fun _ => ?_
  exact hagain _

theorem findAhead_linked {target : ExprId} (hi : K.nodes c₁.adjacent true target) {failOn : Option ExprId}
    (hf : ∀ i ∈ failOn, K.nodes c₁.adjacent true i) (fuel loc : Nat) :
    K.Linked w r Eq (findAhead a₁ c₁ target failOn fuel loc) (findAhead a₂ c₂ target failOn fuel loc) := by
  induction fuel generalizing loc with
  | zero => exact Linked.pure rfl
  | succ fuel ih =>
    -- what is done if `failOn` does not match
    have hstep := tryTarget_linked ha hc hi ih loc
    rw [findAhead, findAhead, ← (K.alike hc).text]
    by_cases h : c₁.text.size < loc
    · rw [if_pos h, if_pos h]
      exact Linked.pure rfl
    · rw [if_neg h, if_neg h]
      cases failOn with
      | none => exact hstep
      | some i =>
        exact Linked.step (probe_linked ha hc (hf i rfl) loc) (fun _ _ _ _ => Linked.pure rfl) fun _ => hstep

theorem matchSkipTo_linked {acts₁ acts₂ : Bool} (hacts : K.exact = true → acts₁ = acts₂) (rule : Rule)
    {target : ExprId} (hi : K.nodes c₁.adjacent r target) (ht : K.nodes c₁.adjacent true target)
    (includes : Bool) {failOn : Option ExprId} (hf : ∀ i ∈ failOn, K.nodes c₁.adjacent true i) (start : Nat) :
    K.Linked w r (Step.Alike K.exact) (matchSkipTo a₁ c₁ rule target includes failOn start acts₁)
      (matchSkipTo a₂ c₂ rule target includes failOn start acts₂) := by
  rw [matchSkipTo, matchSkipTo, ← (K.alike hc).text]
  refine (findAhead_linked ha hc ht hf _ start).bind ?_
  intro a b hab
  subst hab
  cases a with
  | none => exact Linked.pure (Step.Alike.refl _ _)
  | some loc =>
    cases includes with
    | false => exact Linked.pure (Step.Alike.refl _ _)
    | true =>
      refine Linked.step (ha hc hi hacts) ?_ fun d => Linked.pure rfl
      intro stop p₁ p₂ hp
      exact Linked.pure ⟨rfl, fun he => by rw [hp he]⟩

end Attempts

/-- Runs on states of their own are linked when the runs are. The states of the parse come back as they were,
but for the journal and the counts. -/
theorem aside_linked {w' : K.World} {config₁ config₂ : Config} {V : γ → δ → Prop} {m₁ : MatchM γ} {m₂ : MatchM δ}
    (hstate : K.state w' (State.initial config₁) (State.initial config₂)) (hm : K.Linked w' true V m₁ m₂) :
    K.Linked w r V (aside config₁ m₁) (aside config₂ m₂) := by
  intro s₁ s₂ hs
  have hfresh : K.state w' { State.initial config₁ with journal := s₁.journal }
      { State.initial config₂ with journal := s₂.journal } :=
    K.state_congr hstate ⟨rfl, rfl, rfl, rfl⟩ ⟨rfl, rfl, rfl, rfl⟩
  -- only the journal and the number of attempts come back
  have hback (t₁ t₂ : State) (n₁ n₂ : Nat) : K.state w
      { s₁ with journal := t₁.journal, metrics := { s₁.metrics with attempts := n₁ } }
      { s₂ with journal := t₂.journal, metrics := { s₂.metrics with attempts := n₂ } } :=
    K.state_congr hs ⟨rfl, rfl, rfl, rfl⟩ ⟨rfl, rfl, rfl, rfl⟩
  unfold aside
  rcases (hm _ _ hfresh).cases_all with ⟨e, t₁, he, h₁⟩ | ⟨e, t₂, he, h₂⟩ | ⟨e, t₁, t₂, h₁, h₂, -⟩ |
    ⟨a, b, t₁, t₂, h₁, h₂, hab, -⟩
  · rw [h₁]
    exact agree_of_deep₁ he
  · rw [h₂]
    exact agree_of_deep₂ he
  · rw [h₁, h₂]
    exact Or.inr (Or.inr ⟨rfl, fun _ _ => hback t₁ t₂ _ _⟩)
  · rw [h₁, h₂]
    exact ⟨hab, hback t₁ t₂ _ _⟩

section Attempts

variable (ha : K.Agrees a₁ a₂) (hc : K.contexts w c₁ c₂)
include ha hc

theorem matchPrecededBy_linked {acts₁ acts₂ : Bool} (hacts : K.exact = true → acts₁ = acts₂) (rule : Rule)
    {child : ExprId} (hi : K.nodes false true child) (retreat : Option Nat) (start : Nat) :
    K.Linked w r (Step.Alike K.exact) (matchPrecededBy a₁ c₁ rule child retreat start acts₁)
      (matchPrecededBy a₂ c₂ rule child retreat start acts₂) := by
  obtain ⟨w', hc', hstate⟩ := K.behind hc start
  simp only [matchPrecededBy]
  rw [← (K.alike hc').text]
  refine Linked.bind (aside_linked hstate (findBehind_linked ha hc' hacts hi _)) ?_
  intro a b hab
  obtain ⟨hsome, heq⟩ := hab
  cases a with
  | none =>
    obtain rfl : b = none := by simpa using hsome.symm
    exact Linked.pure (Step.Alike.refl _ _)
  | some r₁ =>
    obtain ⟨r₂, rfl⟩ : ∃ r₂, b = some r₂ := by simpa [Option.isSome_iff_exists] using hsome.symm
    exact Linked.pure ⟨rfl, fun he => by rw [Option.some.inj (heq he)]⟩

end Attempts

/-! ## Actions -/

theorem notes_linked (lines₁ lines₂ : List String) :
    K.Linked w r (fun _ _ => True) (MatchM.notes lines₁) (MatchM.notes lines₂) :=
  Linked.of_sameTables (fun _ => ⟨_, rfl, rfl, rfl, rfl, rfl⟩) fun _ => ⟨_, rfl, rfl, rfl, rfl, rfl⟩

/-- An action that never refuses leaves a match up to the same end. -/
theorem runAction_accepts {action : Action} (h : action.Accepts) (c : Context) (start stop : Nat)
    (results : Results) (s : State) :
    ∃ results' s', runAction c action start stop results s = .ok (.matched stop results') s' ∧
      s'.SameTables s := by
  obtain ⟨results', h'⟩ := h ⟨c.text, start, stop⟩ results
  let notes := (action.run ⟨c.text, start, stop⟩ results).notes
  refine ⟨results', { s with journal := (notes.map Event.note).reverse ++ s.journal }, ?_, rfl, rfl, rfl, rfl⟩
  simp only [runAction, h']
  rfl

/-- Whether an action runs makes a difference to the results only, if it runs in both runs or in neither, or
never refuses. -/
theorem transform_linked (hc : K.contexts w c₁ c₂) {action : Action} {acts₁ acts₂ : Bool}
    (hacts : K.exact = true → acts₁ = acts₂) (start stop : Nat) {r₁ r₂ : Results}
    (hr : K.exact = true → r₁ = r₂) (haction : K.exact = false → action.Accepts) :
    K.Linked w r (Step.Alike K.exact)
      (if acts₁ = true then runAction c₁ action start stop r₁ else pure (.matched stop r₁))
      (if acts₂ = true then runAction c₂ action start stop r₂ else pure (.matched stop r₂)) := by
  cases he : K.exact with
  | true =>
    rw [hacts he, hr he]
    cases acts₂ with
    | false => exact Linked.pure (Step.Alike.refl _ _)
    | true =>
      simp only [if_true, runAction, ← (K.alike hc).text]
      rw [← he]
      refine (notes_linked _ _).bind fun _ _ _ => ?_
      split
      · exact Linked.pure (Step.Alike.refl _ _)
      · exact Linked.pure (Step.Alike.refl _ _)
      · exact Linked.halt _
      · exact Linked.halt _
      · exact Linked.halt _
  | false =>
    -- either way the match stays one up to `stop`
    have hends : ∀ (c : Context) (acts : Bool) (results : Results) (s : State), ∃ results' s',
        (if acts = true then runAction c action start stop results else pure (.matched stop results)) s
          = .ok (.matched stop results') s' ∧ s'.SameTables s := by
      intro c acts results s
      cases acts with
      | true => exact runAction_accepts (haction he) c start stop results s
      | false => exact ⟨results, s, rfl, State.SameTables.refl s⟩
    intro s₁ s₂ hs
    obtain ⟨x, s₁', e₁, t₁⟩ := hends c₁ acts₁ r₁ s₁
    obtain ⟨y, s₂', e₂, t₂⟩ := hends c₂ acts₂ r₂ s₂
    rw [e₁, e₂]
    exact ⟨⟨rfl, by simp⟩, K.state_congr hs t₁ t₂⟩

/-! ## Nodes -/

/-- Linked attempts make linked matches of a node, if its forward, its longest choice and its action are taken
care of where these are not compared exactly. -/
theorem matchNode_linked (ha : K.Agrees a₁ a₂) (hc : K.contexts w c₁ c₂) {i : ExprId}
    (hi : K.nodes c₁.adjacent r i) {acts₁ acts₂ : Bool} (hacts : K.exact = true → acts₁ = acts₂) (start : Nat)
    (hforward : ∀ label target, (g.rule i).kind = .forward label (some target) →
      K.Linked w r (Step.Alike K.exact) (matchNode a₁ c₁ i (g.rule i) start acts₁)
        (matchNode a₂ c₂ i (g.rule i) start acts₂))
    (hlongest : K.exact = false → ∀ children, (g.rule i).kind = .longestChoice children →
      K.Linked w r (Step.Alike K.exact) (matchLongest a₁ c₁ (g.rule i) children start acts₁)
        (matchLongest a₂ c₂ (g.rule i) children start acts₂))
    (haction : K.exact = false → ∀ child action, (g.rule i).kind = .transform child action → action.Accepts) :
    K.Linked w r (Step.Alike K.exact) (matchNode a₁ c₁ i (g.rule i) start acts₁)
      (matchNode a₂ c₂ i (g.rule i) start acts₂) := by
  have hchild {j} (hj : j ∈ (g.rule i).kind.within) : K.nodes c₁.adjacent r j := K.nodes_within hi hj
  have honly {j} (h : (g.rule i).kind.within = [j]) : K.nodes c₁.adjacent r j := hchild (by simp [h])
  have hall {children} (h : (g.rule i).kind.within = children) : ∀ j ∈ children, K.nodes c₁.adjacent r j := by
    intro j hj
    rw [← h] at hj
    exact hchild hj
  have hrec {j} (hj : j ∈ (g.rule i).kind.recovering) : K.nodes c₁.adjacent true j :=
    K.nodes_recovering hi (by simp [hj])
  have hignore {j} (hj : j ∈ (g.rule i).ignores) : K.nodes c₁.adjacent true j :=
    K.nodes_recovering hi (by simp [hj])
  have htext := (K.alike hc).text
  cases hk : (g.rule i).kind with
  | literal | keyword | word | charsNotIn | pattern | stringEnd | lineStart | lineEnd | wordStart | wordEnd =>
    simp only [matchNode, hk, htext]
    exact Linked.pure (Step.Alike.refl _ _)
  | empty | noMatch | commit =>
    simp only [matchNode, hk]
    exact Linked.pure (Step.Alike.refl _ _)
  | sequence children =>
    simp only [matchNode, hk]
    exact matchSequence_linked ha hc hacts (hall (by rw [hk]; rfl)) _ _ _ fun _ => rfl
  | orderedChoice children =>
    simp only [matchNode, hk]
    exact matchFirst_linked ha hc hacts _ _ (hall (by rw [hk]; rfl)) _
  | longestChoice children =>
    simp only [matchNode, hk]
    cases he : K.exact with
    | false =>
      rw [← he]
      exact hlongest he children hk
    | true =>
      rw [hacts he, ← he]
      exact matchLongest_linked ha hc he _ _ _ (hall (by rw [hk]; rfl))
  | each children =>
    simp only [matchNode, hk]
    exact matchEach_linked ha hc hacts (hall (by rw [hk]; rfl)) _
  | repetition child min max stop =>
    simp only [matchNode, hk]
    exact matchRepetition_linked ha hc hacts _ (hchild (by simp [hk, NodeKind.within, NodeKind.children])) _ _
      (fun j hj => hrec (by simpa [hk, NodeKind.recovering] using hj)) _
  | optional child default =>
    simp only [matchNode, hk]
    refine Linked.step (ha hc (honly (by rw [hk]; rfl)) hacts) ?_ fun _ => ?_
    · intro stop p₁ p₂ hp
      exact Linked.pure ⟨rfl, hp⟩
    · rw [(K.alike hc).rule₁, (K.alike hc).rule₂]
      exact Linked.pure (Step.Alike.refl _ _)
  | lookahead child =>
    simp only [matchNode, hk]
    refine Linked.step (Linked.recover (ha hc (hrec (by simp [hk, NodeKind.recovering])) hacts)) ?_
      fun _ => Linked.pure rfl
    intro stop p₁ p₂ hp
    exact Linked.pure ⟨rfl, fun he => by rw [hp he]⟩
  | notAhead child =>
    simp only [matchNode, hk]
    exact Linked.step (probe_linked ha hc (hrec (by simp [hk, NodeKind.recovering])) _)
      (fun _ _ _ _ => Linked.pure rfl) fun _ => Linked.pure (Step.Alike.refl _ _)
  | precededBy child retreat =>
    simp only [matchNode, hk]
    exact matchPrecededBy_linked ha hc hacts _ (K.nodes_behind hi hk) _ _
  | forward label target =>
    cases target with
    | none =>
      simp only [matchNode, hk]
      exact Linked.halt _
    | some target => exact hforward label target hk
  | transform child action =>
    simp only [matchNode, hk]
    refine Linked.step (ha hc (honly (by rw [hk]; rfl)) hacts) ?_ fun _ => Linked.pure rfl
    intro stop p₁ p₂ hp
    exact transform_linked hc hacts start stop hp fun he => haction he child action hk
  | named child name accumulates =>
    simp only [matchNode, hk, (K.alike hc).rule₁, (K.alike hc).rule₂]
    exact Linked.map _ (ha hc (honly (by rw [hk]; rfl)) hacts)
  | group child | dict child | suppress child =>
    simp only [matchNode, hk]
    exact Linked.map _ (ha hc (honly (by rw [hk]; rfl)) hacts)
  | combine child joiner =>
    simp only [matchNode, hk]
    exact Linked.map _ (ha (K.combined hc) (K.nodes_combined hi hk) hacts)
  | originalText child =>
    simp only [matchNode, hk, htext]
    refine Linked.step (ha hc (honly (by rw [hk]; rfl)) hacts) ?_ fun _ => Linked.pure rfl
    intro stop p₁ p₂ hp
    exact Linked.pure ⟨rfl, fun he => by rw [hp he]⟩
  | skipTo target includes failOn =>
    simp only [matchNode, hk]
    exact matchSkipTo_linked ha hc hacts _ (hchild (by simp [hk, NodeKind.within, NodeKind.children]))
      (hrec (by simp [hk, NodeKind.recovering])) _
      (fun j hj => hrec (by simp [hk, NodeKind.recovering, Option.mem_def.mp hj])) _
  | stringStart =>
    simp only [matchNode, hk]
    refine (atTextStart_linked ha hc (fun j hj => hignore hj) start).bind ?_
    intro a b hab
    subst hab
    split
    · exact Linked.pure (Step.Alike.refl _ _)
    · exact Linked.pure (Step.Alike.refl _ _)

theorem reportStep_linked (watched₁ watched₂ : Bool) (i : ExprId) (start : Nat) (x y : Step) :
    K.Linked w r (fun _ _ => True) (reportStep watched₁ i start x) (reportStep watched₂ i start y) :=
  Linked.of_sameTables (reportStep_sameTables _ _ _ _) (reportStep_sameTables _ _ _ _)

/-- Attempts without memory are linked when what they match is, wherever they begin, as long as skipping leads to one
place. -/
theorem perform_linked_of_skip (hc : K.contexts w c₁ c₂) {i : ExprId} {acts₁ acts₂ : Bool} {p₁ p₂ : Nat}
    {skips₁ skips₂ : Bool}
    (hskip : K.Linked w r Eq (if skips₁ then skipLeading a₁ c₁ (g.rule i) p₁ else pure p₁)
      (if skips₂ then skipLeading a₂ c₂ (g.rule i) p₂ else pure p₂))
    (hnode : ∀ start, K.Linked w r (Step.Alike K.exact) (matchNode a₁ c₁ i (g.rule i) start acts₁)
      (matchNode a₂ c₂ i (g.rule i) start acts₂)) :
    K.Linked w r (Step.Alike K.exact) (perform a₁ c₁ i p₁ acts₁ skips₁) (perform a₂ c₂ i p₂ acts₂ skips₂) := by
  simp only [perform, (K.alike hc).rule₁, (K.alike hc).rule₂]
  refine (Linked.of_sameTables (reportTry_sameTables _ _ _ _) (reportTry_sameTables _ _ _ _)).bind fun _ _ _ => ?_
  have hrest (start : Nat) : K.Linked w r (Step.Alike K.exact)
      (do let step ← matchNode a₁ c₁ i (g.rule i) start acts₁
          reportStep (c₁.watch.wants (g.rule i)) i start (step.mapResults (ResultsOf.withOrigin i))
          return step.mapResults (ResultsOf.withOrigin i))
      (do let step ← matchNode a₂ c₂ i (g.rule i) start acts₂
          reportStep (c₂.watch.wants (g.rule i)) i start (step.mapResults (ResultsOf.withOrigin i))
          return step.mapResults (ResultsOf.withOrigin i)) := by
    refine (hnode start).bind ?_
    intro x y hxy
    refine (reportStep_linked _ _ _ _ _ _).bind fun _ _ _ => ?_
    exact Linked.pure (hxy.mapResults _)
  -- either run skips, or begins where it is
  cases skips₁ <;> cases skips₂ <;> exact hskip.bind fun start _ hstart => hstart ▸ hrest start

/-- An attempt without memory is linked when what it skips and what it matches is. -/
theorem perform_linked (ha : K.Agrees a₁ a₂) (hc : K.contexts w c₁ c₂) {i : ExprId}
    (hi : K.nodes c₁.adjacent r i) {acts₁ acts₂ : Bool} (p : Nat) (skips : Bool)
    (hnode : ∀ start, K.Linked w r (Step.Alike K.exact) (matchNode a₁ c₁ i (g.rule i) start acts₁)
      (matchNode a₂ c₂ i (g.rule i) start acts₂)) :
    K.Linked w r (Step.Alike K.exact) (perform a₁ c₁ i p acts₁ skips) (perform a₂ c₂ i p acts₂ skips) := by
  refine perform_linked_of_skip hc ?_ hnode
  cases skips with
  | true => exact skipLeading_linked ha hc (fun j hj => K.nodes_recovering hi (by simp [hj])) p
  | false => exact Linked.pure rfl

/-- An attempt without memory is linked where forwards grow no seeds, if its longest choice and its action are taken
care of where these are not compared exactly. -/
theorem perform_linked_of_seedless (ha : K.Agrees a₁ a₂) (hc : K.contexts w c₁ c₂)
    (hseedless₁ : c₁.config.memoization ≠ .leftRecursion) (hseedless₂ : c₂.config.memoization ≠ .leftRecursion)
    {i : ExprId} (hi : K.nodes c₁.adjacent r i) {acts₁ acts₂ : Bool} (hacts : K.exact = true → acts₁ = acts₂)
    (p : Nat) (skips : Bool)
    (hlongest : K.exact = false → ∀ children, (g.rule i).kind = .longestChoice children → ∀ start,
      K.Linked w r (Step.Alike K.exact) (matchLongest a₁ c₁ (g.rule i) children start acts₁)
        (matchLongest a₂ c₂ (g.rule i) children start acts₂))
    (haction : K.exact = false → ∀ child action, (g.rule i).kind = .transform child action → action.Accepts) :
    K.Linked w r (Step.Alike K.exact) (perform a₁ c₁ i p acts₁ skips) (perform a₂ c₂ i p acts₂ skips) := by
  apply perform_linked ha hc hi p skips
  intro start
  apply matchNode_linked ha hc hi hacts start
  · intro label target hk
    rw [matchNode_forward hseedless₁ hk, matchNode_forward hseedless₂ hk]
    exact ha hc (K.nodes_within hi (by simp [hk, NodeKind.within, NodeKind.children])) hacts
  · exact fun he children hk => hlongest he children hk start
  · exact haction

end Coupling
end Packrat
