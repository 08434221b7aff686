import Packrat.Parser
import Packrat.Proofs.Coupling.Runs
import Packrat.Proofs.Seeds.Frame

/-!
# `Packrat.Proofs.Seeds.DirectFold` — direct left recursion is a left fold

A forward `r` stands for `r x → f | y`, where nothing in `x` and `y` recurs. Its growth starts from the match of
`y`; each further round finds the match of the round before under the seed of `r`, matches one more `x` after it,
and has `f` fold the results of both to those of the next match. Growth ends where no `x` gets any further.

Each round is made without actions and then with them, on seeds of their own. The seeds with and without actions end
at the same place, for no action refuses a match.

## Contents

* `DirectFold` — the shape of such grammars;
* `DirectFold.Folds`, `Stops` — the left fold, and where it ends;
* `choice_ends` — what one round comes to, given the seed;
* `growRounds_ends` — all rounds, by induction on what is left of the text;
* `DirectFold.parse_eq_fold` — **a parse is the left fold**, or exceeds the bound on its rounds.
-/

namespace Packrat

/-! ## The shape -/

/-- The root is a forward for the choice between `grown` and `base`, and `grown` is an action on the sequence of the
forward and `tail`. The nodes skip the default whitespace, and none has ignorables. What `base` and `tail` reach are
no forwards and no actions that refuse a match, and `base` and `tail` do not halt. -/
structure DirectFold (g : Grammar) where
  rule : ExprId
  choice : ExprId
  grown : ExprId
  pair : ExprId
  base : ExprId
  tail : ExprId
  fold : Action
  root : g.root = rule
  rule_kind : ∃ label, (g.rule rule).kind = .forward label (some choice)
  choice_kind : (g.rule choice).kind = .orderedChoice [grown, base]
  grown_kind : (g.rule grown).kind = .transform pair fold
  pair_kind : (g.rule pair).kind = .sequence [rule, tail]
  ignores : ∀ i, (g.rule i).ignores = []
  skips : ∀ i ∈ [rule, grown, pair, base],
    (g.rule i).skipsWhitespace = true ∧ (g.rule i).whitespace = g.defaultWhitespace
  /-- A commit marker is passed without an attempt; it skips nothing. -/
  marker : (g.rule tail).kind.isCommit = true → (g.rule tail).skipsWhitespace = false
  fold_accepts : fold.Accepts
  apart : ∀ i ∈ [base, tail], ∀ j, g.Reaches i j → ¬ g.IsForward j
  accepting : ∀ i ∈ [base, tail], g.Accepting (g.Reaches i)
  quiet : ∀ i ∈ [base, tail], g.Quiet i

namespace DirectFold

variable {g : Grammar} (D : DirectFold g) (t : Text)

/-! ## The left fold -/

/-- The first position that is not default whitespace. -/
def start (_ : DirectFold g) (t : Text) : Nat := t.skip g.defaultWhitespace.contains 0

/-- The answer of a node at a position, after it has skipped, with or without actions. -/
def Comes (_ : DirectFold g) (t : Text) (i : ExprId) (p : Nat) (acts : Bool) (step : Step) : Prop :=
  g.Settles t ⟨i, p, acts, true, false⟩ (.ok step)

/-- What the action folds: the results so far and those of one more `tail`. -/
def extended (r x : Results) : Results := ((({} : Results).extend r).extend x).withOrigin D.pair

/-- **The left fold.** After `n` steps it ends at a position with results: it starts with the match of `base`,
and one step takes the next `tail`, if that gets further, and has the action fold its results in. -/
inductive Folds : (n stop : Nat) → Results → Prop
  | base {stop r} : D.Comes t D.base (D.start t) true (.matched stop r) → Folds 0 stop r
  | step {n stop r stop' x r'} : Folds n stop r → D.Comes t D.tail stop true (.matched stop' x) → stop < stop' →
      (D.fold.run ⟨t, D.start t, stop'⟩ (D.extended r x)).outcome = .ok r' → Folds (n + 1) stop' r'

/-- The fold ends where `tail` fails or does not get further. -/
def Stops (stop : Nat) : Prop :=
  ∃ step, D.Comes t D.tail stop true step ∧ ∀ stop' x, step = .matched stop' x → stop' ≤ stop

/-- There is nothing to fold: `base` fails. -/
def Fails : Prop := ∃ d, D.Comes t D.base (D.start t) true (.failed d)

/-! ## One round -/

/-- What the sequence comes to, given the seed of the forward: one more `tail` after the seed, if it matches. -/
def PairStep (b : Bool) (seed step : Step) : Prop :=
  match seed with
  | .failed d => step = .failed d
  | .matched stop r => ∃ next, D.Comes t D.tail stop b next ∧
      step = match next with
        | .matched stop' x => .matched stop' (D.extended r x)
        | .failed d => .failed d

/-- What the choice comes to, given the seed of the forward. -/
inductive Round (b : Bool) : (seed step : Step) → Prop
  /-- One more `tail` matches, and is folded in when actions run. -/
  | grows {stop r stop' x r'} : D.Comes t D.tail stop b (.matched stop' x) →
      (b = true → (D.fold.run ⟨t, D.start t, stop'⟩ (D.extended r x)).outcome = .ok r') →
      Round b (.matched stop r) (.matched stop' (r'.withOrigin D.choice))
  /-- There is no further `tail`, and `base` matches. -/
  | restarts {seed stop r} : (∀ stop r, seed = .matched stop r → ∃ d, D.Comes t D.tail stop b (.failed d)) →
      D.Comes t D.base (D.start t) b (.matched stop r) →
      Round b seed (.matched stop (r.withOrigin D.choice))
  /-- Nothing matches. -/
  | fails {seed d d'} : (∀ stop r, seed = .matched stop r → ∃ d, D.Comes t D.tail stop b (.failed d)) →
      D.Comes t D.base (D.start t) b (.failed d) → Round b seed (.failed d')

variable {D t} {n m stop stop' : Nat} {r r' : Results}

/-- After as many steps there is one position with its results. -/
theorem Folds.unique (h : D.Folds t n stop r) (h' : D.Folds t n stop' r') : stop = stop' ∧ r = r' := by
  induction h generalizing stop' r' with
  | base hbase =>
    cases h' with
    | base hbase' => simpa using hbase.eq hbase'
  | step _ htail _ hfold ih =>
    cases h' with
    | step h' htail' _ hfold' =>
      obtain ⟨rfl, rfl⟩ := ih h'
      obtain ⟨rfl, rfl⟩ : _ ∧ _ := by simpa using htail.eq htail'
      rw [hfold] at hfold'
      exact ⟨rfl, Except.ok.inj hfold'⟩

/-- The fold comes by all smaller numbers of steps. -/
theorem Folds.of_le (h : D.Folds t n stop r) (hm : m ≤ n) : ∃ stop' r', D.Folds t m stop' r' := by
  induction h with
  | base hbase =>
    obtain rfl : m = 0 := Nat.le_zero.mp hm
    exact ⟨_, _, .base hbase⟩
  | @step n _ _ _ _ _ h htail hlt hfold ih =>
    rcases Nat.lt_or_ge n m with hgt | hle
    · obtain rfl : m = n + 1 := by omega
      exact ⟨_, _, .step h htail hlt hfold⟩
    · exact ih hle

/-- Beyond where the fold ends it makes no step. -/
theorem Stops.le (hstops : D.Stops t stop) (h : D.Folds t n stop r) (h' : D.Folds t m stop' r') : m ≤ n := by
  by_contra hlt
  obtain ⟨stop'', r'', hstep⟩ := h'.of_le (m := n + 1) (by omega)
  cases hstep with
  | step hn htail hfurther hfold =>
    obtain ⟨rfl, rfl⟩ := h.unique hn
    -- the step after the last one would need a `tail` that gets further
    obtain ⟨step, hcomes, hle⟩ := hstops
    obtain rfl := hcomes.eq htail
    exact absurd (hle _ _ rfl) (by omega)

theorem isBoundary_start (D : DirectFold g) (t : Text) : t.IsBoundary (D.start t) :=
  (Text.isBoundary_zero t).skip _

/-- Every step gets further into the text. -/
theorem Folds.place (h : D.Folds t n stop r) : t.IsBoundary stop ∧ D.start t + n ≤ stop := by
  induction h with
  | base hbase => exact hbase.place (D.isBoundary_start t)
  | step h htail hlt _ ih =>
    obtain ⟨hboundary, hle⟩ := ih
    have hplace := htail.place hboundary
    exact ⟨hplace.1, by omega⟩

/-- The match of `base` is where the fold starts. -/
theorem Folds.base_le (h : D.Folds t n stop r) :
    ∃ stop' r', D.Comes t D.base (D.start t) true (.matched stop' r') ∧ stop' ≤ stop := by
  induction h with
  | base hbase => exact ⟨_, _, hbase, le_refl _⟩
  | step _ _ hlt _ ih =>
    obtain ⟨stop', r', hbase, hle⟩ := ih
    exact ⟨stop', r', hbase, by omega⟩

/-! ## Answers without actions -/

/-- A match without actions ends where the one with them does. -/
theorem Comes.matched {i : ExprId} (hi : i ∈ [D.base, D.tail]) {p : Nat} {b : Bool} {x : Results}
    (h : D.Comes t i p b (.matched stop x)) (b' : Bool) : ∃ x', D.Comes t i p b' (.matched stop x') := by
  obtain ⟨step, hstep, halike⟩ := h.probe (D.accepting i hi) b'
  rcases halike.cases with ⟨_, _, x', hx, rfl, -⟩ | ⟨d, hx, -⟩
  · obtain ⟨rfl, -⟩ := Step.matched.inj hx
    exact ⟨x', hstep⟩
  · exact absurd hx (by simp)

theorem Comes.failed {i : ExprId} (hi : i ∈ [D.base, D.tail]) {p : Nat} {b : Bool} {d : Diagnostic}
    (h : D.Comes t i p b (.failed d)) (b' : Bool) : D.Comes t i p b' (.failed d) := by
  obtain ⟨step, hstep, halike⟩ := h.probe (D.accepting i hi) b'
  rcases halike.cases with ⟨_, _, _, hx, -⟩ | ⟨d', hx, rfl⟩
  · exact absurd hx (by simp)
  · obtain rfl := Step.failed.inj hx
    exact hstep

section Rounds

variable {b : Bool} {peek x x' : Results} {step : Step}

/-- A round that gets further than the fold finds one more `tail`. -/
theorem Round.exists_tail (h : D.Round t b (.matched stop peek) (.matched stop' x')) (hfolds : D.Folds t n stop r)
    (hlt : stop < stop') : ∃ x, D.Comes t D.tail stop true (.matched stop' x) := by
  cases h with
  | grows htail _ => exact htail.matched (by simp) true
  | restarts _ hbase =>
    -- `base` gets only as far as where the fold starts
    obtain ⟨x, hbase'⟩ := Comes.matched (by simp) hbase true
    obtain ⟨stop₀, r₀, hfirst, hle⟩ := hfolds.base_le
    obtain ⟨rfl, -⟩ := Step.matched.inj (hbase'.eq hfirst)
    omega

/-- A round that gets no further ends the fold. -/
theorem Round.stops (h : D.Round t b (.matched stop peek) step)
    (hle : ∀ stop' x, step = .matched stop' x → stop' ≤ stop) : D.Stops t stop := by
  have hended (hended : ∀ s r, Step.matched stop peek = .matched s r → ∃ d, D.Comes t D.tail s b (.failed d)) :
      D.Stops t stop := by
    obtain ⟨d, hd⟩ := hended stop peek rfl
    exact ⟨_, hd.failed (by simp) true, fun _ _ h => absurd h (by simp)⟩
  cases h with
  | grows htail _ =>
    obtain ⟨x, hx⟩ := htail.matched (by simp) true
    refine ⟨_, hx, ?_⟩
    intro stop'' x'' heq
    obtain ⟨rfl, -⟩ := Step.matched.inj heq
    exact hle _ _ rfl
  | restarts h _ => exact hended h
  | fails h _ => exact hended h

/-- The same round with actions folds one more `tail` in. -/
theorem Round.eq_folded (h : D.Round t true (.matched stop (r.withOrigin D.choice)) step)
    (htail : D.Comes t D.tail stop true (.matched stop' x))
    (hfold : (D.fold.run ⟨t, D.start t, stop'⟩ (D.extended r x)).outcome = .ok r') :
    step = .matched stop' (r'.withOrigin D.choice) := by
  have hended (hended : ∀ s q, Step.matched stop (r.withOrigin D.choice) = .matched s q →
      ∃ d, D.Comes t D.tail s true (.failed d)) : False := by
    obtain ⟨d, hd⟩ := hended _ _ rfl
    exact absurd (hd.eq htail) (by simp)
  cases h with
  | grows htail' hfold' =>
    obtain ⟨rfl, rfl⟩ := Step.matched.inj (htail'.eq htail)
    have heq := (hfold' rfl).symm.trans hfold
    rw [Except.ok.inj heq]
  | restarts h _ => exact absurd h hended
  | fails h _ => exact absurd h hended

/-- Without a seed the round with actions comes to the match of `base`. -/
theorem Round.eq_base {d : Diagnostic} (h : D.Round t true (.failed d) step)
    (hbase : D.Comes t D.base (D.start t) true (.matched stop r)) :
    step = .matched stop (r.withOrigin D.choice) := by
  cases h with
  | restarts _ hbase' =>
    obtain ⟨rfl, rfl⟩ := Step.matched.inj (hbase'.eq hbase)
    rfl
  | fails _ hbase' => exact absurd (hbase'.eq hbase) (by simp)

end Rounds

/-! ## Single attempts -/

/-- Halts that say that attempts nest too deeply. -/
abbrev deep (e : Halt) : Prop := e.isTooDeep = true

section Attempts

variable (D) {limit : Option Nat} {c : Context} (hc : c.Seeding g t limit) {l : Ledger} {b : Bool} {seed : Step}

/-- Where the root starts, the other nodes start too. -/
theorem lead_start {i : ExprId} (hi : i ∈ [D.rule, D.grown, D.pair, D.base]) (skips : Bool) :
    (g.rule i).lead t skips (D.start t) = D.start t := by
  unfold Rule.lead
  split
  · rw [(D.skips i hi).2]
    exact (Text.isBoundary_zero t).skip_skip _
  · rfl

theorem lead_zero : (g.rule D.rule).lead t true 0 = D.start t := by
  rw [Rule.lead, (D.skips D.rule (by simp)).1, (D.skips D.rule (by simp)).2]
  rfl

include hc

/-- The forward is answered by its seed. -/
theorem rule_ends (n : Nat) (hseed : l.seeds.get? ⟨D.start t, D.rule, b⟩ = some seed) :
    Ends deep l (attemptWithin n c D.rule (D.start t) b false) fun step l' =>
      l' = l ∧ step = seed.mapResults (ResultsOf.withOrigin D.rule) := by
  obtain ⟨label, hkind⟩ := D.rule_kind
  refine hc.attempt_ends (D.ignores _) (fun _ _ he => he) ?_
  intro m _
  exact hc.deeper.forward_ends_of_seed hkind hseed ⟨rfl, rfl⟩

/-- One more `tail` is attempted where the seed ends. -/
theorem tail_ends (n p : Nat) :
    Ends deep l (attemptWithin n c D.tail p b true) fun step l' => l' = l ∧ D.Comes t D.tail p b step :=
  hc.frame_ends (D.apart _ (by simp)) (D.quiet _ (by simp)) n p b true l

theorem base_ends (n : Nat) :
    Ends deep l (attemptWithin n c D.base (D.start t) b true) fun step l' =>
      l' = l ∧ D.Comes t D.base (D.start t) b step :=
  hc.frame_ends (D.apart _ (by simp)) (D.quiet _ (by simp)) n _ b true l

omit hc in
/-- A commit marker matches where it stands. -/
theorem marker_comes (hmarker : (g.rule D.tail).kind.isCommit = true) (p : Nat) (b : Bool) :
    D.Comes t D.tail p b (.matched p (({} : Results).withOrigin D.tail)) := by
  refine ⟨1, ?_⟩
  have hlead : (g.rule D.tail).lead t true p = p := by rw [Rule.lead, D.marker hmarker]; rfl
  have hnode (a : Attempt) (c : Context) : matchNode a c D.tail (g.rule D.tail) p b = pure (.matched p {}) := by
    cases hk : (g.rule D.tail).kind with
    | commit => simp only [matchNode, hk]
    | _ => exact absurd hmarker (by simp [hk, NodeKind.isCommit])
  let c := (plainContext g t false).deeper
  have hends : Ends (fun _ => False) ⟨.empty, 0⟩ (perform (attemptWithin 0) c D.tail p b true) fun step _ =>
      step = .matched p (({} : Results).withOrigin D.tail) := by
    refine perform_ends (D.ignores _) ?_
    rw [show (c.rule D.tail).lead c.text true p = p from hlead]
    exact (hnode _ _).symm ▸ Ends.pure rfl
  obtain ⟨_, s', -, hrun, -, rfl⟩ := hends.exists_ok (s := (State.initial {}).counted) ⟨rfl, rfl, rfl⟩
  show answerOf? (remember (attemptWithin 0) c D.tail p b true (State.initial {})) = _
  rw [remember_off rfl]
  exact congrArg answerOf? hrun

/-- The sequence takes the seed of the forward, and one more `tail`. -/
theorem pair_ends (n : Nat) (hseed : l.seeds.get? ⟨D.start t, D.rule, b⟩ = some seed) :
    Ends deep l (attemptWithin n c D.pair (D.start t) b false) fun step l' => l' = l ∧ D.PairStep t b seed step := by
  obtain ⟨label, hkind⟩ := D.rule_kind
  have hcommit : (c.deeper.rule D.rule).kind.isCommit = false := by rw [hc.deeper.rule, hkind]; rfl
  refine hc.attempt_ends (D.ignores _) (fun _ _ he => he) ?_
  intro m _
  rw [Rule.lead_false]
  simp only [matchNode, D.pair_kind, matchSequence, hcommit, Bool.false_eq_true, if_false, Bool.not_true]
  refine (D.rule_ends hc.deeper m hseed).bind ?_
  intro step l' h
  obtain ⟨rfl, rfl⟩ := h
  cases seed with
  | failed d => exact Ends.pure ⟨rfl, rfl⟩
  | matched stop r =>
    rw [hc.deeper.rule]
    cases hmarker : (g.rule D.tail).kind.isCommit with
    | true =>
      refine Ends.pure ⟨rfl, _, D.marker_comes hmarker stop b, ?_⟩
      simp [extended, ResultsOf.extend, ResultsOf.withOrigin]
    | false =>
      refine (D.tail_ends hc.deeper m stop).bind ?_
      intro next l' h
      obtain ⟨rfl, hnext⟩ := h
      cases next with
      | matched stop' x => exact Ends.pure ⟨rfl, _, hnext, rfl⟩
      | failed d => exact Ends.pure ⟨rfl, _, hnext, rfl⟩

/-- The action folds the results of the sequence. -/
theorem grown_ends (n : Nat) (hseed : l.seeds.get? ⟨D.start t, D.rule, b⟩ = some seed) :
    Ends deep l (attemptWithin n c D.grown (D.start t) b true) fun step l' => l' = l ∧
      ((∃ stop r stop' x r', seed = .matched stop r ∧ D.Comes t D.tail stop b (.matched stop' x) ∧
        (b = true → (D.fold.run ⟨t, D.start t, stop'⟩ (D.extended r x)).outcome = .ok r') ∧
        step = .matched stop' (r'.withOrigin D.grown)) ∨
      (∃ d, step = .failed d) ∧ ∀ stop r, seed = .matched stop r → ∃ d, D.Comes t D.tail stop b (.failed d)) := by
  refine hc.attempt_ends (D.ignores _) (fun _ _ he => he) ?_
  intro m _
  rw [D.lead_start (by simp)]
  simp only [matchNode, D.grown_kind]
  refine (D.pair_ends hc.deeper m hseed).bind ?_
  intro step l' h
  obtain ⟨rfl, hstep⟩ := h
  cases seed with
  | failed d =>
    obtain rfl : step = .failed d := hstep
    exact Ends.pure ⟨rfl, Or.inr ⟨⟨d, rfl⟩, fun _ _ h => absurd h (by simp)⟩⟩
  | matched stop r =>
    obtain ⟨next, hnext, rfl⟩ := hstep
    cases next with
    | failed d =>
      refine Ends.pure ⟨rfl, Or.inr ⟨⟨d, rfl⟩, fun stop' r' h => ⟨d, ?_⟩⟩⟩
      obtain ⟨rfl, rfl⟩ := Step.matched.inj h
      exact hnext
    | matched stop' x =>
      cases b with
      | false => exact Ends.pure ⟨rfl, Or.inl ⟨_, _, _, _, _, rfl, hnext, by simp, rfl⟩⟩
      | true =>
        obtain ⟨r', hr'⟩ := D.fold_accepts ⟨t, D.start t, stop'⟩ (D.extended r x)
        dsimp only
        rw [if_pos rfl]
        refine (runAction_ends (by rw [hc.deeper.text]; exact hr')).mono ?_
        intro step l' h
        obtain ⟨rfl, rfl⟩ := h
        exact ⟨rfl, Or.inl ⟨_, _, _, _, _, rfl, hnext, fun _ => hr', rfl⟩⟩

/-- **One round** comes to one more step of the fold, or to the match of `base` again. -/
theorem choice_ends (n : Nat) (hseed : l.seeds.get? ⟨D.start t, D.rule, b⟩ = some seed) :
    Ends deep l (attemptWithin n c D.choice (D.start t) b false) fun step l' => l' = l ∧ D.Round t b seed step := by
  refine hc.attempt_ends (D.ignores _) (fun _ _ he => he) ?_
  intro m _
  rw [Rule.lead_false]
  simp only [matchNode, D.choice_kind, matchFirst]
  refine (D.grown_ends hc.deeper m hseed).bind ?_
  intro step l' h
  obtain ⟨rfl, ⟨stop, r, stop', x, r', rfl, htail, hfold, rfl⟩ | ⟨⟨d₀, rfl⟩, hended⟩⟩ := h
  · have hround : D.Round t b (.matched stop r) (.matched stop' (r'.withOrigin D.choice)) := .grows htail hfold
    exact Ends.pure ⟨rfl, hround⟩
  · refine (D.base_ends hc.deeper m).bind ?_
    intro step l' h
    -- no `tail` follows the seed: the choice starts again
    obtain ⟨rfl, hbase⟩ := h
    cases step with
    | matched stop r => exact Ends.pure ⟨rfl, .restarts hended hbase⟩
    | failed d =>
      obtain ⟨d', hd'⟩ := choiceFailure_eq_failed (furthestOf (furthestOf none d₀) d) (D.start t) (g.rule D.choice)
      exact Ends.pure ⟨rfl, hd' ▸ .fails hended hbase⟩

/-! ## Growth -/

omit hc in
/-- The ways growth halts: attempts nest too deeply, or the fold makes more steps than the bound allows. -/
def GrowthHalt (D : DirectFold g) (t : Text) (bound : Nat) (e : Halt) : Prop :=
  deep e ∨ (e = .growthLimit (g.rule D.rule).display (D.start t) bound ∧ ∃ stop r, D.Folds t bound stop r)

omit hc in
/-- What growth comes to: where the fold ends, after a round for each step and one for its start. -/
def Grown (D : DirectFold g) (t : Text) (bound growths : Nat) (step : Step) (l : Ledger) : Prop :=
  ∃ n stop r, D.Folds t n stop r ∧ D.Stops t stop ∧ n + 1 ≤ bound ∧
    step = .matched stop (r.withOrigin D.choice) ∧ l.growths = growths + (n + 1)

variable {bound growths fuel m : Nat} {r : Results} {stop : Nat} {peek : Results}

omit hc in
/-- A round that is made with actions as well leaves both matches as seeds. -/
theorem advanceSeed_ends {E : Halt → Prop} (hE : ∀ e, deep e → E e) {Q : Step → Ledger → Prop} {next : MatchM Step}
    (hact : Ends deep l (attemptWithin m c D.choice (D.start t) true false) fun step l' =>
      l' = l ∧ step = .matched stop (r.withOrigin D.choice))
    (hnext : ∀ l', l'.growths = l.growths → l'.seeds.get? ⟨D.start t, D.rule, false⟩ = some (.matched stop peek) →
      l'.seeds.get? ⟨D.start t, D.rule, true⟩ = some (.matched stop (r.withOrigin D.choice)) → Ends E l' next Q) :
    Ends E l (do
      match ← advanceSeed (attemptWithin m) c ⟨D.start t, D.rule⟩ D.choice true (.matched stop peek) with
      | some d => return .failed d
      | none => next) Q := by
  intro s hs
  rcases hact.cases hs with ⟨e, s', h, he⟩ | ⟨_, s', l', h, hs', rfl, rfl⟩
  · rw [bind_error (advanceSeed_error _ h)]
    exact hE e he
  · rw [bind_ok (advanceSeed_true _ h)]
    exact hnext (l'.withSeeds (SeedKeys.advance ⟨D.start t, D.rule⟩ _ _)) rfl (SeedKeys.get?_advance_false _ _ _)
      (SeedKeys.get?_advance_true _ _ _) _ (hs'.withSeeds _)

/-- **Growth is the fold**, from any of its steps on: a round that gets further is its next step, and a round that
does not ends it. The text bounds the number of rounds. -/
theorem growRounds_ends {n : Nat} (hfolds : D.Folds t n stop r) (hn : n + 1 ≤ bound) (hfuel : t.size < stop + fuel)
    (hgrowths : l.growths = growths + (n + 1))
    (hpeek : l.seeds.get? ⟨D.start t, D.rule, false⟩ = some (.matched stop peek))
    (hact : l.seeds.get? ⟨D.start t, D.rule, true⟩ = some (.matched stop (r.withOrigin D.choice))) :
    Ends (D.GrowthHalt t bound) l (growRounds (attemptWithin m) c (g.rule D.rule) ⟨D.start t, D.rule⟩ D.choice bound
      true fuel (n + 1) ⟨some stop, .matched stop peek⟩) (D.Grown t bound growths) := by
  induction fuel generalizing n stop r peek l with
  | zero => exact absurd hfolds.place.1.le_size (by omega)
  | succ fuel ih =>
    intro s hs
    rcases (D.choice_ends hc m hpeek).cases hs with ⟨e, s', hrun, he⟩ | ⟨step, s', l', hrun, hs', rfl, hround⟩
    · rw [growRounds_error hrun]
      exact Or.inl he
    · by_cases hfurther : ∃ stop' x, step = .matched stop' x ∧ stop < stop'
      · -- one more step
        obtain ⟨stop', x', rfl, hlt⟩ := hfurther
        obtain ⟨x, htail⟩ := hround.exists_tail hfolds hlt
        obtain ⟨r', hr'⟩ := D.fold_accepts ⟨t, D.start t, stop'⟩ (D.extended r x)
        have hfolds' : D.Folds t (n + 1) stop' r' := .step hfolds htail hlt hr'
        have hend : furtherEnd (some stop) (some stop') = true := by simpa [furtherEnd] using hlt
        by_cases hlimit : bound < n + 1 + 1
        · rw [growRounds_limit hrun hend hlimit]
          obtain rfl : bound = n + 1 := by omega
          exact Or.inr ⟨rfl, stop', r', hfolds'⟩
        · rw [growRounds_grow hrun hend (by omega)]
          refine D.advanceSeed_ends (r := r') (l := l'.grown) (fun _ => Or.inl) ?_ ?_ _ hs'.grown
          · refine (D.choice_ends (l := l'.grown) hc m hact).mono fun step l'' h => ⟨h.1, ?_⟩
            exact h.2.eq_folded htail hr'
          · intro l'' hl hpeek' hact'
            exact ih hfolds' (by omega) (by omega) (by rw [hl, Ledger.grown, hgrowths]; rfl) hpeek' hact'
      · -- no further step
        have hle (stop' : Nat) (x : Results) (hstep : step = .matched stop' x) : stop' ≤ stop := by
          by_contra hgt
          exact hfurther ⟨stop', x, hstep, by omega⟩
        have hend : furtherEnd (some stop) ((Seed.mk (some stop) (.matched stop peek)).after step).stop = false := by
          cases step with
          | matched stop' x => simpa [furtherEnd, Seed.after] using hle stop' x rfl
          | failed d => simp [furtherEnd, Seed.after]
        rw [growRounds_release hrun (Or.inr rfl) hend, release_eq, if_pos rfl, hs'.seeds]
        refine ⟨_, hs'.withSeeds _, n, stop, r, hfolds, hround.stops hle, hn, ?_, hgrowths⟩
        exact congrArg (fun o : Option Step => o.getD (.matched stop peek)) hact

/-- **The forward grows to the fold**, or fails where `base` does. -/
theorem root_ends (hempty : ∀ key, l.seeds.get? key = none) :
    Ends (D.GrowthHalt t (growthBound c (D.start t))) l
      (matchNode (attemptWithin m) c D.rule (g.rule D.rule) (D.start t) true) fun step l' =>
        D.Grown t (growthBound c (D.start t)) l.growths step l' ∨ (D.Fails t ∧ ∃ d, step = .failed d) := by
  obtain ⟨label, hkind⟩ := D.rule_kind
  let opened : Ledger := l.withSeeds (SeedKeys.set ⟨D.start t, D.rule⟩ true (firstSeed (D.start t)))
  have hseeds (b : Bool) : opened.seeds.get? ⟨D.start t, D.rule, b⟩ = some (firstSeed (D.start t)) :=
    SeedKeys.get?_set_key b _ _
  rw [hc.matchNode_forward hkind]
  intro s hs
  rw [growSeed_opens (by rw [hs.seeds]; exact hempty _)]
  -- the first round, on a seed that fails
  rcases (D.choice_ends hc m (hseeds false)).cases (hs.withSeeds _) with
    ⟨e, s', hrun, he⟩ | ⟨step, s', _, hrun, hs', rfl, hround⟩
  · rw [growRounds_error hrun]
    exact Or.inl he
  · cases hround with
    | @restarts _ stop x _ hbase =>
      obtain ⟨r, hbase'⟩ := hbase.matched (by simp) true
      by_cases hlimit : growthBound c (D.start t) < 0 + 1
      · rw [growRounds_limit hrun rfl hlimit]
        refine Or.inr ⟨rfl, stop, r, ?_⟩
        rw [show growthBound c (D.start t) = 0 by omega]
        exact .base hbase'
      · rw [growRounds_grow hrun rfl (by omega)]
        refine (D.advanceSeed_ends (r := r) (Q := D.Grown t (growthBound c (D.start t)) l.growths)
          (l := opened.grown) (fun _ => Or.inl) ?_ ?_).mono (fun _ _ => Or.inl) _ hs'.grown
        · refine (D.choice_ends (l := opened.grown) hc m (hseeds true)).mono fun step l'' h => ⟨h.1, ?_⟩
          exact h.2.eq_base hbase'
        · intro l'' hl hpeek hact
          exact D.growRounds_ends hc (.base hbase') (by omega) (by rw [hc.text]; omega) hl hpeek hact
    -- `base` fails, and with it the forward
    | @fails _ d d' _ hbase =>
      rw [growRounds_refuse hrun rfl, refuse_eq]
      exact ⟨_, hs'.withSeeds _, Or.inr ⟨⟨d, hbase.failed (by simp) true⟩, d', rfl⟩⟩

omit hc in
/-- What a match of the fold is as a parse: if the whole text is wanted, only default whitespace may follow. -/
def finish (D : DirectFold g) (t : Text) (all : Bool) (stop : Nat) (r : Results) : Except ParseError Results :=
  let loc := t.skip g.defaultWhitespace.contains stop
  if all && decide (loc < t.size) then .error (.mismatch (Report.of t ⟨loc, "Expected end of text"⟩))
  else .ok (r.withOrigin D.rule)

/-- The root of a parse comes to the fold, or fails where `base` does. -/
theorem matchRoot_ends (all : Bool) (hempty : ∀ key, l.seeds.get? key = none) :
    Ends (D.GrowthHalt t (growthBound c (D.start t))) l (matchRoot c all) fun step l' =>
      (∃ n stop r, D.Folds t n stop r ∧ D.Stops t stop ∧ n + 1 ≤ growthBound c (D.start t) ∧
        l'.growths = l.growths + (n + 1) ∧ ∀ s, (resolve t (.ok step s)).1 = D.finish t all stop r) ∨
      (D.Fails t ∧ ∃ d, step = .failed d) := by
  simp only [matchRoot, hc.grammar, D.root, hc.text]
  refine Ends.bind (Q := fun step l' => (∃ n stop r, D.Folds t n stop r ∧ D.Stops t stop ∧
    n + 1 ≤ growthBound c (D.start t) ∧ step = .matched stop (r.withOrigin D.rule) ∧
      l'.growths = l.growths + (n + 1)) ∨ (D.Fails t ∧ ∃ d, step = .failed d)) ?_ ?_
  · refine hc.attempt_ends (D.ignores _) (fun _ _ he => Or.inl he) ?_
    intro m _
    rw [D.lead_zero]
    refine (D.root_ends hc.deeper hempty).mono ?_
    intro step l' h
    rcases h with ⟨n, stop, r, hfolds, hstops, hn, rfl, hgrowths⟩ | ⟨hfails, d, rfl⟩
    · exact Or.inl ⟨n, stop, r, hfolds, hstops, hn, rfl, hgrowths⟩
    · exact Or.inr ⟨hfails, d, rfl⟩
  · intro step l' h
    rcases h with ⟨n, stop, r, hfolds, hstops, hn, rfl, hgrowths⟩ | ⟨hfails, d, rfl⟩
    · cases all with
      | false => exact Ends.pure (Or.inl ⟨n, stop, r, hfolds, hstops, hn, hgrowths, fun _ => rfl⟩)
      | true =>
        have hskip : (g.rule D.rule).lead t true stop = t.skip g.defaultWhitespace.contains stop := by
          rw [Rule.lead, (D.skips D.rule (by simp)).1, (D.skips D.rule (by simp)).2]
          rfl
        simp only [Bool.not_true, Bool.false_eq_true, if_false]
        rw [skipLeading_eq (D.ignores _), hc.text, hskip, pure_bind, hfolds.place.1.skip_skip]
        by_cases hlt : t.skip g.defaultWhitespace.contains stop < t.size
        · rw [if_pos hlt]
          have hfinish (s : State) : (resolve t (.ok (.failed ⟨t.skip g.defaultWhitespace.contains stop,
              "Expected end of text"⟩) s)).1 = D.finish t true stop r := by
            simp [resolve, finish, hlt]
          exact Ends.pure (Or.inl ⟨n, stop, r, hfolds, hstops, hn, hgrowths, hfinish⟩)
        · rw [if_neg hlt]
          have hfinish (s : State) : (resolve t (.ok (.matched (t.skip g.defaultWhitespace.contains stop)
              (r.withOrigin D.rule)) s)).1 = D.finish t true stop r := by
            simp [resolve, finish, hlt]
          exact Ends.pure (Or.inl ⟨n, stop, r, hfolds, hstops, hn, hgrowths, hfinish⟩)
    · exact Ends.pure (Or.inr ⟨hfails, d, rfl⟩)

end Attempts

/-! ## Parses -/

section Parse

variable (D) (config : Config) (hmode : config.memoization = .leftRecursion) (watch : Watch) (all : Bool)

/-- What a parse comes to when the fold ends after `n` steps: the fold, unless a bound allows fewer rounds. -/
def result (t : Text) (n stop : Nat) (r : Results) : Except ParseError Results :=
  match config.growthLimit with
  | some bound =>
    if bound < n + 1 then .error (.growthLimit (g.rule D.rule).display (D.start t) bound) else D.finish t all stop r
  | none => D.finish t all stop r

include hmode

/-- A parse that does not nest too deeply fails, comes to the fold, or takes more rounds than it may. -/
theorem parse_cases (t : Text) (hdeep : ¬ TooDeep (g.parse config watch t all).outcome) :
    let view := viewOf config t
    let run := (Parser.new g config watch).parse t all
    (D.Fails view ∧ ∃ report, run.1.outcome = .error (.mismatch report)) ∨
      (∃ n stop r, D.Folds view n stop r ∧ D.Stops view stop ∧ (∀ bound ∈ config.growthLimit, n + 1 ≤ bound) ∧
        run.2.metrics.growths = n + 1 ∧ run.1.outcome = D.finish view all stop r) ∨
      ∃ bound ∈ config.growthLimit, (∃ stop r, D.Folds view bound stop r) ∧
        run.1.outcome = .error (.growthLimit (g.rule D.rule).display (D.start view) bound) := by
  intro view run
  let c := Context.top g config watch view
  let s : State := { (State.initial config).forget with journal := [] }
  have hc : c.Seeding g view config.growthLimit := ⟨rfl, rfl, hmode, rfl, rfl⟩
  have hof : Ledger.Of ⟨.empty, 0⟩ s := by
    refine ⟨?_, rfl, rfl⟩
    show (Memo.ofStrategy config.memoization).clear = .off
    rw [hmode]
    rfl
  have houtcome : run.1.outcome = (resolve view (matchRoot c all s)).1 := rfl
  have hgrowths : run.2.metrics.growths = (resolve view (matchRoot c all s)).2.metrics.growths := rfl
  have hbound (bound : Nat) (h : bound ∈ config.growthLimit) : growthBound c (D.start view) = bound := by
    show config.growthLimit.getD _ = bound
    rw [Option.mem_def.mp h]
    rfl
  rcases (D.matchRoot_ends hc all (l := ⟨.empty, 0⟩) fun _ => rfl).cases hof with
    ⟨e, s', hrun, he⟩ | ⟨step, s', l', hrun, hs', hends⟩
  · rw [hrun] at houtcome
    rcases he with he | ⟨rfl, stop, r, hfolds⟩
    · exact absurd (houtcome ▸ tooDeep_toError view he) hdeep
    · cases hlimit : config.growthLimit with
      | none =>
        -- the text has no room for so many steps
        have hnone : growthBound c (D.start view) = view.size - D.start view + 1 := by
          show config.growthLimit.getD _ = _
          rw [hlimit]
          rfl
        rw [hnone] at hfolds
        have := hfolds.place.1.le_size
        have := hfolds.place.2
        omega
      | some bound =>
        rw [hbound bound hlimit] at hfolds houtcome
        exact Or.inr (Or.inr ⟨bound, rfl, ⟨stop, r, hfolds⟩, houtcome⟩)
  · rw [hrun] at houtcome hgrowths
    rcases hends with ⟨n, stop, r, hfolds, hstops, hn, hl, hfinish⟩ | ⟨hfails, d, rfl⟩
    · refine Or.inr (Or.inl ⟨n, stop, r, hfolds, hstops, fun bound h => hbound bound h ▸ hn, ?_, ?_⟩)
      · have hstate : (resolve view (.ok step s')).2 = s' := by cases step <;> rfl
        rw [hgrowths, hstate, hs'.growths, hl, Nat.zero_add]
      · rw [houtcome, hfinish]
    · exact Or.inl ⟨hfails, _, houtcome⟩

/-- **A parse is the left fold.** Where `base` fails the parse fails. Otherwise it comes to the results of the fold
where that ends, after one round of growth for each step and one for its start; and a bound on the rounds is exceeded
exactly when it is smaller. -/
theorem parse_eq_fold (t : Text) (hdeep : ¬ TooDeep (g.parse config watch t all).outcome) :
    let view := viewOf config t
    let run := (Parser.new g config watch).parse t all
    (D.Fails view → ∃ report, run.1.outcome = .error (.mismatch report)) ∧
      (∀ n stop r, D.Folds view n stop r → D.Stops view stop →
        run.1.outcome = D.result config all view n stop r ∧
          ((∀ bound ∈ config.growthLimit, n + 1 ≤ bound) → run.2.metrics.growths = n + 1)) ∧
      (D.Fails view ∨ (∃ n stop r, D.Folds view n stop r ∧ D.Stops view stop) ∨
        ∃ bound ∈ config.growthLimit, (∃ stop r, D.Folds view bound stop r) ∧
          run.1.outcome = .error (.growthLimit (g.rule D.rule).display (D.start view) bound)) := by
  intro view run
  have hnot {n stop : Nat} {r : Results} (hfails : D.Fails view) (hfolds : D.Folds view n stop r) : False := by
    obtain ⟨d, hd⟩ := hfails
    obtain ⟨stop', r', hbase, -⟩ := hfolds.base_le
    exact absurd (hd.eq hbase) (by simp)
  rcases D.parse_cases config hmode watch all t hdeep with
    ⟨hfails, hreport⟩ | ⟨n, stop, r, hfolds, hstops, hle, hgrowths, houtcome⟩ |
    ⟨bound, hbound, ⟨stop, r, hfolds⟩, houtcome⟩
  · exact ⟨fun _ => hreport, fun n stop r hfolds => (hnot hfails hfolds).elim, Or.inl hfails⟩
  · refine ⟨fun hfails => (hnot hfails hfolds).elim, ?_,
      Or.inr (Or.inl ⟨n, stop, r, hfolds, hstops⟩)⟩
    intro n' stop' r' hfolds' hstops'
    -- the fold ends in one place only
    obtain rfl : n = n' := Nat.le_antisymm (hstops'.le hfolds' hfolds) (hstops.le hfolds hfolds')
    obtain ⟨rfl, rfl⟩ := hfolds.unique hfolds'
    refine ⟨houtcome.trans ?_, fun _ => hgrowths⟩
    unfold result
    cases hlimit : config.growthLimit with
    | none => rfl
    | some bound =>
      have := hle bound hlimit
      exact (if_neg (by omega)).symm
  · refine ⟨fun hfails => (hnot hfails hfolds).elim, ?_,
      Or.inr (Or.inr ⟨bound, hbound, ⟨stop, r, hfolds⟩, houtcome⟩)⟩
    intro n' stop' r' hfolds' hstops'
    have hle := hstops'.le hfolds' hfolds
    refine ⟨houtcome.trans ?_, fun h => absurd (h bound hbound) (by omega)⟩
    unfold result
    rw [Option.mem_def.mp hbound]
    exact (if_pos (by omega)).symm

end Parse
end DirectFold

/-- A list of `x` after a `y`, in which each step of the fold makes a group. -/
def nested : Grammar :=
  Grammar.ofKinds [.literal "x" false, .literal "y" false, .forward "r" (some 5), .sequence [2, 0],
    .transform 3 (.ofMap fun r => ResultsOf.single (.group r)), .orderedChoice [4, 1]] 2

/-- Nested groups have the shape. -/
def nested_directFold : DirectFold nested where
  rule := 2
  choice := 5
  grown := 4
  pair := 3
  base := 1
  tail := 0
  fold := .ofMap fun r => ResultsOf.single (.group r)
  root := rfl
  rule_kind := ⟨"r", rfl⟩
  choice_kind := rfl
  grown_kind := rfl
  pair_kind := rfl
  ignores i := Grammar.ignores_ofKinds _ _ i
  skips := by
    intro i hi
    simp only [List.mem_cons, List.not_mem_nil, or_false] at hi
    rcases hi with rfl | rfl | rfl | rfl <;> exact ⟨rfl, rfl⟩
  marker h := absurd h (by decide)
  fold_accepts _ r := ⟨ResultsOf.single (.group r), rfl⟩
  apart := by
    intro i hi j hj hforward
    simp only [List.mem_cons, List.not_mem_nil, or_false] at hi
    obtain ⟨label, target, hk⟩ := hforward
    rcases hi with rfl | rfl
    · rw [hj.eq_self rfl] at hk
      exact absurd hk (by simp [nested, Grammar.ofKinds, Grammar.rule])
    · rw [hj.eq_self rfl] at hk
      exact absurd hk (by simp [nested, Grammar.ofKinds, Grammar.rule])
  accepting := by
    intro i hi j child action hj hk
    simp only [List.mem_cons, List.not_mem_nil, or_false] at hi
    rcases hi with rfl | rfl
    · rw [hj.eq_self rfl] at hk
      exact absurd hk (by simp [nested, Grammar.ofKinds, Grammar.rule])
    · rw [hj.eq_self rfl] at hk
      exact absurd hk (by simp [nested, Grammar.ofKinds, Grammar.rule])
  quiet := by
    intro i hi
    simp only [List.mem_cons, List.not_mem_nil, or_false] at hi
    rcases hi with rfl | rfl
    · exact Grammar.quiet_literal rfl rfl
    · exact Grammar.quiet_literal rfl rfl

theorem parse_eq_fold_nested :
    ¬ TooDeep (nested.parse Config.leftRecursion default ['y', ' ', 'x', 'x'] true).outcome ∧
      (nested_directFold.Fails (viewOf Config.leftRecursion ['y', ' ', 'x', 'x']) →
        ∃ report, ((Parser.new nested Config.leftRecursion default).parse ['y', ' ', 'x', 'x'] true).1.outcome
          = .error (.mismatch report)) ∧
      ∀ n stop r, nested_directFold.Folds (viewOf Config.leftRecursion ['y', ' ', 'x', 'x']) n stop r →
        nested_directFold.Stops (viewOf Config.leftRecursion ['y', ' ', 'x', 'x']) stop →
        ((Parser.new nested Config.leftRecursion default).parse ['y', ' ', 'x', 'x'] true).1.outcome
            = nested_directFold.result Config.leftRecursion true (viewOf Config.leftRecursion ['y', ' ', 'x', 'x']) n stop r ∧
          ((∀ bound ∈ Config.leftRecursion.growthLimit, n + 1 ≤ bound) →
            ((Parser.new nested Config.leftRecursion default).parse ['y', ' ', 'x', 'x'] true).2.metrics.growths = n + 1) := by
  have hdeep : ¬ TooDeep (nested.parse Config.leftRecursion default ['y', ' ', 'x', 'x'] true).outcome := by
    decide +kernel
  have h := nested_directFold.parse_eq_fold Config.leftRecursion rfl default true ['y', ' ', 'x', 'x'] hdeep
  exact ⟨hdeep, h.1, h.2.1⟩

end Packrat
