import Packrat.Proofs.Placement.Nodes

/-!
# `Packrat.Proofs.Tables.Matching` — what matching records

Matching makes results of the text, of defaults and of what actions give, and it makes results of other results in a few
ways: it puts them after each other, names their tokens, groups them, and so on. A property of results that is kept in
all these ways holds of all results that matching with a grammar comes to: of those that it answers with, and of those
that it remembers, keeps as seeds, or reports.

## Contents

* `Grammar.Preserves` — a property of results that all ways of recording keep;
* `State.All`, `Records` — tables and journals whose results have a property, and runs that keep them so;
* `matchToken_all`, `matchSequence_records`, … — one lemma for each way of matching;
* `attemptWithin_records` — **attempts come to results with the property**, in every mode.
-/

namespace Packrat

/-- A property of results that matching with a grammar preserves: what is made of the text has it, and so has what is
made of results that have it. Defaults have it, and actions give results that have it for results that have it. -/
structure Grammar.Preserves (g : Grammar) (P : Results → Prop) : Prop where
  nothing : P {}
  text : ∀ s, P (.single (.str s))
  setText : ∀ {r} name s, P r → P (r.setField name (.str s))
  dropTokens : ∀ {r}, P r → P (r.setTokens [])
  onlyText : ∀ {r} s, P r → P (r.setTokens [.str s])
  extend : ∀ {r other}, P r → P other → P (r.extend other)
  withOrigin : ∀ {r} id, P r → P (r.withOrigin id)
  nameTokens : ∀ {r} name accumulates asList, P r → P (r.nameTokens name accumulates asList)
  group : ∀ {r}, P r → P (.single (.group r))
  nameGroupsByKey : ∀ {r}, P r → P r.nameGroupsByKey
  default : ∀ {i child v}, (g.rule i).kind = .optional child (some v) → P (.single v)
  action : ∀ {i child action}, (g.rule i).kind = .transform child action →
    ∀ {c r r'}, P r → (action.run c r).outcome = .ok r' → P r'

/-! ## Runs that keep a property of results -/

/-- A failure, or a match whose results have a property. -/
def Step.All (P : Results → Prop) : Step → Prop
  | .matched _ r => P r
  | .failed _ => True

/-- An event whose results, if it reports any, have a property. -/
def Event.All (P : Results → Prop) : Event → Prop
  | .matched _ _ _ r => P r
  | _ => True

/-- A state whose results all have a property: those that are remembered, the seeds, and what was reported. -/
structure State.All (P : Results → Prop) (s : State) : Prop where
  memo : ∀ key step, s.memo.Holds key step → step.All P
  seeds : ∀ key step, s.seeds.get? key = some step → step.All P
  journal : ∀ e ∈ s.journal, e.All P

/-- From states whose results have a property, a computation gives values with `Q` if it does not halt, and leaves such a
state. -/
abbrev Records (P : Results → Prop) {α : Type} (Q : α → Prop) (m : MatchM α) : Prop :=
  Keeps (State.All P) (fun _ => True) Q m

/-- Attempts that come to results with a property. -/
def Grammar.Attempts (g : Grammar) (P : Results → Prop) (a : Attempt) : Prop :=
  ∀ ⦃c i p acts skips⦄, c.grammar = g → Records P (Step.All P) (a c i p acts skips)

variable {P : Results → Prop} {α : Type} {Q : α → Prop}

theorem Step.all_failed (d : Diagnostic) : (Step.failed d).All P := trivial

theorem Step.All.mapResults {step : Step} (h : step.All P) {f : Results → Results} (hf : ∀ r, P r → P (f r)) :
    (step.mapResults f).All P := by
  cases step with
  | matched stop r => exact hf r h
  | failed d => trivial

namespace State.All

variable {s : State}

/-- A parse begins without remembered outcomes. -/
theorem initial (config : Config) : (State.initial config).All P where
  memo key step h := absurd h (Memo.not_holds_ofStrategy _ key step)
  seeds _ _ h := nomatch h
  journal _ h := nomatch h

theorem forget (s : State) : ({ s.forget with journal := [] } : State).All P where
  memo key step h := absurd h (Memo.not_holds_clear _ key step)
  seeds _ _ h := nomatch h
  journal _ h := nomatch h

variable (h : s.All P)
include h

/-- Only tables and journals hold results. -/
theorem congr {s' : State} (hs : s'.SameTables s) (hjournal : ∀ e ∈ s'.journal, e.All P) : s'.All P :=
  ⟨hs.memo ▸ h.memo, hs.seeds ▸ h.seeds, hjournal⟩

theorem insertSeed (key : SeedKey) {step : Step} (hstep : step.All P) :
    ({ s with seeds := s.seeds.insert key step } : State).All P := by
  refine ⟨h.memo, fun key' step' h' => ?_, h.journal⟩
  by_cases hk : key' = key
  · subst hk
    obtain rfl : step = step' := Option.some.inj ((Seeds.get?_insert_self _ _ _).symm.trans h')
    exact hstep
  · exact h.seeds key' step' ((Seeds.get?_insert_of_ne _ _ hk).symm.trans h')

theorem eraseSeed (key : SeedKey) : ({ s with seeds := s.seeds.erase key } : State).All P := by
  refine ⟨h.memo, fun key' step' h' => ?_, h.journal⟩
  by_cases hk : key' = key
  · subst hk
    exact nomatch (Seeds.get?_erase_self _ _).symm.trans h'
  · exact h.seeds key' step' ((Seeds.get?_erase_of_ne _ hk).symm.trans h')

end State.All

namespace Records

/-- What follows an attempt is kept when it is after a match and after a failure. -/
theorem step {m : MatchM Step} {f : Step → MatchM α} (hm : Records P (Step.All P) m)
    (hmatched : ∀ stop r, P r → Records P Q (f (.matched stop r))) (hfailed : ∀ d, Records P Q (f (.failed d))) :
    Records P Q (m >>= f) := by
  refine hm.bind ?_
  intro step hstep
  cases step with
  | matched stop r => exact hmatched stop r hstep
  | failed d => exact hfailed d

theorem recover {m : MatchM Step} (hm : Records P (Step.All P) m) : Records P (Step.All P) (MatchM.recover m) :=
  (Keeps.recover hm fun _ _ => trivial).mono (fun _ => id) fun _ _ => trivial

theorem note {e : Event} (he : e.All P) : Records P (fun _ => True) (MatchM.note e) :=
  Keeps.of_unit fun _ hs => ⟨_, rfl, hs.memo, hs.seeds, List.forall_mem_cons.mpr ⟨he, hs.journal⟩⟩

end Records

/-! ## Nodes that look at the text alone -/

variable {g : Grammar}

section Tokens

variable (hP : g.Preserves P)
include hP

/-- A match of a pattern records its text, and its named groups as fields. -/
theorem patternResults_all (p : Pattern) (t : Text) (m : Pattern.Match) : P (patternResults p t m) := by
  refine List.foldlRecOn _ _ (hP.text _) ?_
  intro r hr name _
  split
  · exact hP.setText _ _ hr
  · exact hr

theorem matchToken_all (rule : Rule) (t : Text) (start : Nat) : (matchToken rule t start).All P := by
  have hrun (token? : Option Text) : ((token?.map (tokenStep start)).getD (Step.failAt start rule)).All P := by
    cases token? with
    | none => trivial
    | some token => exact hP.text _
  unfold matchToken
  dsimp only
  split
  · split
    · exact hP.text _
    · trivial
  · split
    · split
      · trivial
      · exact hP.text _
    · trivial
  · exact hrun _
  · exact hrun _
  · split
    · exact patternResults_all hP _ _ _
    · trivial
  · trivial

theorem testPosition_all (rule : Rule) (t : Text) (start : Nat) : (testPosition rule t start).All P := by
  have hanswer (holds : Bool) : (if holds then Step.matched start {} else Step.failAt start rule).All P := by
    cases holds with
    | true => exact hP.nothing
    | false => trivial
  unfold testPosition
  dsimp only
  split
  · exact hanswer _
  · exact hanswer _
  · split
    · exact hP.text _
    · exact hanswer _
  · exact hanswer _
  · exact hanswer _
  · trivial

/-- What stands for an absent child is nothing, or its default. -/
theorem absentResults_all {i child : ExprId} {default : Option Value} (hk : (g.rule i).kind = .optional child default)
    (kind : NodeKind) : P (absentResults default kind) := by
  unfold absentResults
  split
  · exact hP.nothing
  · split
    · exact hP.nameTokens _ _ _ (hP.default hk)
    · exact hP.default hk

end Tokens

/-! ## Skipping -/

section Attempts

variable {a : Attempt} {c : Context} {start : Nat} (ha : g.Attempts P a) (hg : c.grammar = g)
include ha hg

theorem probe_records (i : ExprId) (p : Nat) : Records P (Step.All P) (probe a c i p) := (ha hg).recover

theorem skipOne_records (i : ExprId) (fuel p : Nat) : Records P (fun _ => True) (skipOne a c i fuel p) := by
  induction fuel generalizing p with
  | zero => exact Keeps.pure trivial
  | succ fuel ih =>
    rw [skipOne]
    refine (probe_records ha hg i p).step ?_ fun _ => Keeps.pure trivial
    intro stop r _
    dsimp only
    split
    · exact Keeps.pure (P := fun _ => True) trivial
    · exact ih stop

theorem skipEach_records (ignores : List ExprId) (p : Nat) : Records P (fun _ => True) (skipEach a c ignores p) := by
  induction ignores generalizing p with
  | nil => exact Keeps.pure trivial
  | cons i ignores ih => exact (skipOne_records ha hg i _ p).bind fun q _ => ih q

theorem skipRounds_records (ignores : List ExprId) (fuel p : Nat) :
    Records P (fun _ => True) (skipRounds a c ignores fuel p) := by
  induction fuel generalizing p with
  | zero => exact Keeps.pure trivial
  | succ fuel ih =>
    rw [skipRounds]
    refine (skipEach_records ha hg ignores p).bind ?_
    intro q _
    split
    · exact Keeps.pure (P := fun _ => True) trivial
    · exact ih q

theorem skipIgnorables_records (ignores : List ExprId) (p : Nat) :
    Records P (fun _ => True) (skipIgnorables a c ignores p) := by
  rw [skipIgnorables]
  split
  · exact Keeps.pure trivial
  · exact skipRounds_records ha hg ignores _ p

theorem skipLeading_records (rule : Rule) (p : Nat) : Records P (fun _ => True) (skipLeading a c rule p) :=
  (skipIgnorables_records ha hg rule.ignores p).bind fun _ _ => Keeps.pure trivial

theorem atTextStart_records (rule : Rule) (p : Nat) : Records P (fun _ => True) (atTextStart a c rule p) := by
  rw [atTextStart]
  split
  · exact Keeps.pure trivial
  · exact (skipLeading_records ha hg rule 0).bind fun _ _ => Keeps.pure trivial

/-! ## Sequences and choices -/

theorem matchSequence_records (hP : g.Preserves P) (acts : Bool) (children : List ExprId) (first committed : Bool)
    (loc : Nat) {results : Results} (hresults : P results) :
    Records P (Step.All P) (matchSequence a c acts children first committed loc results) := by
  induction children generalizing first committed loc results with
  | nil => exact Keeps.pure hresults
  | cons i children ih =>
    rw [matchSequence]
    split
    · exact ih false true loc hresults
    · refine Records.step (ha hg) (fun stop part hpart => ?_) fun d => ?_
      · exact ih false committed stop (hP.extend hresults hpart)
      · cases committed with
        | true => exact Keeps.halt trivial
        | false => exact Keeps.pure trivial

omit ha hg in
theorem choiceFailure_all (best : Option Diagnostic) (p : Nat) (rule : Rule) : (choiceFailure best p rule).All P := by
  unfold choiceFailure
  split
  · split <;> trivial
  · trivial

theorem matchFirst_records (rule : Rule) (acts : Bool) (children : List ExprId) (best : Option Diagnostic) :
    Records P (Step.All P) (matchFirst a c rule start acts children best) := by
  induction children generalizing best with
  | nil => exact Keeps.pure (choiceFailure_all best start rule)
  | cons i children ih => exact Records.step (ha hg) (fun _ _ hr => Keeps.pure hr) fun d => ih (furthestOf best d)

theorem findCandidates_records (children : List ExprId) {found : List Candidate} (hfound : ∀ x ∈ found, P x.results)
    (best : Option Diagnostic) :
    Records P (fun x => ∀ y ∈ x.1, P y.results) (findCandidates a c start children found best) := by
  induction children generalizing found best with
  | nil => exact Keeps.pure fun y hy => hfound y (List.mem_reverse.mp hy)
  | cons i children ih =>
    refine Records.step (ha hg) ?_ fun d => ih hfound (furthestOf best d)
    intro stop r hr
    exact ih (List.forall_mem_cons.mpr ⟨hr, hfound⟩) best

theorem tryCandidate_records (x : Candidate) {longest : Option (Nat × Results)} (hlongest : ∀ x ∈ longest, P x.2)
    (best : Option Diagnostic) {next : Option (Nat × Results) → Option Diagnostic → MatchM Step}
    (hnext : ∀ {longest} best, (∀ x ∈ longest, P x.2) → Records P (Step.All P) (next longest best)) :
    Records P (Step.All P) (tryCandidate a c start x longest best next) := by
  refine Records.step (ha hg) ?_ fun d => hnext _ hlongest
  intro stop r hr
  dsimp only
  split
  · exact Keeps.pure (P := Step.All P) hr
  · refine hnext best ?_
    split
    · exact fun y hy => Option.some.inj hy ▸ hr
    · exact hlongest

theorem matchCandidates_records (rule : Rule) (candidates : List Candidate) {longest : Option (Nat × Results)}
    (hlongest : ∀ x ∈ longest, P x.2) (best : Option Diagnostic) :
    Records P (Step.All P) (matchCandidates a c rule start candidates longest best) := by
  induction candidates generalizing longest best with
  | nil =>
    refine Keeps.pure ?_
    cases longest with
    | none => exact choiceFailure_all best start rule
    | some l => exact hlongest l rfl
  | cons x candidates ih =>
    have hrest : Records P (Step.All P)
        (tryCandidate a c start x longest best (matchCandidates a c rule start candidates)) :=
      tryCandidate_records ha hg x hlongest best fun best hl => ih hl best
    unfold matchCandidates
    cases longest with
    | none => exact hrest
    | some l =>
      dsimp only
      split
      · exact Keeps.pure (P := Step.All P) (hlongest l rfl)
      · exact hrest

theorem matchLongest_records (rule : Rule) (children : List ExprId) (acts : Bool) :
    Records P (Step.All P) (matchLongest a c rule children start acts) := by
  rw [matchLongest]
  refine (findCandidates_records ha hg children (List.forall_mem_nil _) none).bind ?_
  intro x hx
  have hsorted : ∀ y ∈ x.1.mergeSort fun a b => decide (b.stop ≤ a.stop), P y.results := fun y hy =>
    hx y (List.mem_mergeSort.mp hy)
  dsimp only
  cases acts with
  | true => exact matchCandidates_records ha hg rule _ (by simp) x.2
  | false =>
    simp only [Bool.false_eq_true, if_false]
    split
    · next y ys hy => exact Keeps.pure (P := Step.All P) (hsorted y (by rw [hy]; exact List.mem_cons_self))
    · exact Keeps.pure (choiceFailure_all _ start rule)

/-! ## Children in any order, and several times -/

theorem discoverRound_records (items : List (EachItem × Nat)) (d : Discovery) (progressed : Bool) :
    Records P (fun _ => True) (discoverRound a c items d progressed) := by
  induction items generalizing d progressed with
  | nil => exact Keeps.pure trivial
  | cons x items ih =>
    obtain ⟨item, i⟩ := x
    rw [discoverRound]
    split
    · exact ih d progressed
    · refine Records.step (ha hg) (fun stop r _ => ?_) fun _ => ih d progressed
      dsimp only
      split
      · exact ih _ true
      · exact ih d progressed

theorem discover_records (items : List (EachItem × Nat)) (fuel : Nat) (d : Discovery) :
    Records P (fun _ => True) (discover a c items fuel d) := by
  induction fuel generalizing d with
  | zero => exact Keeps.pure trivial
  | succ fuel ih =>
    rw [discover]
    refine (discoverRound_records ha hg items d false).bind ?_
    intro x _
    dsimp only
    split
    · exact ih x.1
    · exact Keeps.pure trivial

theorem runInOrder_records (hP : g.Preserves P) (acts : Bool) (order : List ExprId) (loc : Nat) {results : Results}
    (hresults : P results) : Records P (Step.All P) (runInOrder a c acts order loc results) := by
  induction order generalizing loc results with
  | nil => exact Keeps.pure hresults
  | cons i order ih =>
    refine Records.step (ha hg) ?_ fun _ => Keeps.pure trivial
    intro stop part hpart
    exact ih stop (hP.extend hresults hpart)

theorem matchEach_records (hP : g.Preserves P) (children : List ExprId) (acts : Bool) :
    Records P (Step.All P) (matchEach a c children start acts) := by
  refine (discover_records ha hg _ _ _).bind ?_
  intro found _
  dsimp only
  split
  · exact Keeps.pure (P := Step.All P) trivial
  · exact runInOrder_records ha hg hP acts _ start hP.nothing

theorem takeRound_records (hP : g.Preserves P) (child : ExprId) (acts : Bool) {again : Rounds → MatchM Rounds}
    (hagain : ∀ {r}, P r.results → Records P (fun r => P r.results) (again r)) {r : Rounds} (hr : P r.results) :
    Records P (fun r => P r.results) (takeRound a c child acts again r) := by
  refine Records.step (ha hg) ?_ fun _ => Keeps.pure hr
  intro after part hpart
  have hnext : P (r.results.extend part) := hP.extend hr hpart
  dsimp only
  split
  · exact hagain hnext
  · exact Keeps.pure (P := fun r : Rounds => P r.results) hnext

theorem repeatRounds_records (hP : g.Preserves P) (child : ExprId) (max : Option Nat) (stop : Option ExprId)
    (acts : Bool) (fuel : Nat) {r : Rounds} (hr : P r.results) :
    Records P (fun r => P r.results) (repeatRounds a c child max stop acts fuel r) := by
  induction fuel generalizing r with
  | zero => exact Keeps.pure hr
  | succ fuel ih =>
    have hround := takeRound_records ha hg hP child acts ih hr
    rw [repeatRounds]
    split
    · exact Keeps.pure hr
    · cases stop with
      | none => exact hround
      | some i => exact (probe_records ha hg i r.loc).step (fun _ _ _ => Keeps.pure hr) fun _ => hround

theorem matchRepetition_records (hP : g.Preserves P) (rule : Rule) (child : ExprId) (min : Nat) (max : Option Nat)
    (stop : Option ExprId) (acts : Bool) :
    Records P (Step.All P) (matchRepetition a c rule child min max stop start acts) := by
  refine (repeatRounds_records ha hg hP child max stop acts _ hP.nothing).bind ?_
  intro r hr
  split
  · refine Keeps.pure (P := Step.All P) ?_
    split <;> trivial
  · exact Keeps.pure (P := Step.All P) hr

/-! ## Looking behind and skipping ahead -/

theorem findBehind_records (child : ExprId) (acts : Bool) (positions : List Nat) :
    Records P (fun x => ∀ r ∈ x, P r) (findBehind a c child acts positions) := by
  induction positions with
  | nil => exact Keeps.pure fun _ h => nomatch h
  | cons p positions ih =>
    rw [findBehind]
    refine Records.step (ha hg).recover ?_ fun _ => ih
    intro stop r hr
    dsimp only
    split
    · exact Keeps.pure (P := fun x : Option Results => ∀ r ∈ x, P r) fun _ h => Option.some.inj h ▸ hr
    · exact ih

omit ha hg in
/-- A run on a state of its own leaves of its results the reported ones. -/
theorem aside_records {m : MatchM α} (config : Config) (hm : Records P Q m) : Records P Q (aside config m) := by
  intro s hs
  have hinitial : ({ State.initial config with journal := s.journal } : State).All P :=
    (State.All.initial config).congr ⟨rfl, rfl, rfl, rfl⟩ hs.journal
  have h := hm _ hinitial
  unfold aside
  cases hr : m { State.initial config with journal := s.journal } with
  | ok x s' =>
    rw [hr] at h
    exact ⟨h.1, hs.congr ⟨rfl, rfl, rfl, rfl⟩ h.2.journal⟩
  | error e s' =>
    rw [hr] at h
    exact ⟨h.1, hs.congr ⟨rfl, rfl, rfl, rfl⟩ h.2.journal⟩

theorem matchPrecededBy_records (hP : g.Preserves P) (rule : Rule) (child : ExprId) (retreat : Option Nat) (acts : Bool) :
    Records P (Step.All P) (matchPrecededBy a c rule child retreat start acts) := by
  have hbehind : (c.behind start).grammar = g := hg
  refine (aside_records c.config (findBehind_records ha hbehind child acts _)).bind ?_
  intro found hfound
  cases found with
  | none => exact Keeps.pure (P := Step.All P) trivial
  | some r => exact Keeps.pure (P := Step.All P) (hP.dropTokens (hfound r rfl))

theorem tryTarget_records (target : ExprId) {again : Nat → MatchM (Option Nat)}
    (hagain : ∀ loc, Records P (fun _ => True) (again loc)) (loc : Nat) :
    Records P (fun _ => True) (tryTarget a c target again loc) :=
  (skipIgnorables_records ha hg _ loc).bind fun _ _ =>
    Records.step (ha hg).recover (fun _ _ _ => Keeps.pure trivial) fun _ => hagain _

theorem findAhead_records (target : ExprId) (failOn : Option ExprId) (fuel loc : Nat) :
    Records P (fun _ => True) (findAhead a c target failOn fuel loc) := by
  induction fuel generalizing loc with
  | zero => exact Keeps.pure trivial
  | succ fuel ih =>
    have htarget := tryTarget_records ha hg target ih loc
    rw [findAhead]
    split
    · exact Keeps.pure trivial
    · cases failOn with
      | none => exact htarget
      | some i => exact (probe_records ha hg i loc).step (fun _ _ _ => Keeps.pure trivial) fun _ => htarget

theorem matchSkipTo_records (hP : g.Preserves P) (rule : Rule) (target : ExprId) (includes : Bool)
    (failOn : Option ExprId) (acts : Bool) :
    Records P (Step.All P) (matchSkipTo a c rule target includes failOn start acts) := by
  refine (findAhead_records ha hg target failOn _ start).bind ?_
  intro found _
  cases found with
  | none => exact Keeps.pure (P := Step.All P) trivial
  | some loc =>
    cases includes with
    | false => exact Keeps.pure (P := Step.All P) (hP.text _)
    | true =>
      refine Records.step (ha hg) ?_ fun _ => Keeps.pure trivial
      intro stop part hpart
      exact Keeps.pure (P := Step.All P) (hP.extend (hP.text _) hpart)

/-! ## Actions -/

omit ha hg in
theorem runAction_records (hP : g.Preserves P) {i child : ExprId} {action : Action}
    (hk : (g.rule i).kind = .transform child action) (stop : Nat) {results : Results} (hresults : P results) :
    Records P (Step.All P) (runAction c action start stop results) := by
  have hnotes (lines : List String) : Records P (fun _ => True) (MatchM.notes lines) := by
    refine Keeps.of_unit fun s hs => ⟨_, rfl, hs.memo, hs.seeds, fun e he => ?_⟩
    rcases List.mem_append.mp he with he | he
    · obtain ⟨line, -, rfl⟩ := List.mem_map.mp (List.mem_reverse.mp he)
      trivial
    · exact hs.journal e he
  refine (hnotes _).bind ?_
  intro _ _
  split
  · next r hr => exact Keeps.pure (P := Step.All P) (hP.action hk hresults hr)
  · exact Keeps.pure (P := Step.All P) trivial
  all_goals exact Keeps.halt trivial

/-! ## Seeds -/

omit ha hg in
theorem put_records (keys : SeedKeys) (acts : Bool) {step : Step} (hstep : step.All P) :
    Records P (fun _ => True) (keys.put acts step) := Keeps.of_unit fun _ hs => ⟨_, rfl, hs.insertSeed _ hstep⟩

omit ha hg in
theorem putAll_records (keys : SeedKeys) (acts : Bool) {step : Step} (hstep : step.All P) :
    Records P (fun _ => True) (keys.putAll acts step) := by
  refine (put_records keys false hstep).bind ?_
  intro _ _
  cases acts with
  | true => exact put_records keys true hstep
  | false => exact Keeps.pure trivial

omit ha hg in
theorem take_records (keys : SeedKeys) (acts : Bool) :
    Records P (fun x => ∀ step ∈ x, step.All P) (keys.take acts) :=
  fun _ hs => ⟨fun step hstep => hs.seeds _ step hstep, hs.eraseSeed _⟩

omit ha hg in
theorem refuse_records (keys : SeedKeys) (acts : Bool) (d : Diagnostic) :
    Records P (Step.All P) (keys.refuse acts d) :=
  (putAll_records keys acts (Step.all_failed d)).bind fun _ _ => Keeps.pure trivial

omit ha hg in
theorem release_records (keys : SeedKeys) (acts : Bool) {step : Step} (hstep : step.All P) :
    Records P (Step.All P) (keys.release acts step) := by
  refine (take_records keys false).bind ?_
  intro _ _
  cases acts with
  | false => exact Keeps.pure hstep
  | true =>
    refine (take_records keys true).bind fun taken htaken => Keeps.pure ?_
    cases taken with
    | none => exact hstep
    | some step' => exact htaken step' rfl

omit ha hg in
theorem all_after {seed : Seed} {grown : Step} (hseed : seed.step.All P) (hgrown : grown.All P) :
    (seed.after grown).step.All P := by
  cases grown with
  | matched stop r => exact hgrown
  | failed d => exact hseed

theorem advanceSeed_records (keys : SeedKeys) (target : ExprId) (acts : Bool) {step : Step} (hstep : step.All P) :
    Records P (fun _ => True) (advanceSeed a c keys target acts step) := by
  have hput : Records P (fun _ => True) (do keys.put false step; return (none : Option Diagnostic)) :=
    (put_records keys false hstep).bind fun _ _ => Keeps.pure trivial
  cases acts with
  | false => exact hput
  | true =>
    refine Records.step (ha hg) (fun stop r hr => ?_) fun d => ?_
    · have hmatched : (Step.matched stop r).All P := hr
      exact (put_records keys true hmatched).bind fun _ _ => hput
    · exact (putAll_records keys true (Step.all_failed d)).bind fun _ _ => Keeps.pure trivial

theorem growRounds_records (rule : Rule) (keys : SeedKeys) (target : ExprId) (limit : Nat) (acts : Bool)
    (fuel rounds : Nat) {seed : Seed} (hseed : seed.step.All P) :
    Records P (Step.All P) (growRounds a c rule keys target limit acts fuel rounds seed) := by
  induction fuel generalizing rounds seed with
  | zero => exact Keeps.halt trivial
  | succ fuel ih =>
    rw [growRounds]
    refine Keeps.bind (ha hg) ?_
    intro grown hgrown
    have hnext : (seed.after grown).step.All P := all_after hseed hgrown
    split
    · exact refuse_records keys acts _
    · dsimp only
      split
      · exact release_records keys acts hseed
      · split
        · exact Keeps.halt trivial
        · refine Keeps.bind (P := fun _ => True) (Keeps.of_unit fun _ hs => ⟨_, rfl, hs.memo, hs.seeds, hs.journal⟩)
            fun _ _ => ?_
          refine (advanceSeed_records ha hg keys target acts hnext).bind ?_
          intro refused _
          cases refused with
          | some d => exact Keeps.pure (P := Step.All P) trivial
          | none => exact ih (rounds + 1) hnext

theorem growSeed_records (rule : Rule) (i target : ExprId) (acts : Bool) :
    Records P (Step.All P) (growSeed a c rule i target start acts) := by
  refine Keeps.bind (P := fun x => ∀ step ∈ x, step.All P)
    (fun _ hs => ⟨fun step hstep => hs.seeds _ step hstep, hs⟩) fun found hfound => ?_
  cases found with
  | some step => exact Keeps.pure (hfound step rfl)
  | none =>
    refine (putAll_records ⟨start, i⟩ acts (Step.all_failed _)).bind ?_
    intro _ _
    exact growRounds_records ha hg rule _ target _ acts _ _ trivial

/-! ## Nodes -/

variable (hP : g.Preserves P)
include hP

/-- Every kind of node comes to results with the property. -/
theorem matchNode_records (i : ExprId) (acts : Bool) :
    Records P (Step.All P) (matchNode a c i (g.rule i) start acts) := by
  have hchanged {c' : Context} (hg' : c'.grammar = g) (child : ExprId) {f : Results → Results} (hf : ∀ r, P r → P (f r)) :
      Records P (Step.All P) (do let step ← a c' child start acts false; return step.mapResults f) :=
    Keeps.bind (ha hg') fun _ hstep => Keeps.pure (hstep.mapResults hf)
  cases hk : (g.rule i).kind with
  | literal | keyword | word | charsNotIn | pattern =>
    simp only [matchNode, hk]
    exact Keeps.pure (matchToken_all hP _ _ _)
  | stringEnd | lineStart | lineEnd | wordStart | wordEnd =>
    simp only [matchNode, hk]
    exact Keeps.pure (testPosition_all hP _ _ _)
  | empty | commit =>
    simp only [matchNode, hk]
    exact Keeps.pure hP.nothing
  | noMatch =>
    simp only [matchNode, hk]
    exact Keeps.pure trivial
  | sequence children =>
    simp only [matchNode, hk]
    exact matchSequence_records ha hg hP acts children true false start hP.nothing
  | orderedChoice children =>
    simp only [matchNode, hk]
    exact matchFirst_records ha hg _ acts children none
  | longestChoice children =>
    simp only [matchNode, hk]
    exact matchLongest_records ha hg _ children acts
  | each children =>
    simp only [matchNode, hk]
    exact matchEach_records ha hg hP children acts
  | repetition child min max stop =>
    simp only [matchNode, hk]
    exact matchRepetition_records ha hg hP _ child min max stop acts
  | optional child default =>
    simp only [matchNode, hk]
    refine Records.step (ha hg) (fun _ _ hr => Keeps.pure hr) ?_
    intro _
    exact Keeps.pure (P := Step.All P) (absentResults_all hP hk _)
  | lookahead child =>
    simp only [matchNode, hk]
    refine Records.step (ha hg).recover ?_ fun _ => Keeps.pure trivial
    intro _ _ hr
    exact Keeps.pure (P := Step.All P) (hP.dropTokens hr)
  | notAhead child =>
    simp only [matchNode, hk]
    refine (probe_records ha hg child start).step ?_ fun _ => Keeps.pure hP.nothing
    intro _ _ _
    exact Keeps.pure (P := Step.All P) trivial
  | precededBy child retreat =>
    simp only [matchNode, hk]
    exact matchPrecededBy_records ha hg hP _ child retreat acts
  | forward label target =>
    cases target with
    | none =>
      simp only [matchNode, hk]
      exact Keeps.halt trivial
    | some target =>
      simp only [matchNode, hk]
      split
      · exact growSeed_records ha hg _ i target acts
      · exact ha hg
  | transform child action =>
    simp only [matchNode, hk]
    refine Records.step (ha hg) ?_ fun _ => Keeps.pure trivial
    intro stop r hr
    cases acts with
    | false => exact Keeps.pure hr
    | true => exact runAction_records hP hk stop hr
  | named child name accumulates =>
    simp only [matchNode, hk]
    exact hchanged hg child fun _ => hP.nameTokens _ _ _
  | group child =>
    simp only [matchNode, hk]
    exact hchanged hg child fun _ => hP.group
  | dict child =>
    simp only [matchNode, hk]
    exact hchanged hg child fun _ => hP.nameGroupsByKey
  | suppress child =>
    simp only [matchNode, hk]
    exact hchanged hg child fun _ _ => hP.nothing
  | combine child joiner =>
    simp only [matchNode, hk]
    have hcombined : c.combined.grammar = g := hg
    exact hchanged hcombined child fun _ => hP.onlyText _
  | originalText child =>
    simp only [matchNode, hk]
    refine Records.step (ha hg) ?_ fun _ => Keeps.pure trivial
    intro _ _ hr
    exact Keeps.pure (P := Step.All P) (hP.onlyText _ hr)
  | skipTo target includes failOn =>
    simp only [matchNode, hk]
    exact matchSkipTo_records ha hg hP _ target includes failOn acts
  | stringStart =>
    simp only [matchNode, hk]
    refine (atTextStart_records ha hg _ start).bind ?_
    intro b _
    cases b with
    | true => exact Keeps.pure (P := Step.All P) hP.nothing
    | false => exact Keeps.pure (P := Step.All P) trivial

/-! ## Attempts -/

theorem perform_records (i : ExprId) (p : Nat) (acts skips : Bool) :
    Records P (Step.All P) (perform a c i p acts skips) := by
  have hrule : c.rule i = g.rule i := by rw [Context.rule, hg]
  have htry (watched : Bool) : Records P (fun _ => True) (reportTry c.watch watched i p) := by
    unfold reportTry
    split
    · exact Records.note trivial
    · split
      · exact Records.note trivial
      · exact Keeps.pure trivial
  have hreport (watched : Bool) (q : Nat) {step : Step} (hstep : step.All P) :
      Records P (fun _ => True) (reportStep watched i q step) := by
    unfold reportStep
    split
    · cases step with
      | matched stop r => exact Records.note (e := .matched i q stop r) hstep
      | failed d => exact Records.note trivial
    · exact Keeps.pure trivial
  have hrest (q : Nat) : Records P (Step.All P)
      (do let step ← matchNode a c i (g.rule i) q acts
          reportStep (c.watch.wants (g.rule i)) i q (step.mapResults (ResultsOf.withOrigin i))
          return step.mapResults (ResultsOf.withOrigin i)) := by
    refine (matchNode_records ha hg hP i acts).bind ?_
    intro step hstep
    have hstep : (step.mapResults (ResultsOf.withOrigin i)).All P := hstep.mapResults fun _ => hP.withOrigin i
    exact (hreport _ q hstep).bind fun _ _ => Keeps.pure hstep
  simp only [perform, hrule]
  refine (htry _).bind ?_
  intro _ _
  cases skips with
  | false => exact hrest p
  | true => exact (skipLeading_records ha hg _ p).bind fun q _ => hrest q

omit ha hg hP in
theorem consult_records (key : MemoKey) : Records P (fun x => ∀ step ∈ x, step.All P) (consult key) :=
  fun _ hs => ⟨fun step hstep => hs.memo key step (Memo.holds_of_find? hstep),
    fun key' step hstep => hs.memo key' step (Memo.holds_of_holds_find? hstep), hs.seeds, hs.journal⟩

omit ha hg hP in
theorem store_records (key : MemoKey) {step : Step} (hstep : step.All P) :
    Records P (fun _ => True) (store key step) := by
  refine Keeps.of_unit fun s hs => ⟨_, rfl, fun key' step' hk => ?_, hs.seeds, hs.journal⟩
  rcases Memo.holds_insert hk with ⟨rfl, rfl⟩ | hold
  · exact hstep
  · exact hs.memo key' step' hold

theorem remember_records (i : ExprId) (p : Nat) (acts skips : Bool) :
    Records P (Step.All P) (remember a c i p acts skips) :=
  Upkeep.remember_keeps (fun {s} hs => hs.congr s.counted_sameTables hs.journal)
    (perform_records ha hg hP i p acts _) (consult_records _) fun _ hstep => store_records _ hstep

end Attempts

/-- **Attempts come to results with a property that matching preserves**, in every mode, and so does all that they
remember and report. -/
theorem attemptWithin_records (hP : g.Preserves P) (n : Nat) : g.Attempts P (attemptWithin n) := by
  induction n with
  | zero => exact fun c i p acts skips _ => Keeps.halt trivial
  | succ n ih =>
    intro c i p acts skips hg
    have hdeep : c.deeper.grammar = g := hg
    apply Upkeep.attemptWithin_succ_keeps fun _ => trivial
    exact remember_records ih hdeep hP i p acts skips

end Packrat
