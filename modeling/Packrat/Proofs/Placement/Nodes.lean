import Packrat.Proofs.Placement.Upkeep

/-!
# `Packrat.Proofs.Placement.Nodes` — every way of matching ends at sites

Given attempts that end at sites, each way of matching ends at sites, one lemma for each; all of them together
close the circle.

## Contents

* `skipLeading_quiet`, `matchSequence_run`, … — one lemma for each way of matching;
* `matchNode_run`, `growSeed_run` — all kinds of nodes, with seeds and without;
* `attemptWithin_sound` — **attempts end at sites**, in every mode.
-/

namespace Packrat

namespace Upkeep

variable {g : Grammar} {U : Upkeep g} {a : Attempt} {c : Context} {p start : Nat}

/-! ## Skipping -/

section Attempts

variable (ha : U.Sound a) (hg : c.grammar = g)
include ha hg

theorem probe_quiet {i : ExprId} (hi : U.nodes i) (hp : U.sites.At c.text p) :
    U.QuietRun c p (U.sites.Holds c.text p) (probe a c i p) :=
  (ha hg hi hp).recover

theorem skipOne_quiet {i : ExprId} (hi : U.nodes i) (fuel : Nat) (hp : U.sites.At c.text p) :
    U.QuietRun c p (U.sites.From c.text p) (skipOne a c i fuel p) := by
  induction fuel generalizing p with
  | zero => exact QuietRun.pure (Sites.From.self hp)
  | succ fuel ih =>
    rw [skipOne]
    refine (probe_quiet ha hg hi hp).step ?_ fun _ _ => QuietRun.pure (Sites.From.self hp)
    intro stop _ hstop
    by_cases h : stop ≤ p
    · simp only [h, if_true]
      exact QuietRun.pure (Sites.From.self hp)
    · simpa only [h, if_false] using (ih hstop.1).mono fun _ hq => hq.mono hstop.2

theorem skipEach_quiet {ignores : List ExprId} (hi : ∀ i ∈ ignores, U.nodes i) (hp : U.sites.At c.text p) :
    U.QuietRun c p (U.sites.From c.text p) (skipEach a c ignores p) := by
  induction ignores generalizing p with
  | nil => exact QuietRun.pure (Sites.From.self hp)
  | cons i ignores ih =>
    rw [skipEach]
    refine (skipOne_quiet ha hg (hi i (by simp)) _ hp).bind ?_
    intro q hq
    exact (ih (fun j hj => hi j (by simp [hj])) hq.1).mono fun _ hr => hr.mono hq.2

theorem skipRounds_quiet {ignores : List ExprId} (hi : ∀ i ∈ ignores, U.nodes i) (fuel : Nat)
    (hp : U.sites.At c.text p) : U.QuietRun c p (U.sites.From c.text p) (skipRounds a c ignores fuel p) := by
  induction fuel generalizing p with
  | zero => exact QuietRun.pure (Sites.From.self hp)
  | succ fuel ih =>
    rw [skipRounds]
    refine (skipEach_quiet ha hg hi hp).bind ?_
    intro q hq
    by_cases h : q = p
    · simp only [h, if_true]
      exact QuietRun.pure (Sites.From.self hp)
    · simpa only [h, if_false] using (ih hq.1).mono fun _ hr => hr.mono hq.2

theorem skipIgnorables_quiet {ignores : List ExprId} (hi : ∀ i ∈ ignores, U.nodes i)
    (hp : U.sites.At c.text p) : U.QuietRun c p (U.sites.From c.text p) (skipIgnorables a c ignores p) := by
  rw [skipIgnorables]
  split
  · exact QuietRun.pure (Sites.From.self hp)
  · exact skipRounds_quiet ha hg hi _ hp

theorem skipLeading_quiet {rule : Rule} (hi : ∀ i ∈ rule.ignores, U.nodes i) (hp : U.sites.At c.text p) :
    U.QuietRun c p (U.sites.From c.text p) (skipLeading a c rule p) := by
  rw [skipLeading]
  refine (skipIgnorables_quiet ha hg hi hp).bind fun q hq => QuietRun.pure ?_
  split
  · exact ⟨U.sites.skip hq.1 _, hq.2.trans (Text.le_skip _ _ _)⟩
  · exact hq

theorem atTextStart_quiet {rule : Rule} (hi : ∀ i ∈ rule.ignores, U.nodes i) (start : Nat) :
    U.QuietRun c p (fun _ => True) (atTextStart a c rule start) := by
  rw [atTextStart]
  split
  · exact QuietRun.pure trivial
  · refine QuietRun.bind (P := U.sites.From c.text 0) ?_ fun q hq => QuietRun.pure trivial
    exact (skipLeading_quiet ha hg hi (U.sites.zero c.text)).mono fun _ => id

/-! ## Sequences and choices -/

theorem matchSequence_run (acts : Bool) {children : List ExprId} (hi : ∀ i ∈ children, U.nodes i)
    {first committed : Bool}
    (hcommit : (committed = true ∨ ∃ j ∈ children, (g.rule j).kind.isCommit = true) →
      ∀ d : Diagnostic, U.sites.From c.text start d.position → U.halts c.text start (.committed d))
    {loc : Nat} (hloc : U.sites.From c.text start loc) (results : Results) :
    U.Run c start (U.sites.Holds c.text start)
      (matchSequence a c acts children first committed loc results) := by
  induction children generalizing first committed loc results with
  | nil => exact Run.pure hloc
  | cons i children ih =>
    have ih := @ih fun j hj => hi j (by simp [hj])
    have hrule : c.rule i = g.rule i := by rw [Context.rule, hg]
    rw [matchSequence, hrule]
    by_cases hk : (g.rule i).kind.isCommit = true
    -- past this marker the sequence halts where it fails
    · simp only [hk, if_true]
      exact ih (fun _ => hcommit (Or.inr ⟨i, by simp, hk⟩)) hloc results
    · simp only [hk]
      refine Run.step ((ha hg (hi i (by simp)) hloc.1).mono hloc.2 fun _ h => h.mono hloc.2) ?_ ?_
      · intro stop part hstop
        refine ih (fun h => hcommit ?_) hstop _
        rcases h with h | ⟨j, hj, hc⟩
        · exact Or.inl h
        · exact Or.inr ⟨j, List.mem_cons_of_mem _ hj, hc⟩
      · intro d hd
        cases committed with
        | true => exact Keeps.halt (hcommit (Or.inl rfl) d hd)
        | false => exact Run.pure hd

omit ha hg in
/-- The failure of a choice lies where it starts, or where the failure lies that got furthest. -/
theorem choiceFailure_placed {best : Option Diagnostic} {S : Sites} {t : Text} (rule : Rule) (hp : S.At t start)
    (hbest : ∀ d ∈ best, S.From t start d.position) : S.Holds t start (choiceFailure best start rule) := by
  unfold choiceFailure
  split
  · next d =>
    split
    · exact hbest d rfl
    · exact Sites.Holds.failAt hp rule
  · exact Sites.Holds.failAt hp rule

omit ha hg in
theorem furthestOf_placed {best : Option Diagnostic} {S : Sites} {t : Text} {d : Diagnostic}
    (hbest : ∀ d ∈ best, S.From t start d.position) (hd : S.From t start d.position) :
    ∀ d' ∈ furthestOf best d, S.From t start d'.position := by
  intro d' hd'
  obtain rfl := Option.some.inj hd'
  cases best with
  | none => exact hd
  | some b =>
    show S.From t start (b.furthest d).position
    unfold Diagnostic.furthest
    split
    · exact hd
    · exact hbest b rfl

theorem matchFirst_run (acts : Bool) (rule : Rule) {children : List ExprId} (hi : ∀ i ∈ children, U.nodes i)
    (hp : U.sites.At c.text start) {best : Option Diagnostic}
    (hbest : ∀ d ∈ best, U.sites.From c.text start d.position) :
    U.Run c start (U.sites.Holds c.text start) (matchFirst a c rule start acts children best) := by
  induction children generalizing best with
  | nil => exact Run.pure (choiceFailure_placed rule hp hbest)
  | cons i children ih =>
    rw [matchFirst]
    refine Run.step (ha hg (hi i (by simp)) hp) (fun stop r hstop => Run.pure hstop) ?_
    intro d hd
    exact ih (fun j hj => hi j (by simp [hj])) (furthestOf_placed hbest hd)

/-! ## The longest match -/

theorem findCandidates_run {children : List ExprId} (hi : ∀ i ∈ children, U.nodes i)
    (hp : U.sites.At c.text start) {found : List Candidate}
    (hf : ∀ x ∈ found, U.nodes x.child ∧ U.sites.From c.text start x.stop) {best : Option Diagnostic}
    (hbest : ∀ d ∈ best, U.sites.From c.text start d.position) :
    U.Run c start (fun x => (∀ y ∈ x.1, U.nodes y.child ∧ U.sites.From c.text start y.stop)
        ∧ ∀ d ∈ x.2, U.sites.From c.text start d.position)
      (findCandidates a c start children found best) := by
  induction children generalizing found best with
  | nil => exact Run.pure ⟨fun y hy => hf y (List.mem_reverse.mp hy), hbest⟩
  | cons i children ih =>
    have ih := @ih fun j hj => hi j (by simp [hj])
    rw [findCandidates]
    refine Run.step (ha hg (hi i (by simp)) hp) ?_ ?_
    · intro stop r hstop
      refine ih ?_ hbest
      intro y hy
      rcases List.mem_cons.mp hy with rfl | hy
      · exact ⟨hi i (by simp), hstop⟩
      · exact hf y hy
    · intro d hd
      exact ih hf (furthestOf_placed hbest hd)

theorem tryCandidate_run (hp : U.sites.At c.text start) {x : Candidate} (hi : U.nodes x.child)
    {longest : Option (Nat × Results)} (hlongest : ∀ x ∈ longest, U.sites.From c.text start x.1)
    {best : Option Diagnostic} (hbest : ∀ d ∈ best, U.sites.From c.text start d.position)
    {next : Option (Nat × Results) → Option Diagnostic → MatchM Step}
    (hnext : ∀ {longest best}, (∀ x ∈ longest, U.sites.From c.text start x.1) →
      (∀ d ∈ best, U.sites.From c.text start d.position) →
      U.Run c start (U.sites.Holds c.text start) (next longest best)) :
    U.Run c start (U.sites.Holds c.text start) (tryCandidate a c start x longest best next) := by
  refine Run.step (ha hg hi hp) ?_ ?_
  · intro stop r hstop
    have hlonger (b : Bool) : ∀ y ∈ (if b = true then some (stop, r) else longest),
        U.sites.From c.text start y.1 := by
      intro y hy
      cases b with
      | true =>
        obtain rfl := Option.some.inj hy
        exact hstop
      | false => exact hlongest y hy
    by_cases h : x.stop ≤ stop
    · simp only [h, if_true]
      exact Run.pure hstop
    · simp only [h, if_false]
      exact hnext (hlonger _) hbest
  · intro d hd
    exact hnext hlongest (furthestOf_placed hbest hd)

theorem matchCandidates_run (rule : Rule) (hp : U.sites.At c.text start) {candidates : List Candidate}
    (hi : ∀ x ∈ candidates, U.nodes x.child) {longest : Option (Nat × Results)}
    (hlongest : ∀ x ∈ longest, U.sites.From c.text start x.1) {best : Option Diagnostic}
    (hbest : ∀ d ∈ best, U.sites.From c.text start d.position) :
    U.Run c start (U.sites.Holds c.text start) (matchCandidates a c rule start candidates longest best) := by
  induction candidates generalizing longest best with
  | nil =>
    refine Run.pure ?_
    cases longest with
    | none => exact choiceFailure_placed rule hp hbest
    | some x => exact hlongest x rfl
  | cons x candidates ih =>
    have ih := @ih fun y hy => hi y (by simp [hy])
    have hrest := tryCandidate_run ha hg hp (hi x (by simp)) hlongest hbest fun hl hb => ih hl hb
    unfold matchCandidates
    cases longest with
    | none => exact hrest
    | some l =>
      by_cases h : x.stop ≤ l.1
      · simp only [h, if_true]
        exact Run.pure (hlongest l rfl)
      · simp only [h, if_false]
        exact hrest

theorem matchLongest_run (rule : Rule) {children : List ExprId} (hi : ∀ i ∈ children, U.nodes i)
    (hp : U.sites.At c.text start) (acts : Bool) :
    U.Run c start (U.sites.Holds c.text start) (matchLongest a c rule children start acts) := by
  rw [matchLongest]
  refine (findCandidates_run ha hg hi hp (by simp) (by simp)).bind ?_
  intro x hx
  have hsorted : ∀ y ∈ x.1.mergeSort fun a b => decide (b.stop ≤ a.stop),
      U.nodes y.child ∧ U.sites.From c.text start y.stop := fun y hy => hx.1 y (List.mem_mergeSort.mp hy)
  dsimp only
  cases acts with
  | true => exact matchCandidates_run ha hg rule hp (fun y hy => (hsorted y hy).1) (by simp) hx.2
  | false =>
    simp only [Bool.false_eq_true, if_false]
    split
    · next y ys hy => exact Run.pure (hsorted y (by rw [hy]; exact List.mem_cons_self)).2
    · exact Run.pure (choiceFailure_placed rule hp hx.2)

/-! ## Children in any order -/

theorem discoverRound_run {items : List (EachItem × Nat)} (htest : ∀ x ∈ items, U.nodes x.1.test)
    (hrun : ∀ x ∈ items, U.nodes x.1.run) {d : Discovery} (hloc : U.sites.From c.text start d.loc)
    (hd : ∀ i ∈ d.order, U.nodes i) (progressed : Bool) :
    U.Run c start (fun x => U.sites.From c.text start x.1.loc ∧ ∀ i ∈ x.1.order, U.nodes i)
      (discoverRound a c items d progressed) := by
  induction items generalizing d progressed with
  | nil => exact Run.pure ⟨hloc, hd⟩
  | cons x items ih =>
    have ih := @ih (fun y hy => htest y (by simp [hy])) fun y hy => hrun y (by simp [hy])
    obtain ⟨item, i⟩ := x
    rw [discoverRound]
    split
    · exact ih hloc hd progressed
    · refine Run.step ((ha hg (htest (item, i) (by simp)) hloc.1).mono hloc.2 fun _ h => h.mono hloc.2)
        ?_ fun _ _ => ih hloc hd progressed
      intro stop r hstop
      by_cases h : (item.isSingle || decide (d.loc < stop)) = true
      · simp only [h, if_true]
        refine ih hstop ?_ true
        intro j hj
        rcases List.mem_cons.mp hj with rfl | hj
        · exact hrun (item, i) (by simp)
        · exact hd j hj
      · simp only [h]
        exact ih hloc hd progressed

theorem discover_run {items : List (EachItem × Nat)} (htest : ∀ x ∈ items, U.nodes x.1.test)
    (hrun : ∀ x ∈ items, U.nodes x.1.run) (fuel : Nat) {d : Discovery} (hloc : U.sites.From c.text start d.loc)
    (hd : ∀ i ∈ d.order, U.nodes i) :
    U.Run c start (fun x => ∀ i ∈ x.order, U.nodes i) (discover a c items fuel d) := by
  induction fuel generalizing d with
  | zero => exact Run.pure hd
  | succ fuel ih =>
    rw [discover]
    refine (discoverRound_run ha hg htest hrun hloc hd false).bind ?_
    intro x hx
    obtain ⟨d', progressed⟩ := x
    cases progressed with
    | true => exact ih hx.1 hx.2
    | false => exact Run.pure hx.2

theorem runInOrder_run (acts : Bool) {order : List ExprId} (hi : ∀ i ∈ order, U.nodes i) {loc : Nat}
    (hloc : U.sites.From c.text start loc) (results : Results) :
    U.Run c start (U.sites.Holds c.text start) (runInOrder a c acts order loc results) := by
  induction order generalizing loc results with
  | nil => exact Run.pure hloc
  | cons i order ih =>
    rw [runInOrder]
    refine Run.step ((ha hg (hi i (by simp)) hloc.1).mono hloc.2 fun _ h => Sites.Holds.mono h hloc.2)
      ?_ fun d hd => Run.pure hd
    intro stop part hstop
    exact ih (fun j hj => hi j (by simp [hj])) hstop _

theorem matchEach_run {children : List ExprId} (hi : ∀ i ∈ children, U.nodes i) (hp : U.sites.At c.text start)
    (acts : Bool) : U.Run c start (U.sites.Holds c.text start) (matchEach a c children start acts) := by
  have hitems : ∀ x ∈ (children.map fun i => EachItem.ofChild i (g.rule i).kind).zipIdx,
      U.nodes x.1.test ∧ U.nodes x.1.run :=
    EachItem.items_within hi fun i hi inner hinner => U.closed.child hi hinner.mem_children
  have hrule : ∀ i, c.rule i = g.rule i := fun i => by rw [Context.rule, hg]
  simp only [matchEach, hrule]
  refine (discover_run ha hg (fun x hx => (hitems x hx).1) (fun x hx => (hitems x hx).2) _ (Sites.From.self hp)
    (by simp)).bind ?_
  intro d hd
  split
  · exact Run.pure (Sites.From.self hp)
  · refine runInOrder_run ha hg acts ?_ (Sites.From.self hp) _
    intro j hj
    rcases List.mem_append.mp hj with hj | hj
    · exact hd j (List.mem_reverse.mp hj)
    · obtain ⟨x, hx, rfl⟩ := List.mem_map.mp hj
      exact (hitems x (List.mem_filter.mp hx).1).2

/-! ## Repetitions -/

/-- Rounds have got to a place from `p` on, and so has the failure that ended them. -/
def RoundsFrom (S : Sites) (t : Text) (p : Nat) (r : Rounds) : Prop :=
  S.From t p r.loc ∧ ∀ d ∈ r.failure, S.From t p d.position

omit ha hg in
theorem RoundsFrom.failed {S : Sites} {t : Text} {r : Rounds} (hr : RoundsFrom S t p r) {d : Diagnostic}
    (hd : S.From t p d.position) : RoundsFrom S t p { r with failure := some d } := by
  refine ⟨hr.1, ?_⟩
  intro d' hd'
  obtain rfl := Option.some.inj hd'
  exact hd

theorem takeRound_run {child : ExprId} (hi : U.nodes child) (acts : Bool) {again : Rounds → MatchM Rounds}
    (hagain : ∀ {r}, RoundsFrom U.sites c.text start r → U.Run c start (RoundsFrom U.sites c.text start) (again r))
    {r : Rounds} (hr : RoundsFrom U.sites c.text start r) :
    U.Run c start (RoundsFrom U.sites c.text start) (takeRound a c child acts again r) := by
  refine Run.step ((ha hg hi hr.1.1).mono hr.1.2 fun _ h => Sites.Holds.mono h hr.1.2)
    ?_ fun d hd => Run.pure (hr.failed hd)
  intro after part hafter
  by_cases h : r.loc < after
  · simp only [h, if_true]
    exact hagain ⟨hafter, hr.2⟩
  · simp only [h, if_false]
    exact Run.pure ⟨hafter, hr.2⟩

theorem repeatRounds_run {child : ExprId} (hi : U.nodes child) (max : Option Nat) {stop : Option ExprId}
    (hs : ∀ i ∈ stop, U.nodes i) (acts : Bool) (fuel : Nat) {r : Rounds}
    (hr : RoundsFrom U.sites c.text start r) :
    U.Run c start (RoundsFrom U.sites c.text start) (repeatRounds a c child max stop acts fuel r) := by
  induction fuel generalizing r with
  | zero => exact Run.pure hr
  | succ fuel ih =>
    have hround := takeRound_run ha hg hi acts ih hr
    rw [repeatRounds]
    split
    · exact Run.pure hr
    · cases stop with
      | none => exact hround
      | some i =>
        refine Run.step ((probe_quiet ha hg (hs i rfl) hr.1.1).run (p := start)) (fun _ _ _ => ?_) fun _ _ => hround
        exact Run.pure (hr.failed hr.1)

theorem matchRepetition_run (rule : Rule) {child : ExprId} (hi : U.nodes child) (min : Nat) (max : Option Nat)
    {stop : Option ExprId} (hs : ∀ i ∈ stop, U.nodes i) (hp : U.sites.At c.text start) (acts : Bool) :
    U.Run c start (U.sites.Holds c.text start) (matchRepetition a c rule child min max stop start acts) := by
  rw [matchRepetition]
  refine (repeatRounds_run ha hg hi max hs acts _ (r := ⟨start, 0, {}, none⟩)
    ⟨Sites.From.self hp, by simp⟩).bind ?_
  intro r hr
  split
  · refine Run.pure ?_
    split
    · next d hd => exact hr.2 d hd
    · exact hr.1
  · exact Run.pure hr.1

/-! ## Looking behind and skipping ahead -/

theorem findBehind_quiet {child : ExprId} (hi : U.nodes child) (acts : Bool) {positions : List Nat}
    (hp : ∀ q ∈ positions, U.sites.At c.text q) :
    U.QuietRun c p (fun _ => True) (findBehind a c child acts positions) := by
  induction positions with
  | nil => exact QuietRun.pure trivial
  | cons q positions ih =>
    have ih := ih fun q hq => hp q (List.mem_cons_of_mem _ hq)
    rw [findBehind]
    refine QuietRun.step ((ha hg hi (hp q List.mem_cons_self)).recover.mono fun _ => id) ?_
      fun _ _ => ih
    intro stop r _
    dsimp only
    split
    · exact QuietRun.pure (P := fun _ => True) trivial
    · exact ih

omit ha hg in
/-- A run on a state of its own keeps the tables of the parse as they were. -/
theorem aside_keeps {α : Type} {S : Sites} {t t' : Text} {H : Halt → Prop} {P : α → Prop} {m : MatchM α}
    (config : Config) (hm : Keeps (State.Placed S t') H P m) : Keeps (State.Placed S t) H P (aside config m) := by
  intro s hs
  have h := hm { State.initial config with journal := s.journal }
    ((State.Placed.initial S t' config).congr ⟨rfl, rfl, rfl, rfl⟩)
  unfold aside
  cases hr : m { State.initial config with journal := s.journal } with
  | ok x s' =>
    rw [hr] at h
    exact ⟨h.1, hs.congr ⟨rfl, rfl, rfl, rfl⟩⟩
  | error e s' =>
    rw [hr] at h
    exact ⟨h.1, hs.congr ⟨rfl, rfl, rfl, rfl⟩⟩

theorem matchPrecededBy_run (rule : Rule) {child : ExprId} (hi : U.nodes child) (retreat : Option Nat)
    (hp : U.sites.At c.text start) (acts : Bool) :
    U.Run c start (U.sites.Holds c.text start) (matchPrecededBy a c rule child retreat start acts) := by
  have hquiet {positions : List Nat} (hpos : ∀ q ∈ positions, U.sites.At (c.behind start).text q) :
      U.Run c start (fun _ => True) (aside c.config (findBehind a (c.behind start) child acts positions)) := by
    have hg' : (c.behind start).grammar = g := hg
    refine Keeps.mono (aside_keeps c.config (findBehind_quiet (p := start) ha hg' hi acts hpos)) (fun _ => id) ?_
    exact fun h hh => U.behind hp hh.2 hh.1
  have hstarts : ∀ q ∈ (c.behind start).text.starts.reverse, U.sites.At (c.behind start).text q :=
    fun q hq => U.sites.starts hp (List.mem_reverse.mp hq)
  unfold matchPrecededBy
  refine (hquiet ?_).bind ?_
  · cases retreat with
    | none => exact hstarts
    | some n => exact fun q hq => hstarts q (List.mem_of_mem_take hq)
  · intro found _
    split
    · exact Run.pure (Sites.From.self hp)
    · exact Run.pure (Sites.From.self hp)

theorem tryTarget_quiet {target : ExprId} (hi : U.nodes target) {again : Nat → MatchM (Option Nat)}
    (hagain : ∀ {loc}, U.sites.From c.text start loc ∨ c.text.size < loc →
      U.QuietRun c start (fun x => ∀ q ∈ x, U.sites.From c.text start q) (again loc))
    {loc : Nat} (hloc : U.sites.From c.text start loc) :
    U.QuietRun c start (fun x => ∀ q ∈ x, U.sites.From c.text start q) (tryTarget a c target again loc) := by
  have hignores : ∀ i ∈ (c.rule target).ignores, U.nodes i := by
    intro i hj
    rw [Context.rule, hg] at hj
    exact U.closed hi (List.mem_append_right _ hj)
  refine ((skipIgnorables_quiet ha hg hignores hloc.1).mono fun _ => id).bind ?_
  intro q hq
  refine QuietRun.step ((ha hg hi hq.1).recover.mono fun _ => id) (fun _ _ _ => QuietRun.pure ?_)
    fun _ _ => hagain ?_
  · intro q' hq'
    obtain rfl := Option.some.inj hq'
    exact hq.mono hloc.2
  -- the next position is a site, or lies past the end, where the search stops
  · rcases U.sites.next hq.1 with hnext | hnext
    · exact Or.inl ⟨hnext, (hloc.2.trans hq.2).trans (Text.lt_next _ _).le⟩
    · exact Or.inr hnext

theorem findAhead_quiet {target : ExprId} (hi : U.nodes target) {failOn : Option ExprId}
    (hf : ∀ i ∈ failOn, U.nodes i) (fuel : Nat) {loc : Nat}
    (hloc : U.sites.From c.text start loc ∨ c.text.size < loc) :
    U.QuietRun c start (fun x => ∀ q ∈ x, U.sites.From c.text start q) (findAhead a c target failOn fuel loc) := by
  induction fuel generalizing loc with
  | zero => exact QuietRun.pure (by simp)
  | succ fuel ih =>
    rw [findAhead]
    by_cases hsize : c.text.size < loc
    · rw [if_pos hsize]
      exact QuietRun.pure (by simp)
    · rw [if_neg hsize]
      have hloc := hloc.resolve_right hsize
      have hstep := tryTarget_quiet ha hg hi ih hloc
      cases failOn with
      | none => exact hstep
      | some i =>
        refine QuietRun.step ((probe_quiet ha hg (hf i rfl) hloc.1).mono fun _ => id)
          (fun _ _ _ => QuietRun.pure ?_) fun _ _ => hstep
        intro q hq
        obtain rfl := Option.some.inj hq
        exact hloc

theorem matchSkipTo_run (rule : Rule) {target : ExprId} (hi : U.nodes target) (includes : Bool)
    {failOn : Option ExprId} (hf : ∀ i ∈ failOn, U.nodes i) (hp : U.sites.At c.text start) (acts : Bool) :
    U.Run c start (U.sites.Holds c.text start) (matchSkipTo a c rule target includes failOn start acts) := by
  rw [matchSkipTo]
  refine (findAhead_quiet ha hg hi hf _ (Or.inl (Sites.From.self hp))).run.bind ?_
  intro found hfound
  cases found with
  | none => exact Run.pure (Sites.From.self hp)
  | some loc =>
    have hloc := hfound loc rfl
    cases includes with
    | false => exact Run.pure hloc
    | true =>
      refine Run.step ((ha hg hi hloc.1).mono hloc.2 fun _ h => Sites.Holds.mono h hloc.2)
        (fun stop part hstop => Run.pure hstop) fun d hd => Run.pure hd

/-! ## Actions -/

omit ha hg in
theorem runAction_run {i child : ExprId} {action : Action} (hi : U.nodes i)
    (hk : (g.rule i).kind = .transform child action) {stop : Nat} (hstop : U.sites.From c.text start stop)
    (hp : U.sites.At c.text start) (results : Results) :
    U.Run c start (U.sites.Holds c.text start) (runAction c action start stop results) := by
  rw [runAction]
  refine Run.bind (P := fun _ => True) (Keeps.of_unit fun s hs => ⟨_, rfl, hs.congr ⟨rfl, rfl, rfl, rfl⟩⟩) fun _ _ => ?_
  split
  · exact Run.pure hstop
  · exact Run.pure (Sites.From.self hp)
  · next message he => exact Keeps.halt (U.transform hi hk hp he rfl)
  · next cause he => exact Keeps.halt (U.transform hi hk hp he rfl)
  · next he => exact Keeps.halt (U.transform hi hk hp he rfl)

/-! ## Seeds -/

omit ha hg in
theorem put_run (keys : SeedKeys) (acts : Bool) {step : Step} (hstep : U.sites.Holds c.text keys.position step) :
    U.Run c p (fun _ => True) (keys.put acts step) :=
  Keeps.of_unit fun _ hs => ⟨_, rfl, hs.insertSeed _ hstep⟩

omit ha hg in
theorem putAll_run (keys : SeedKeys) (acts : Bool) {step : Step} (hstep : U.sites.Holds c.text keys.position step) :
    U.Run c p (fun _ => True) (keys.putAll acts step) := by
  refine (put_run keys false hstep).bind fun _ _ => ?_
  cases acts with
  | true => exact put_run keys true hstep
  | false => exact Run.pure trivial

omit ha hg in
theorem take_run (keys : SeedKeys) (acts : Bool) :
    U.Run c p (fun x => ∀ step ∈ x, U.sites.Holds c.text keys.position step) (keys.take acts) :=
  fun _ hs => ⟨fun step hstep => hs.seeds _ step hstep, hs.eraseSeed _⟩

omit ha hg in
theorem refuse_run (keys : SeedKeys) (acts : Bool) {d : Diagnostic}
    (hd : U.sites.From c.text keys.position d.position) :
    U.Run c p (U.sites.Holds c.text keys.position) (keys.refuse acts d) :=
  (putAll_run keys acts (show U.sites.Holds c.text keys.position (Step.failed d) from hd)).bind
    fun _ _ => Run.pure hd

omit ha hg in
theorem release_run (keys : SeedKeys) (acts : Bool) {step : Step} (hstep : U.sites.Holds c.text keys.position step) :
    U.Run c p (U.sites.Holds c.text keys.position) (keys.release acts step) := by
  refine (take_run keys false).bind fun _ _ => ?_
  cases acts with
  | false => exact Run.pure hstep
  | true =>
    refine (take_run keys true).bind fun taken htaken => Run.pure ?_
    cases taken with
    | none => exact hstep
    | some step' => exact htaken step' rfl

omit ha hg in
theorem after_placed {seed : Seed} {grown : Step} {q : Nat} (hseed : U.sites.Holds c.text q seed.step)
    (hgrown : U.sites.Holds c.text q grown) : U.sites.Holds c.text q (seed.after grown).step := by
  cases grown with
  | matched stop r => exact hgrown
  | failed d => exact hseed

theorem advanceSeed_run {keys : SeedKeys} {target : ExprId} (hi : U.nodes target)
    (hp : U.sites.At c.text keys.position) (acts : Bool) {step : Step}
    (hstep : U.sites.Holds c.text keys.position step) :
    U.Run c keys.position (fun x => ∀ d : Diagnostic, d ∈ x → U.sites.From c.text keys.position d.position)
      (advanceSeed a c keys target acts step) := by
  have hput : U.Run c keys.position (fun x => ∀ d : Diagnostic, d ∈ x → U.sites.From c.text keys.position d.position)
      (do keys.put false step; return none) :=
    (put_run keys false hstep).bind fun _ _ => Run.pure (by simp)
  cases acts with
  | false => exact hput
  | true =>
    refine Run.step (ha hg hi hp) ?_ ?_
    · intro stop r hstop
      have hmatched : U.sites.Holds c.text keys.position (Step.matched stop r) := hstop
      exact (put_run keys true hmatched).bind fun _ _ => hput
    · intro d hd
      have hfailed : U.sites.Holds c.text keys.position (Step.failed d) := hd
      refine (putAll_run keys true hfailed).bind fun _ _ => Run.pure ?_
      intro d' hd'
      obtain rfl := Option.some.inj hd'
      exact hd

theorem growRounds_run (rule : Rule) {keys : SeedKeys} {target : ExprId} (hi : U.nodes target)
    (hp : U.sites.At c.text keys.position) (limit : Nat) (acts : Bool) (fuel rounds : Nat) {seed : Seed}
    (hseed : U.sites.Holds c.text keys.position seed.step) :
    U.Run c keys.position (U.sites.Holds c.text keys.position)
      (growRounds a c rule keys target limit acts fuel rounds seed) := by
  induction fuel generalizing rounds seed with
  | zero => exact Keeps.halt (U.tooDeep hp).2
  | succ fuel ih =>
    rw [growRounds]
    refine (ha hg hi hp).bind ?_
    intro grown hgrown
    split
    · exact refuse_run keys acts hgrown
    · dsimp only
      split
      · exact release_run keys acts hseed
      · split
        · exact Keeps.halt (U.growthLimit hp)
        · refine Run.bind (P := fun _ => True)
            (Keeps.of_unit fun s hs => ⟨_, rfl, hs.memo, hs.seeds⟩) fun _ _ => ?_
          refine (advanceSeed_run ha hg hi hp acts (after_placed hseed hgrown)).bind ?_
          intro refused hrefused
          cases refused with
          | some d => exact Run.pure (hrefused d rfl)
          | none => exact ih (rounds + 1) (after_placed hseed hgrown)

theorem growSeed_run (rule : Rule) (i : ExprId) {target : ExprId} (hi : U.nodes target)
    (hp : U.sites.At c.text start) (acts : Bool) :
    U.Run c start (U.sites.Holds c.text start) (growSeed a c rule i target start acts) := by
  rw [growSeed]
  refine Run.bind (P := fun x => ∀ step ∈ x, U.sites.Holds c.text start step)
    (fun s hs => ⟨fun step hstep => hs.seeds _ step hstep, hs⟩) ?_
  intro found hfound
  cases found with
  | some step => exact Run.pure (hfound step rfl)
  | none =>
    have hfirst : U.sites.Holds c.text start (Step.failed ⟨start, "Forward recursion without base case"⟩) :=
      (Sites.From.self hp)
    exact (putAll_run ⟨start, i⟩ acts hfirst).bind fun _ _ => growRounds_run ha hg rule hi hp _ acts _ _ hfirst

/-! ## Nodes -/

/-- Every kind of node ends at sites. -/
theorem matchNode_run {i : ExprId} (hi : U.nodes i) (hp : U.sites.At c.text start) (acts : Bool) :
    U.Run c start (U.sites.Holds c.text start) (matchNode a c i (g.rule i) start acts) := by
  have hchild {j} (hj : j ∈ (g.rule i).kind.children) : U.nodes j := U.closed.child hi hj
  have honly {j} (h : (g.rule i).kind.children = [j]) : U.nodes j := hchild (by simp [h])
  have hall {children} (h : (g.rule i).kind.children = children) : ∀ j ∈ children, U.nodes j := by
    intro j hj
    rw [← h] at hj
    exact hchild hj
  have hignores : ∀ j ∈ (g.rule i).ignores, U.nodes j := by
    intro j hj
    exact U.closed hi (List.mem_append_right _ hj)
  cases hk : (g.rule i).kind with
  | literal | keyword | word | charsNotIn | pattern =>
    simp only [matchNode, hk]
    exact Run.pure ⟨U.sites.token hp _, le_place_matchToken _ _ _⟩
  | stringEnd | lineStart | lineEnd | wordStart | wordEnd =>
    simp only [matchNode, hk]
    exact Run.pure ⟨U.sites.test hp _, le_place_testPosition _ _ _⟩
  | empty | commit =>
    simp only [matchNode, hk]
    exact Run.pure (Sites.From.self hp)
  | noMatch =>
    simp only [matchNode, hk]
    exact Run.pure (Sites.Holds.failAt hp _)
  | sequence children =>
    simp only [matchNode, hk]
    refine matchSequence_run ha hg acts (hall (by rw [hk]; rfl)) ?_
      (Sites.From.self hp) _
    exact fun h d hd => U.sequence hi hk (h.resolve_left Bool.false_ne_true) hd
  | orderedChoice children =>
    simp only [matchNode, hk]
    exact matchFirst_run ha hg acts _ (hall (by rw [hk]; rfl)) hp (by simp)
  | longestChoice children =>
    simp only [matchNode, hk]
    exact matchLongest_run ha hg _ (hall (by rw [hk]; rfl)) hp _
  | each children =>
    simp only [matchNode, hk]
    exact matchEach_run ha hg (hall (by rw [hk]; rfl)) hp _
  | repetition child min max stop =>
    simp only [matchNode, hk]
    refine matchRepetition_run ha hg _ (hchild (by simp [hk, NodeKind.children])) _ _ (fun j hj => hchild ?_) hp _
    simp [hk, NodeKind.children, Option.mem_def.mp hj]
  | optional child default =>
    simp only [matchNode, hk]
    exact Run.step (ha hg (honly (by rw [hk]; rfl)) hp) (fun stop r hstop => Run.pure hstop)
      fun _ _ => Run.pure (Sites.From.self hp)
  | lookahead child =>
    simp only [matchNode, hk]
    exact Run.step ((ha hg (honly (by rw [hk]; rfl)) hp).recover.run)
      (fun stop r _ => Run.pure (Sites.From.self hp)) fun d hd => Run.pure hd
  | notAhead child =>
    simp only [matchNode, hk]
    exact Run.step ((probe_quiet ha hg (honly (by rw [hk]; rfl)) hp).run)
      (fun _ _ _ => Run.pure (Sites.Holds.failAt hp _)) fun _ _ => Run.pure (Sites.From.self hp)
  | precededBy child retreat =>
    simp only [matchNode, hk]
    exact matchPrecededBy_run ha hg _ (honly (by rw [hk]; rfl)) _ hp _
  | forward label target =>
    cases target with
    | none =>
      simp only [matchNode, hk]
      exact Keeps.halt (U.unboundForward hi hk _ _)
    | some target =>
      have htarget : U.nodes target := hchild (by simp [hk, NodeKind.children])
      simp only [matchNode, hk]
      split
      · exact growSeed_run ha hg _ _ htarget hp _
      · exact ha hg htarget hp
  | transform child action =>
    simp only [matchNode, hk]
    refine Run.step (ha hg (honly (by rw [hk]; rfl)) hp) ?_ fun d hd => Run.pure hd
    intro stop r hstop
    cases acts with
    | false => exact Run.pure hstop
    | true => exact runAction_run hi hk hstop hp r
  | named child | group child | dict child | suppress child =>
    simp only [matchNode, hk]
    refine (ha hg (honly (by rw [hk]; rfl)) hp).bind fun step hstep =>
      Run.pure (Sites.Holds.mapResults hstep _)
  | combine child joiner =>
    have hg' : c.combined.grammar = g := hg
    simp only [matchNode, hk]
    refine Run.bind (ha hg' (honly (by rw [hk]; rfl)) hp) fun step hstep =>
      Run.pure (Sites.Holds.mapResults hstep _)
  | originalText child =>
    simp only [matchNode, hk]
    exact Run.step (ha hg (honly (by rw [hk]; rfl)) hp) (fun stop r hstop => Run.pure hstop)
      fun d hd => Run.pure hd
  | skipTo target includes failOn =>
    simp only [matchNode, hk]
    refine matchSkipTo_run ha hg _ (hchild (by simp [hk, NodeKind.children])) _ (fun j hj => hchild ?_) hp _
    simp [hk, NodeKind.children, Option.mem_def.mp hj]
  | stringStart =>
    simp only [matchNode, hk]
    refine ((atTextStart_quiet (p := start) ha hg hignores start).run).bind ?_
    intro b _
    cases b with
    | true => exact Run.pure (Sites.From.self hp)
    | false => exact Run.pure (Sites.Holds.failAt hp _)

/-! ## Attempts -/

omit ha hg in
theorem note_run {m : MatchM Unit} (h : ∀ s, ∃ s', m s = .ok () s' ∧ s'.SameTables s) :
    U.Run c p (fun _ => True) m :=
  Keeps.of_unit fun s hs =>
    let ⟨s', e, ht⟩ := h s
    ⟨s', e, hs.congr ht⟩

theorem perform_run {i : ExprId} (hi : U.nodes i) (hp : U.sites.At c.text p) (acts skips : Bool) :
    U.Run c p (U.sites.Holds c.text p) (perform a c i p acts skips) := by
  have hrule : c.rule i = g.rule i := by rw [Context.rule, hg]
  have hrest {q : Nat} (hq : U.sites.From c.text p q) : U.Run c p (U.sites.Holds c.text p)
      (do let step ← matchNode a c i (g.rule i) q acts
          reportStep (c.watch.wants (g.rule i)) i q (step.mapResults (ResultsOf.withOrigin i))
          return step.mapResults (ResultsOf.withOrigin i)) := by
    refine ((matchNode_run ha hg hi hq.1 acts).mono hq.2 fun _ h => h.mono hq.2).bind ?_
    intro step hstep
    refine (note_run (reportStep_sameTables _ _ _ _)).bind fun _ _ =>
      Run.pure (Sites.Holds.mapResults hstep _)
  simp only [perform, hrule]
  refine (note_run (reportTry_sameTables _ _ _ _)).bind fun _ _ => ?_
  cases skips with
  | false => exact hrest (Sites.From.self hp)
  | true =>
    have hignores : ∀ j ∈ (g.rule i).ignores, U.nodes j := fun j hj => U.closed hi (List.mem_append_right _ hj)
    exact ((skipLeading_quiet ha hg hignores hp).run).bind fun q hq => hrest hq

omit ha hg in
/-- What is remembered under a key lies where the attempt under it would end. -/
theorem consult_placed {S : Sites} {t : Text} {H : Halt → Prop} (key : MemoKey) :
    Keeps (State.Placed S t) H (fun x => ∀ step ∈ x, S.Holds t key.position step) (consult key) :=
  fun _ hs => ⟨fun step hstep => hs.memo key step (Memo.holds_of_find? hstep),
    fun key' step hstep => hs.memo key' step (Memo.holds_of_holds_find? hstep), hs.seeds⟩

omit ha hg in
theorem store_placed {S : Sites} {t : Text} {H : Halt → Prop} {key : MemoKey} {step : Step}
    (hstep : S.Holds t key.position step) : Keeps (State.Placed S t) H (fun _ => True) (store key step) := by
  refine Keeps.of_unit fun s hs => ⟨_, rfl, hs.withMemo ?_⟩
  intro key' step' hk
  rcases Memo.holds_insert hk with ⟨rfl, rfl⟩ | hold
  · exact Or.inr hstep
  · exact Or.inl hold

omit ha hg in
/-- An attempt that is remembered keeps what it keeps when it is performed, if looking up and storing under its key keep
it. -/
theorem remember_keeps {I : State → Prop} {H : Halt → Prop} {P : Step → Prop} {i : ExprId} {acts skips : Bool}
    (hcounted : ∀ {s : State}, I s → I s.counted)
    (hperform : Keeps I H P (perform a c i p acts (skips && !c.adjacent)))
    (hconsult : Keeps I H (fun x => ∀ step ∈ x, P step) (consult ⟨i, p, acts, skips && !c.adjacent, c.adjacent⟩))
    (hstore : ∀ step, P step →
      Keeps I H (fun _ => True) (store ⟨i, p, acts, skips && !c.adjacent, c.adjacent⟩ step)) :
    Keeps I H P (remember a c i p acts skips) := by
  unfold remember
  refine Keeps.bind (P := fun _ => True)
    (Keeps.of_unit fun _ hs => ⟨_, rfl, hcounted hs⟩) fun _ _ => ?_
  refine Keeps.bind (P := fun _ => True) (fun s hs => ⟨trivial, hs⟩) fun on _ => ?_
  cases on with
  | false => exact hperform
  | true =>
    refine hconsult.bind fun found hfound => ?_
    cases found with
    | some step => exact Keeps.pure (hfound step rfl)
    | none => exact hperform.bind fun step hstep => (hstore step hstep).bind fun _ _ => Keeps.pure hstep

omit ha hg in
/-- An attempt keeps what it keeps one level deeper, where it may halt at the limit of nesting. -/
theorem attemptWithin_succ_keeps {I : State → Prop} {H : Halt → Prop} {P : Step → Prop} {n : Nat} {i : ExprId}
    {acts skips : Bool} (hlimit : ∀ limit, H (.recursionLimit limit p))
    (h : Keeps I H P (remember (attemptWithin n) c.deeper i p acts skips)) :
    Keeps I H P (attemptWithin (n + 1) c i p acts skips) := by
  rcases attemptWithin_succ n c i p acts skips with ⟨limit, -, -, heq⟩ | heq
  · rw [heq]
    exact Keeps.halt (hlimit limit)
  · rw [heq]
    exact h

theorem remember_run {i : ExprId} (hi : U.nodes i) (hp : U.sites.At c.text p) (acts skips : Bool) :
    U.Run c p (U.sites.Holds c.text p) (remember a c i p acts skips) :=
  remember_keeps (fun {s} hs => hs.congr s.counted_sameTables) (perform_run ha hg hi hp acts _) (consult_placed _)
    fun _ hstep => store_placed hstep

end Attempts

/-- **Attempts end at sites**, in every mode, at or after the position they are made at. -/
theorem attemptWithin_sound (U : Upkeep g) (n : Nat) : U.Sound (attemptWithin n) := by
  induction n with
  | zero => exact fun c i p acts skips hg hi hp => Keeps.halt (U.tooDeep hp).2
  | succ n ih =>
    intro c i p acts skips hg hi hp
    have hdeep : c.deeper.grammar = g := hg
    apply attemptWithin_succ_keeps (U.tooDeep hp).1
    exact remember_run ih hdeep hi hp acts skips

end Upkeep
end Packrat
