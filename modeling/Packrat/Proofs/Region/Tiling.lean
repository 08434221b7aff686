import Packrat.Proofs.Memory.Adequacy
import Packrat.Proofs.Plain.Beginning
import Packrat.Proofs.Plain.Longest
import Packrat.Proofs.Region.Spelling

/-!
# `Packrat.Proofs.Region.Tiling` — combined regions give slices

Inside a combined region nothing is skipped, so each attempt matches its node at the very place it is made at. Where all
nodes keep the text of what they match, the tokens of a match then lie end to end, and joined they are the slice that the
match takes.

## Contents

* `Gives`, `Spelled` — runs by their values, and runs whose matches spell what they take;
* `Grammar.KeepsText` — nodes that keep the text of what they match, with all their children;
* `matchSequence_spelled`, `matchEach_spelled`, … — one lemma for each way of matching;
* `matchNode_spelled`, `answer?_tiles` — all kinds of nodes, and attempts inside a region;
* `combine_slice` — **a combined match gives one token, the slice it takes**.
-/

namespace Packrat

/-! ## Runs by their values -/

/-- From whatever state, a computation gives values with a property, unless it halts. -/
def Gives {α : Type} (P : α → Prop) (m : MatchM α) : Prop := ∀ s a s', m s = .ok a s' → P a

namespace Gives

variable {α β : Type} {P : α → Prop} {Q : β → Prop} {m : MatchM α}

protected theorem pure {a : α} (h : P a) : Gives P (pure a : MatchM α) := by
  intro s b s' hrun
  obtain ⟨rfl, -⟩ := EStateM.Result.ok.inj hrun
  exact h

protected theorem bind {f : α → MatchM β} (hm : Gives P m) (hf : ∀ a, P a → Gives Q (f a)) : Gives Q (m >>= f) := by
  intro s b s' hrun
  cases hfirst : m s with
  | ok a u =>
    rw [bind_ok hfirst] at hrun
    exact hf a (hm s a u hfirst) u b s' hrun
  | error e u =>
    rw [bind_error hfirst] at hrun
    exact absurd hrun (by simp)

/-- What comes first may give anything. -/
theorem after {f : α → MatchM β} (hf : ∀ a, Gives Q (f a)) : Gives Q (m >>= f) :=
  Gives.bind (P := fun _ => True) (fun _ _ _ _ => trivial) fun a _ => hf a

end Gives

/-- A run that keeps an invariant gives values with what is known of them in every state. -/
theorem Keeps.gives {α : Type} {I : State → Prop} {H : Halt → Prop} {P P' : α → Prop} {m : MatchM α}
    (hm : Keeps I H P m) (h : Gives P' m) : Keeps I H P' m := by
  intro s hs
  have hkept := hm s hs
  cases hrun : m s with
  | ok a s' =>
    rw [hrun] at hkept
    exact ⟨h s a s' hrun, hkept.2⟩
  | error e s' =>
    rw [hrun] at hkept
    exact hkept

/-! ## Runs that spell -/

/-- From tables with outcomes at places of the text, a run matches what it spells. -/
def Spelled (t : Text) (p : Nat) (m : MatchM Step) : Prop :=
  Keeps (State.Placed .places t) (fun _ => True) (Step.Spells t p) m

namespace Spelled

variable {t : Text} {p q : Nat} {step : Step}

protected theorem pure (h : step.Spells t p) : Spelled t p (pure step) := Keeps.pure h

protected theorem halt (e : Halt) : Spelled t p (MatchM.halt e) := Keeps.halt trivial

/-- What follows an attempt spells when it does after a match and after a failure. -/
protected theorem step {m : MatchM Step} {f : Step → MatchM Step} (hm : Spelled t q m)
    (hmatched : ∀ stop r, Tiles t q stop r → Spelled t p (f (.matched stop r)))
    (hfailed : ∀ d, Spelled t p (f (.failed d))) : Spelled t p (m >>= f) := by
  refine Keeps.bind hm ?_
  intro step hstep
  cases step with
  | matched stop r => exact hmatched stop r hstep
  | failed d => exact hfailed d

/-- Results may change as long as they spell the same. -/
theorem mapResults {m : MatchM Step} (hm : Spelled t p m) {f : Results → Results}
    (hf : ∀ r, (f r).spelling = r.spelling) : Spelled t p (m >>= fun step => pure (step.mapResults f)) :=
  Keeps.bind hm fun _ hstep => Keeps.pure (hstep.mapResults hf)

/-- A run that keeps its tables, whatever its values. -/
theorem of_run {g : Grammar} {c : Context} {P : Step → Prop} {m : MatchM Step} (hm : (Upkeep.places g).Run c q P m)
    (h : Gives (Step.Spells c.text p) m) : Spelled c.text p m :=
  (Keeps.gives hm h).mono (fun _ => id) fun _ _ => trivial

end Spelled

theorem spells_choiceFailure (best : Option Diagnostic) (t : Text) (p start : Nat) (rule : Rule) :
    (choiceFailure best start rule).Spells t p := by
  unfold choiceFailure
  split
  · split
    · trivial
    · trivial
  · trivial

/-! ## Nodes that keep the text -/

/-- Nodes that keep the text of what they match, with all their children. -/
structure Grammar.KeepsText (g : Grammar) (N : ExprId → Prop) : Prop where
  kind : ∀ {i}, N i → (g.rule i).kind.keepsText = true
  child : ∀ {i j}, N i → j ∈ (g.rule i).kind.children → N j

/-- In a context, attempts of the nodes spell what they match. -/
structure SpellsIn (g : Grammar) (N : ExprId → Prop) (a : Attempt) (c : Context) : Prop where
  grammar : c.grammar = g
  sound : (Upkeep.places g).Sound a
  spells : ∀ {i p acts skips}, N i → c.text.IsBoundary p → Spelled c.text p (a c i p acts skips)

namespace SpellsIn

variable {g : Grammar} {N : ExprId → Prop} {a : Attempt} {c : Context} {start : Nat}

section Attempts

variable (h : SpellsIn g N a c)
include h

theorem rule_eq (i : ExprId) : c.rule i = g.rule i := by rw [Context.rule, h.grammar]

/-! ## Sequences and choices -/

theorem matchSequence_spelled (hp : c.text.IsBoundary start) (acts : Bool) {children : List ExprId}
    (hi : ∀ i ∈ children, N i) (first committed : Bool) {loc : Nat} {results : Results}
    (hresults : Tiles c.text start loc results) :
    Spelled c.text start (matchSequence a c acts children first committed loc results) := by
  induction children generalizing first committed loc results with
  | nil => exact Spelled.pure hresults
  | cons i children ih =>
    have ih := @ih fun j hj => hi j (List.mem_cons_of_mem _ hj)
    rw [matchSequence]
    split
    · exact ih _ _ hresults
    · refine Spelled.step (h.spells (hi i List.mem_cons_self) hresults.place.site) ?_ ?_
      · intro stop part hpart
        exact ih _ _ (hresults.extend hp hpart)
      · intro d
        cases committed with
        | true => exact Spelled.halt _
        | false => exact Spelled.pure trivial

theorem matchFirst_spelled (hp : c.text.IsBoundary start) (rule : Rule) (acts : Bool) {children : List ExprId}
    (hi : ∀ i ∈ children, N i) (best : Option Diagnostic) :
    Spelled c.text start (matchFirst a c rule start acts children best) := by
  induction children generalizing best with
  | nil => exact Spelled.pure (spells_choiceFailure _ _ _ _ _)
  | cons i children ih =>
    rw [matchFirst]
    exact Spelled.step (h.spells (hi i List.mem_cons_self) hp) (fun stop r hr => Spelled.pure hr)
      fun d => ih (fun j hj => hi j (List.mem_cons_of_mem _ hj)) _

/-! ## The longest match -/

theorem findCandidates_spelled (hp : c.text.IsBoundary start) {children : List ExprId} (hi : ∀ i ∈ children, N i)
    {found : List Candidate} (hfound : ∀ x ∈ found, N x.child ∧ Tiles c.text start x.stop x.results)
    (best : Option Diagnostic) :
    Keeps (State.Placed .places c.text) (fun _ => True)
      (fun x => ∀ y ∈ x.1, N y.child ∧ Tiles c.text start y.stop y.results)
      (findCandidates a c start children found best) := by
  induction children generalizing found best with
  | nil => exact Keeps.pure fun y hy => hfound y (List.mem_reverse.mp hy)
  | cons i children ih =>
    have ih := @ih fun j hj => hi j (List.mem_cons_of_mem _ hj)
    rw [findCandidates]
    refine Keeps.bind (h.spells (hi i List.mem_cons_self) hp) fun step hstep => ?_
    cases step with
    | failed d => exact ih hfound _
    | matched stop r =>
      refine ih (fun y hy => ?_) _
      rcases List.mem_cons.mp hy with rfl | hy
      · exact ⟨hi i List.mem_cons_self, hstep⟩
      · exact hfound y hy

theorem matchCandidates_spelled (hp : c.text.IsBoundary start) (rule : Rule) {candidates : List Candidate}
    (hi : ∀ x ∈ candidates, N x.child) {longest : Option (Nat × Results)}
    (hlongest : ∀ x ∈ longest, Tiles c.text start x.1 x.2) (best : Option Diagnostic) :
    Spelled c.text start (matchCandidates a c rule start candidates longest best) := by
  induction candidates generalizing longest best with
  | nil =>
    refine Spelled.pure ?_
    cases longest with
    | none => exact spells_choiceFailure _ _ _ _ _
    | some x => exact hlongest x rfl
  | cons x candidates ih =>
    have ih := @ih fun y hy => hi y (List.mem_cons_of_mem _ hy)
    have htry : Spelled c.text start
        (tryCandidate a c start x longest best (matchCandidates a c rule start candidates)) := by
      refine Spelled.step (h.spells (hi x List.mem_cons_self) hp) ?_ fun d => ih hlongest _
      intro stop r hr
      dsimp only
      split
      · exact Spelled.pure hr
      · refine ih (fun y hy => ?_) best
        split at hy
        · obtain rfl := Option.some.inj hy
          exact hr
        · exact hlongest y hy
    unfold matchCandidates
    cases longest with
    | none => exact htry
    | some l =>
      by_cases hle : x.stop ≤ l.1
      · simp only [hle, if_true]
        exact Spelled.pure (hlongest l rfl)
      · simp only [hle, if_false]
        exact htry

theorem matchLongest_spelled (hp : c.text.IsBoundary start) (rule : Rule) {children : List ExprId}
    (hi : ∀ i ∈ children, N i) (acts : Bool) :
    Spelled c.text start (matchLongest a c rule children start acts) := by
  have hnone : ∀ x ∈ ([] : List Candidate), N x.child ∧ Tiles c.text start x.stop x.results := by simp
  refine Keeps.bind (h.findCandidates_spelled hp hi hnone none) fun x hx => ?_
  have hsorted : ∀ y ∈ x.1.mergeSort fun a b => decide (b.stop ≤ a.stop),
      N y.child ∧ Tiles c.text start y.stop y.results := fun y hy => hx y (List.mem_mergeSort.mp hy)
  cases acts with
  | true => exact h.matchCandidates_spelled hp rule (fun y hy => (hsorted y hy).1) (by simp) _
  | false =>
    dsimp only
    split
    · exact absurd ‹false = true› Bool.false_ne_true
    · split
      · next y ys hy => exact Spelled.pure (hsorted y (by rw [hy]; exact List.mem_cons_self)).2
      · exact Spelled.pure (spells_choiceFailure _ _ _ _ _)

/-! ## Children in any order -/

omit h in
/-- What a round runs later is what its items run. -/
theorem order_of_discoverRound {items : List (EachItem × Nat)} (hrun : ∀ x ∈ items, N x.1.run) {d : Discovery}
    (hd : ∀ i ∈ d.order, N i) (progressed : Bool) :
    Gives (fun x => ∀ i ∈ x.1.order, N i) (discoverRound a c items d progressed) := by
  induction items generalizing d progressed with
  | nil => exact Gives.pure hd
  | cons x items ih =>
    have ih := @ih fun y hy => hrun y (List.mem_cons_of_mem _ hy)
    obtain ⟨item, i⟩ := x
    rw [discoverRound]
    split
    · exact ih hd progressed
    · refine Gives.after fun step => ?_
      cases step with
      | failed _ => exact ih hd progressed
      | matched stop r =>
        dsimp only
        split
        · refine ih (fun j hj => ?_) true
          rcases List.mem_cons.mp hj with rfl | hj
          · exact hrun (item, i) List.mem_cons_self
          · exact hd j hj
        · exact ih hd progressed

omit h in
theorem order_of_discover {items : List (EachItem × Nat)} (hrun : ∀ x ∈ items, N x.1.run) (fuel : Nat) {d : Discovery}
    (hd : ∀ i ∈ d.order, N i) : Gives (fun x => ∀ i ∈ x.order, N i) (discover a c items fuel d) := by
  induction fuel generalizing d with
  | zero => exact Gives.pure hd
  | succ fuel ih =>
    rw [discover]
    refine Gives.bind (order_of_discoverRound hrun hd false) fun x hx => ?_
    obtain ⟨d', progressed⟩ := x
    cases progressed with
    | true => exact ih hx
    | false => exact Gives.pure hx

theorem runInOrder_spelled (hp : c.text.IsBoundary start) (acts : Bool) {order : List ExprId} (hi : ∀ i ∈ order, N i)
    {loc : Nat} {results : Results} (hresults : Tiles c.text start loc results) :
    Spelled c.text start (runInOrder a c acts order loc results) := by
  induction order generalizing loc results with
  | nil => exact Spelled.pure hresults
  | cons i order ih =>
    rw [runInOrder]
    exact Spelled.step (h.spells (hi i List.mem_cons_self) hresults.place.site)
      (fun stop part hpart => ih (fun j hj => hi j (List.mem_cons_of_mem _ hj)) (hresults.extend hp hpart))
      fun d => Spelled.pure trivial

theorem matchEach_spelled (hN : g.KeepsText N) (hp : c.text.IsBoundary start) (acts : Bool) {children : List ExprId}
    (hi : ∀ i ∈ children, N i) : Spelled c.text start (matchEach a c children start acts) := by
  let items := (children.map fun i => EachItem.ofChild i (g.rule i).kind).zipIdx
  have hitems : ∀ x ∈ items, N x.1.run := fun x hx =>
    (EachItem.items_within hi (fun i hi inner hinner => hN.child hi hinner.mem_children) x hx).2
  have hplaced := Upkeep.discover_run (U := Upkeep.places g) h.sound h.grammar (fun x (_ : x ∈ items) => trivial)
    (fun _ _ => trivial) (items.length + c.text.size + 2) (d := ⟨start, [], []⟩) (Sites.From.self hp) (by simp)
  simp only [matchEach, h.rule_eq]
  refine Keeps.bind ((hplaced.gives (order_of_discover hitems _ (by simp))).mono (fun _ => id) fun _ _ => trivial)
    fun d hd => ?_
  split
  · exact Spelled.pure trivial
  · refine h.runInOrder_spelled hp acts (fun j hj => ?_) (Tiles.nothing hp rfl)
    rcases List.mem_append.mp hj with hj | hj
    · exact hd j (List.mem_reverse.mp hj)
    · obtain ⟨x, hx, rfl⟩ := List.mem_map.mp hj
      exact hitems x (List.mem_filter.mp hx).1

/-! ## Repetitions -/

theorem repeatRounds_spelled (hp : c.text.IsBoundary start) {child : ExprId} (hi : N child) (max : Option Nat)
    (stop : Option ExprId) (acts : Bool) (fuel : Nat) {r : Rounds} (hr : Tiles c.text start r.loc r.results) :
    Keeps (State.Placed .places c.text) (fun _ => True) (fun r => Tiles c.text start r.loc r.results)
      (repeatRounds a c child max stop acts fuel r) := by
  induction fuel generalizing r with
  | zero => exact Keeps.pure hr
  | succ fuel ih =>
    have hround : Keeps (State.Placed .places c.text) (fun _ => True) (fun r => Tiles c.text start r.loc r.results)
        (takeRound a c child acts (repeatRounds a c child max stop acts fuel) r) := by
      refine Keeps.bind (h.spells hi hr.place.site) fun step hstep => ?_
      cases step with
      | failed d => exact Keeps.pure hr
      | matched after part =>
        have hnext : Tiles c.text start after (r.results.extend part) := hr.extend hp hstep
        dsimp only
        split
        · exact ih hnext
        · exact Keeps.pure hnext
    rw [repeatRounds]
    split
    · exact Keeps.pure hr
    · cases stop with
      | none => exact hround
      | some i =>
        have hprobe := Upkeep.probe_quiet (U := Upkeep.places g) h.sound h.grammar (i := i) trivial hr.place.site
        refine Keeps.bind (Keeps.mono hprobe (fun _ => id) fun _ _ => trivial) fun step _ => ?_
        cases step with
        | matched _ _ => exact Keeps.pure hr
        | failed _ => exact hround

theorem matchRepetition_spelled (hp : c.text.IsBoundary start) (rule : Rule) {child : ExprId} (hi : N child)
    (min : Nat) (max : Option Nat) (stop : Option ExprId) (acts : Bool) :
    Spelled c.text start (matchRepetition a c rule child min max stop start acts) := by
  rw [matchRepetition]
  refine Keeps.bind (h.repeatRounds_spelled hp hi max stop acts _ (r := ⟨start, 0, {}, none⟩) (Tiles.nothing hp rfl))
    fun r hr => ?_
  split
  · refine Spelled.pure ?_
    split
    · trivial
    · trivial
  · exact Spelled.pure hr

/-! ## Looking behind and skipping ahead -/

theorem matchPrecededBy_spelled (hp : c.text.IsBoundary start) (rule : Rule) (child : ExprId) (retreat : Option Nat)
    (acts : Bool) : Spelled c.text start (matchPrecededBy a c rule child retreat start acts) := by
  have hchild : (Upkeep.places g).nodes child := trivial
  refine Spelled.of_run (Upkeep.matchPrecededBy_run h.sound h.grammar rule hchild retreat hp acts) ?_
  unfold matchPrecededBy
  refine Gives.after fun found => ?_
  cases found with
  | some r => exact Gives.pure (Tiles.nothing hp rfl)
  | none => exact Gives.pure trivial

/-- The text up to the target is one token, and the target follows it. -/
theorem matchSkipTo_spelled (hp : c.text.IsBoundary start) (rule : Rule) {target : ExprId} (hi : N target)
    (includes : Bool) (failOn : Option ExprId) (acts : Bool) :
    Spelled c.text start (matchSkipTo a c rule target includes failOn start acts) := by
  have htarget : (Upkeep.places g).nodes target := trivial
  have hfail : ∀ i ∈ failOn, (Upkeep.places g).nodes i := fun _ _ => trivial
  have hahead := Upkeep.findAhead_quiet h.sound h.grammar htarget hfail (c.text.size + 2)
    (Or.inl (Sites.From.self hp))
  rw [matchSkipTo]
  refine Keeps.bind (Keeps.mono hahead (fun _ => id) fun _ _ => trivial) fun found hfound => ?_
  cases found with
  | none => exact Spelled.pure trivial
  | some loc =>
    have hskipped := Tiles.slice (hfound loc rfl)
    cases includes with
    | false => exact Spelled.pure hskipped
    | true =>
      exact Spelled.step (h.spells hi hskipped.place.site)
        (fun stop part hpart => Spelled.pure (hskipped.extend hp hpart)) fun d => Spelled.pure trivial

/-! ## Nodes -/

/-- Every kind of node that keeps the text spells what it matches, inside a region. -/
theorem matchNode_spelled (hN : g.KeepsText N) (hregion : c.adjacent = true)
    (hseedless : c.config.memoization ≠ .leftRecursion) {i : ExprId} (hi : N i) (hp : c.text.IsBoundary start)
    (acts : Bool) : Spelled c.text start (matchNode a c i (g.rule i) start acts) := by
  have hkind := hN.kind hi
  have hchild {j} (hj : j ∈ (g.rule i).kind.children) : N j := hN.child hi hj
  have honly {j} (hj : (g.rule i).kind.children = [j]) : N j := hchild (by simp [hj])
  have hrun := Upkeep.matchNode_run (U := Upkeep.places g) h.sound h.grammar (i := i) trivial hp acts
  cases hk : (g.rule i).kind with
  | literal | keyword | word | charsNotIn | pattern =>
    simp only [matchNode, hk]
    exact Spelled.pure (spells_matchToken hp _ hkind)
  | stringEnd | lineStart | lineEnd | wordStart | wordEnd =>
    simp only [matchNode, hk]
    exact Spelled.pure (spells_testPosition hp _)
  | empty | commit =>
    simp only [matchNode, hk]
    exact Spelled.pure (Tiles.nothing hp rfl)
  | noMatch =>
    simp only [matchNode, hk]
    exact Spelled.pure trivial
  | sequence children =>
    simp only [matchNode, hk]
    exact h.matchSequence_spelled hp acts (fun j hj => hchild (by rwa [hk])) _ _ (Tiles.nothing hp rfl)
  | orderedChoice children =>
    simp only [matchNode, hk]
    exact h.matchFirst_spelled hp _ acts (fun j hj => hchild (by rwa [hk])) _
  | longestChoice children =>
    simp only [matchNode, hk]
    exact h.matchLongest_spelled hp _ (fun j hj => hchild (by rwa [hk])) _
  | each children =>
    simp only [matchNode, hk]
    exact h.matchEach_spelled hN hp _ fun j hj => hchild (by rwa [hk])
  | repetition child min max stop =>
    simp only [matchNode, hk]
    exact h.matchRepetition_spelled hp _ (hchild (by simp [hk, NodeKind.children])) _ _ _ _
  | optional child default =>
    obtain rfl : default = none := by simpa [hk, NodeKind.keepsText] using hkind
    simp only [matchNode, hk]
    exact Spelled.step (h.spells (honly (by rw [hk]; rfl)) hp) (fun stop r hr => Spelled.pure hr)
      fun _ => Spelled.pure (Tiles.nothing hp rfl)
  | lookahead child =>
    refine Spelled.of_run hrun ?_
    simp only [matchNode, hk]
    refine Gives.after fun step => ?_
    cases step with
    | matched _ r => exact Gives.pure (Tiles.nothing hp rfl)
    | failed d => exact Gives.pure trivial
  | notAhead child =>
    refine Spelled.of_run hrun ?_
    simp only [matchNode, hk]
    refine Gives.after fun step => ?_
    cases step with
    | matched _ r => exact Gives.pure trivial
    | failed d => exact Gives.pure (Tiles.nothing hp rfl)
  | precededBy child retreat =>
    simp only [matchNode, hk]
    exact h.matchPrecededBy_spelled hp _ child retreat acts
  | forward label target =>
    cases target with
    | none =>
      simp only [matchNode, hk]
      exact Spelled.halt _
    | some target =>
      simp only [matchNode, hk, hseedless, if_false]
      exact h.spells (hchild (by simp [hk, NodeKind.children])) hp
  | transform child action => exact absurd hkind (by simp [hk, NodeKind.keepsText])
  | suppress child => exact absurd hkind (by simp [hk, NodeKind.keepsText])
  | named child name accumulates =>
    simp only [matchNode, hk]
    exact (h.spells (honly (by rw [hk]; rfl)) hp).mapResults fun r =>
      ResultsOf.spelling_congr (ResultsOf.tokens_nameTokens _ _ _ r)
  | group child =>
    simp only [matchNode, hk]
    exact (h.spells (honly (by rw [hk]; rfl)) hp).mapResults ResultsOf.spelling_group
  | dict child =>
    simp only [matchNode, hk]
    exact (h.spells (honly (by rw [hk]; rfl)) hp).mapResults fun r =>
      ResultsOf.spelling_congr (ResultsOf.tokens_nameGroupsByKey r)
  | combine child joiner =>
    obtain rfl : joiner = "" := by simpa [hk, NodeKind.keepsText] using hkind
    have hsame : c.combined = c := by rw [Context.combined, ← hregion]
    simp only [matchNode, hk, hsame]
    exact (h.spells (honly (by rw [hk]; rfl)) hp).mapResults ResultsOf.spelling_joined
  | originalText child =>
    simp only [matchNode, hk]
    refine Spelled.step (h.spells (honly (by rw [hk]; rfl)) hp) (fun stop r hr => Spelled.pure ?_)
      fun d => Spelled.pure trivial
    exact (Tiles.slice hr.place).congr (ResultsOf.spelling_congr rfl)
  | skipTo target includes failOn =>
    simp only [matchNode, hk]
    exact h.matchSkipTo_spelled hp _ (hchild (by simp [hk, NodeKind.children])) _ _ _
  | stringStart =>
    refine Spelled.of_run hrun ?_
    simp only [matchNode, hk]
    refine Gives.after fun b => ?_
    cases b with
    | true => exact Gives.pure (Tiles.nothing hp rfl)
    | false => exact Gives.pure trivial

end Attempts
end SpellsIn

/-! ## Attempts inside a region -/

/-- A match that is the answer as that of a node was matched. -/
theorem exists_of_asOf {i : ExprId} {res : EStateM.Result Halt State Step} {stop : Nat} {r : Results}
    (h : (answerOf? res).map (Answer.asOf i) = some (.ok (.matched stop r))) :
    ∃ r' s', res = .ok (.matched stop r') s' ∧ r'.withOrigin i = r := by
  obtain ⟨o, ho, hasOf⟩ := Option.map_eq_some_iff.mp h
  rcases o with e | step
  · exact absurd hasOf (by simp [Answer.asOf, Except.map])
  · obtain ⟨s', hres⟩ := answerOf?_eq_ok ho
    cases step with
    | failed d => exact absurd hasOf (by simp [Answer.asOf, Except.map, Step.mapResults])
    | matched stop' r' =>
      obtain ⟨rfl, rfl⟩ : stop' = stop ∧ r'.withOrigin i = r := by
        simpa [Answer.asOf, Except.map, Step.mapResults] using hasOf
      exact ⟨r', s', hres, rfl⟩

section Region

variable {g : Grammar} {N : ExprId → Prop} {t : Text} {k : Nat}

/-- Told attempts spell what they match when the answers they are told do. -/
theorem spellsIn_told
    (htiles : ∀ {i p acts skips stop r}, N i → t.IsBoundary p →
      g.answer? t k ⟨i, p, acts, skips, true⟩ = some (.ok (.matched stop r)) → Tiles t p stop r) :
    SpellsIn g N (told g k) (plainContext g t true) where
  grammar := rfl
  sound := (Upkeep.places g).told_sound k
  spells := by
    intro i p acts skips hi hp
    refine Spelled.of_run ((Upkeep.places g).told_sound k rfl trivial hp) ?_
    intro s step s' hrun
    cases step with
    | failed d => trivial
    | matched stop r => exact htiles hi hp (answer?_of_told ((told_still g k _ i p acts skips).eq_pure hrun))

/-- **Attempts inside a region tile the text.** By induction on the room: they skip nothing, so what their nodes match
begins where they are made. -/
theorem answer?_tiles (hN : g.KeepsText N) {i : ExprId} (hi : N i) {p : Nat} (hp : t.IsBoundary p) {acts skips : Bool}
    {stop : Nat} {r : Results} (h : g.answer? t k ⟨i, p, acts, skips, true⟩ = some (.ok (.matched stop r))) :
    Tiles t p stop r := by
  induction k generalizing i p acts skips stop r with
  | zero => exact absurd (show none = some (Except.ok (Step.matched stop r)) from h) (by simp)
  | succ k ih =>
    have hbegins : g.begins t k true (g.rule i) p skips = pure p := by simp [Grammar.begins]
    rw [answer?_of_begins hbegins acts (State.initial {})] at h
    obtain ⟨r', s', hrun, rfl⟩ := exists_of_asOf h
    have hspelled := (spellsIn_told fun hi hp h => ih hi hp h).matchNode_spelled hN rfl (by simp [plainContext]) hi hp
      acts (State.initial {}) (State.Placed.initial _ _ _)
    rw [hrun] at hspelled
    exact hspelled.1.congr (ResultsOf.spelling_withOrigin i r')

end Region

/-! ## Combined matches -/

/-- What a node has beneath it: itself, its children, their children, and so on. -/
def Grammar.Beneath (g : Grammar) : ExprId → ExprId → Prop :=
  Relation.ReflTransGen fun i j => j ∈ (g.rule i).kind.children

/-- Nodes that a node has beneath it keep the text when each of them does. -/
theorem Grammar.keepsText_beneath {g : Grammar} {child : ExprId}
    (h : ∀ j, g.Beneath child j → (g.rule j).kind.keepsText = true) : g.KeepsText (g.Beneath child) where
  kind hi := h _ hi
  child hi hj := hi.tail hj

/-- Where an attempt begins, given room enough for what it skips. -/
def Grammar.BeginsAt (g : Grammar) (t : Text) (adjacent : Bool) (rule : Rule) (p : Nat) (skips : Bool)
    (start : Nat) : Prop :=
  ∃ k, g.begins t k adjacent rule p skips = pure start

/-- An attempt begins at one place. -/
theorem Grammar.BeginsAt.unique {g : Grammar} {t : Text} {adjacent : Bool} {rule : Rule} {p start start' : Nat}
    {skips : Bool} (h : g.BeginsAt t adjacent rule p skips start) (h' : g.BeginsAt t adjacent rule p skips start') :
    start = start' := by
  obtain ⟨k, hk⟩ := h
  obtain ⟨k', hk'⟩ := h'
  exact pure_inj ((begins_of_le g t k adjacent (Nat.le_max_left k k') hk).symm.trans
    (begins_of_le g t k' adjacent (Nat.le_max_right k k') hk'))

theorem Grammar.from_of_begins {g : Grammar} {t : Text} {k : Nat} {adjacent : Bool} {rule : Rule} {p start : Nat}
    {skips : Bool} (hp : t.IsBoundary p) (h : g.begins t k adjacent rule p skips = pure start) :
    Sites.places.From t p start := by
  unfold Grammar.begins at h
  split at h
  · exact Keeps.of_pure (Upkeep.skipLeading_quiet (U := Upkeep.places g) (c := plainContext g t adjacent)
      ((Upkeep.places g).told_sound k) rfl (fun _ _ => trivial) hp) h
  · obtain rfl := pure_inj h
    exact Sites.From.self hp

/-- **A combined match gives one token, the slice that it takes**, whatever its nodes skip elsewhere: a combined
expression without joiner beneath which every expression keeps the text. Where outcomes are remembered, any tables
that hold answers will do. -/
theorem combine_slice {g : Grammar} {c : Context} (hg : c.grammar = g) (hc : c.config.memoization ≠ .leftRecursion)
    {i child : ExprId} (hkind : (g.rule i).kind = .combine child "")
    (hkeeps : ∀ j, g.Beneath child j → (g.rule j).kind.keepsText = true) {n p : Nat} (hp : c.text.IsBoundary p)
    {acts skips : Bool} {s s' : State} (hs : s.Truthful g c.text) {stop : Nat} {r : Results}
    (h : attemptWithin n c i p acts skips s = .ok (.matched stop r) s') :
    ∃ start, g.BeginsAt c.text c.adjacent (g.rule i) p skips start ∧ p ≤ start ∧ start ≤ stop ∧
      r.tokens = [Value.ofText (c.text.slice start stop)] := by
  obtain ⟨k, hk⟩ : g.Settles c.text (c.key i p acts skips) (.ok (.matched stop r)) :=
    settles_of_answerOf? hg hc hp hs (by rw [h]; rfl)
  have hanswer : g.answer? c.text (k + 1) ⟨i, p, acts, skips, c.adjacent⟩ = some (.ok (.matched stop r)) :=
    Grammar.answer?_of_le (Nat.le_succ k) hk
  rcases begins_still g c.text k c.adjacent (g.rule i) p skips with ⟨start, hbegins⟩ | ⟨e, hbegins⟩
  · have hstart := Grammar.from_of_begins hp hbegins
    rw [answer?_of_begins hbegins acts (State.initial {})] at hanswer
    obtain ⟨r', s'', hrun, rfl⟩ := exists_of_asOf hanswer
    simp only [matchNode, hkind] at hrun
    rcases told_still g k (plainContext g c.text c.adjacent).combined child start acts false with
      ⟨step, htold⟩ | ⟨e, htold⟩
    · rw [htold, pure_bind] at hrun
      obtain ⟨hstep, -⟩ := EStateM.Result.ok.inj hrun
      cases step with
      | failed d => exact absurd hstep (by simp [Step.mapResults])
      | matched stop' inside =>
        obtain ⟨rfl, rfl⟩ := Step.matched.inj hstep
        have htiles : Tiles c.text start stop' inside :=
          answer?_tiles (Grammar.keepsText_beneath hkeeps) .refl hstart.site (answer?_of_told htold)
        refine ⟨start, ⟨k, hbegins⟩, hstart.le, htiles.place.le, ?_⟩
        rw [← htiles.spelling]
        exact inside.tokens_joined
    · rw [htold] at hrun
      exact absurd hrun (by simp [bind, EStateM.bind, MatchM.halt])
  · rw [answer?_of_begins_halt hbegins acts] at hanswer
    obtain ⟨s'', hrun⟩ := answerOf?_eq_ok hanswer
    exact absurd hrun (by simp)

/-- Letters after a blank, joined in an attempt that remembers. -/
theorem combine_slice_letters :
    let g := Grammar.ofKinds [.literal "a" false, .repetition 0 1 none none, .combine 1 ""] 2
    let config : Config := { memoization := .packrat (some 9) }
    let c := Context.top g config default [' ', 'a', 'a']
    ∃ stop r s', attemptWithin 4 c 2 0 true true (State.initial config) = .ok (.matched stop r) s' ∧
      ∃ start, g.BeginsAt c.text c.adjacent (g.rule 2) 0 true start ∧ 0 ≤ start ∧ start ≤ stop ∧
        r.tokens = [Value.ofText (c.text.slice start stop)] := by
  intro g config c
  have hkeeps : ∀ j, g.Beneath 1 j → (g.rule j).kind.keepsText = true := by
    intro j _
    have hkind := Grammar.kind_ofKinds [.literal "a" false, .repetition 0 1 none none, .combine 1 ""] 2 j
    simp only [List.mem_cons, List.not_mem_nil, or_false] at hkind
    rcases hkind with hkind | hkind | hkind | hkind
    all_goals
      rw [hkind]
      rfl
  obtain ⟨step, s', hrun, hmatch⟩ := exists_of_matches? (x := attemptWithin 4 c 2 0 true true (State.initial config))
    (b := true) (by decide +kernel)
  cases step with
  | failed d => exact absurd hmatch Bool.false_ne_true
  | matched stop r =>
    exact ⟨stop, r, s', hrun, combine_slice (c := c) rfl (by simp [c, config, Context.top]) rfl hkeeps
      (Text.isBoundary_zero _) (State.Truthful.initial g c.text config) hrun⟩

end Packrat
