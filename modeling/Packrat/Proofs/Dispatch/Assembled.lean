import Packrat.Proofs.Region.Tiling

/-!
# `Packrat.Proofs.Dispatch.Assembled` — what matching is put together from

Every way of matching a node is put together from attempts of other nodes: one after the other, recovered from, or made
aside. What else it does makes no attempt: it sets seeds, counts their growth, and takes down what actions note. Said
once for two families of attempts side by side, this gives both what matching depends on and what it keeps: it is the
same for families that attempt the nodes concerned alike, and it keeps what the attempts keep.

## Contents

* `State.Unattempted`, `MatchM.MakesNoAttempt` — what is left alone where nothing is attempted;
* `Grammar.Contexts` — sets of contexts that stay among themselves while matching;
* `Assembled` — computations put together in the same way, with `Assembled.eq` and `Assembled.keeps`;
* `NodeKind.attempted`, `Grammar.AttemptsWithin` — the nodes that matching a node attempts;
* `skipLeading_assembled`, `matchSequence_assembled`, … — one lemma for each way of matching;
* `matchNode_assembled` — **matching a node is put together from attempts**;
* `perform_eq`, `perform_keeps` — and so it keeps what they keep.
-/

namespace Packrat

/-! ## Computations put together from attempts -/

/-- A state that came of another without an attempt: what is remembered and what is counted of attempts is the same, and
the journal has at most notes of actions more. -/
structure State.Unattempted (s' s : State) : Prop where
  memo : s'.memo = s.memo
  attempts : s'.metrics.attempts = s.metrics.attempts
  hits : s'.metrics.hits = s.metrics.hits
  misses : s'.metrics.misses = s.metrics.misses
  journal : ∃ lines : List String, s'.journal = lines.map Event.note ++ s.journal

/-- What only sets seeds and counts growth makes no attempt. -/
theorem State.Unattempted.of_seeds {s s' : State} (hmemo : s'.memo = s.memo) (hjournal : s'.journal = s.journal)
    (hmetrics : ∃ growths, s'.metrics = { s.metrics with growths }) : s'.Unattempted s := by
  obtain ⟨growths, hmetrics⟩ := hmetrics
  refine ⟨hmemo, ?_, ?_, ?_, [], hjournal⟩
  · rw [hmetrics]
  · rw [hmetrics]
  · rw [hmetrics]

/-- A computation that gives a value without an attempt. -/
def MatchM.MakesNoAttempt {α : Type} (m : MatchM α) : Prop := ∀ s, ∃ x s', m s = .ok x s' ∧ s'.Unattempted s

/-- Contexts with a grammar of which matching makes only others of the same set. -/
structure Grammar.Contexts (g : Grammar) (C : Context → Prop) : Prop where
  grammar : ∀ {c}, C c → c.grammar = g
  deeper : ∀ {c}, C c → C c.deeper
  combined : ∀ {c}, C c → C c.combined
  behind : ∀ {c}, C c → ∀ p, C (c.behind p)

/-- All contexts with the grammar. -/
theorem Grammar.Contexts.all (g : Grammar) : g.Contexts fun c => c.grammar = g :=
  ⟨id, id, id, fun h _ => h⟩

/-- Whether matching an expression looks back at all. -/
def NodeKind.looksBack : NodeKind → Bool
  | .precededBy _ retreat => retreat != some 0
  | _ => false

/-- Two computations put together in the same way, out of attempts of nodes with `N` in contexts with `C`, the first one
out of those of the first family and the second one out of those of the second, on a text. Something is made aside only
where some of the nodes looks back. -/
inductive Assembled (g : Grammar) (C : Context → Prop) (N : ExprId → Prop) (a₁ a₂ : Attempt) :
    Text → {α : Type} → MatchM α → MatchM α → Prop
  | pure {t : Text} {α : Type} (x : α) : Assembled g C N a₁ a₂ t (pure x) (pure x)
  | halt {t : Text} {α : Type} (h : Halt) :
    Assembled g C N a₁ a₂ t (MatchM.halt h : MatchM α) (MatchM.halt h)
  | apart {t : Text} {α : Type} {m : MatchM α} (h : m.MakesNoAttempt) : Assembled g C N a₁ a₂ t m m
  | attempt {c : Context} {i : ExprId} (hc : C c) (hi : N i) (p : Nat) (acts skips : Bool) :
    Assembled g C N a₁ a₂ c.text (a₁ c i p acts skips) (a₂ c i p acts skips)
  | bindOf {t : Text} {α β : Type} {P : α → Prop} {m₁ m₂ : MatchM α} {f₁ f₂ : α → MatchM β}
    (hm : Assembled g C N a₁ a₂ t m₁ m₂) (h₁ : Gives P m₁) (h₂ : Gives P m₂)
    (hf : ∀ x, P x → Assembled g C N a₁ a₂ t (f₁ x) (f₂ x)) : Assembled g C N a₁ a₂ t (m₁ >>= f₁) (m₂ >>= f₂)
  | recover {t : Text} {m₁ m₂ : MatchM Step} (hm : Assembled g C N a₁ a₂ t m₁ m₂) :
    Assembled g C N a₁ a₂ t (MatchM.recover m₁) (MatchM.recover m₂)
  | aside {c : Context} {t : Text} {α : Type} {m₁ m₂ : MatchM α} (hc : C c)
    (hback : ∃ i, N i ∧ (g.rule i).kind.looksBack = true) (hm : Assembled g C N a₁ a₂ t m₁ m₂) :
    Assembled g C N a₁ a₂ c.text (Packrat.aside c.config m₁) (Packrat.aside c.config m₂)

namespace Assembled

variable {g : Grammar} {C : Context → Prop} {N : ExprId → Prop} {a₁ a₂ : Attempt} {t : Text} {α β : Type}

/-- One after the other, whatever comes of the first one. -/
theorem bind {m₁ m₂ : MatchM α} {f₁ f₂ : α → MatchM β} (hm : Assembled g C N a₁ a₂ t m₁ m₂)
    (hf : ∀ x, Assembled g C N a₁ a₂ t (f₁ x) (f₂ x)) : Assembled g C N a₁ a₂ t (m₁ >>= f₁) (m₂ >>= f₂) :=
  hm.bindOf (P := fun _ => True) (fun _ _ _ _ => trivial) (fun _ _ _ _ => trivial) fun x _ => hf x

/-- What follows a search, when nothing is found and when something is. -/
theorem option {m₁ m₂ : MatchM (Option α)} {f₁ f₂ : Option α → MatchM β} (hm : Assembled g C N a₁ a₂ t m₁ m₂)
    (hnone : Assembled g C N a₁ a₂ t (f₁ none) (f₂ none))
    (hsome : ∀ x, Assembled g C N a₁ a₂ t (f₁ (some x)) (f₂ (some x))) :
    Assembled g C N a₁ a₂ t (m₁ >>= f₁) (m₂ >>= f₂) := by
  apply hm.bind
  rintro (_ | x)
  · exact hnone
  · exact hsome x

/-- What follows an attempt, after a match and after a failure. -/
theorem step {m₁ m₂ : MatchM Step} {f₁ f₂ : Step → MatchM β} (hm : Assembled g C N a₁ a₂ t m₁ m₂)
    (hmatched : ∀ stop r, Assembled g C N a₁ a₂ t (f₁ (.matched stop r)) (f₂ (.matched stop r)))
    (hfailed : ∀ d, Assembled g C N a₁ a₂ t (f₁ (.failed d)) (f₂ (.failed d))) :
    Assembled g C N a₁ a₂ t (m₁ >>= f₁) (m₂ >>= f₂) := by
  apply hm.bind
  rintro (⟨stop, r⟩ | d)
  · exact hmatched stop r
  · exact hfailed d

theorem ite {p : Prop} [Decidable p] {m₁ m₂ m₁' m₂' : MatchM α} (h : p → Assembled g C N a₁ a₂ t m₁ m₂)
    (h' : ¬ p → Assembled g C N a₁ a₂ t m₁' m₂') :
    Assembled g C N a₁ a₂ t (if p then m₁ else m₁') (if p then m₂ else m₂') := by
  by_cases hp : p
  · rw [if_pos hp, if_pos hp]
    exact h hp
  · rw [if_neg hp, if_neg hp]
    exact h' hp

/-- **Computations put together from the same attempts are the same.** -/
theorem eq {m₁ m₂ : MatchM α} (h : Assembled g C N a₁ a₂ t m₁ m₂)
    (ha : ∀ {c i p acts skips}, C c → N i → a₁ c i p acts skips = a₂ c i p acts skips) : m₁ = m₂ := by
  induction h with
  | pure x => rfl
  | halt h => rfl
  | apart h => rfl
  | attempt hc hi p acts skips => exact ha hc hi
  | @bindOf t α β P m₁ m₂ f₁ f₂ hm h₁ h₂ hf ihm ihf =>
    subst ihm
    funext s
    cases hr : m₁ s with
    | ok x s' => rw [bind_ok hr, bind_ok hr, ihf x (h₁ s x s' hr)]
    | error e s' => rw [bind_error hr, bind_error hr]
  | recover hm ih => rw [ih]
  | aside hc hback hm ih => rw [ih]

/-- **What attempts keep is kept** by what is put together from them, if it is kept where nothing is attempted and where
what is made aside is taken over. -/
theorem keeps {I : Text → State → Prop} {m₁ m₂ : MatchM α} (h : Assembled g C N a₁ a₂ t m₁ m₂)
    (ha : ∀ {c i p acts skips}, C c → N i → Keeps (I c.text) (fun _ => True) (fun _ => True) (a₁ c i p acts skips))
    (hapart : ∀ {t s s'}, State.Unattempted s' s → I t s → I t s')
    (haside : (∃ i, N i ∧ (g.rule i).kind.looksBack = true) → ∀ {t s} (journal : List Event) (attempts : Nat), I t s →
      I t { s with journal, metrics := { s.metrics with attempts := s.metrics.attempts + attempts } }) :
    Keeps (I t) (fun _ => True) (fun _ => True) m₁ := by
  induction h with
  | pure x => exact Keeps.pure trivial
  | halt h => exact Keeps.halt trivial
  | @apart t α m h =>
    intro s hs
    obtain ⟨x, s', hrun, hless⟩ := h s
    rw [hrun]
    exact ⟨trivial, hapart hless hs⟩
  | attempt hc hi p acts skips => exact ha hc hi
  | bindOf hm h₁ h₂ hf ihm ihf => exact (ihm.gives h₁).bind ihf
  | recover hm ih => exact (ih.recover fun _ _ => trivial).mono (fun _ => id) fun _ _ => trivial
  | @aside c t α m₁ m₂ hc hback hm ih =>
    -- of what is done aside only the journal and the number of attempts count
    intro s hs
    unfold Packrat.aside
    cases m₁ { State.initial c.config with journal := s.journal } with
    | ok x s' => exact ⟨trivial, haside hback s'.journal s'.metrics.attempts hs⟩
    | error e s' => exact ⟨trivial, haside hback s'.journal 0 hs⟩

/-- What attempts keep of the remembered outcomes is kept by what is put together from them. -/
theorem keeps_memo {J : Text → Memo → Prop} {m₁ m₂ : MatchM α} (h : Assembled g C N a₁ a₂ t m₁ m₂)
    (ha : ∀ {c i p acts skips}, C c → N i →
      Keeps (fun s => J c.text s.memo) (fun _ => True) (fun _ => True) (a₁ c i p acts skips)) :
    Keeps (fun s => J t s.memo) (fun _ => True) (fun _ => True) m₁ :=
  h.keeps (I := fun t s => J t s.memo) ha (fun hless hs => hless.memo ▸ hs) fun _ _ _ _ _ hs => hs

end Assembled

/-! ## The nodes that are attempted -/

/-- The nodes that matching an expression attempts: its children, of a sequence all but the commit markers. -/
def NodeKind.attempted (g : Grammar) : NodeKind → List ExprId
  | .sequence children => children.filter fun j => !(g.rule j).kind.isCommit
  | k => k.children

theorem NodeKind.Wraps.mem_attempted {k : NodeKind} {inner : ExprId} (h : k.Wraps inner) (g : Grammar) :
    inner ∈ k.attempted g := by
  cases h <;> simp [NodeKind.attempted, NodeKind.children]

/-- Matching nodes of a set, and what is skipped before them, attempts nodes of the set. -/
structure Grammar.AttemptsWithin (g : Grammar) (N : ExprId → Prop) : Prop where
  child : ∀ {i j}, N i → j ∈ (g.rule i).kind.attempted g → N j
  ignored : ∀ {i j}, N i → j ∈ (g.rule i).ignores → N j

/-- All nodes. -/
theorem Grammar.AttemptsWithin.all (g : Grammar) : g.AttemptsWithin fun _ => True :=
  ⟨fun _ _ => trivial, fun _ _ => trivial⟩

/-! ## Ways of matching -/

namespace Assembled

variable {g : Grammar} {C : Context → Prop} {N : ExprId → Prop} {a₁ a₂ : Attempt} {c : Context}
  (hC : g.Contexts C) (hc : C c)
include hc

/-! ### Skipping -/

theorem probe {i : ExprId} (hi : N i) (p : Nat) :
    Assembled g C N a₁ a₂ c.text (Packrat.probe a₁ c i p) (Packrat.probe a₂ c i p) :=
  (attempt hc hi p false true).recover

theorem skipOne_assembled {i : ExprId} (hi : N i) (fuel loc : Nat) :
    Assembled g C N a₁ a₂ c.text (skipOne a₁ c i fuel loc) (skipOne a₂ c i fuel loc) := by
  induction fuel generalizing loc with
  | zero => exact pure _
  | succ fuel ih =>
    rw [skipOne, skipOne]
    refine (probe hc hi loc).step ?_ fun _ => pure _
    intro stop _
    exact ite (fun _ => pure _) fun _ => ih stop

theorem skipEach_assembled {ignores : List ExprId} (hi : ∀ i ∈ ignores, N i) (loc : Nat) :
    Assembled g C N a₁ a₂ c.text (skipEach a₁ c ignores loc) (skipEach a₂ c ignores loc) := by
  induction ignores generalizing loc with
  | nil => exact pure _
  | cons i ignores ih =>
    exact (skipOne_assembled hc (hi i List.mem_cons_self) _ loc).bind (ih fun j hj => hi j (List.mem_cons_of_mem _ hj))

theorem skipRounds_assembled {ignores : List ExprId} (hi : ∀ i ∈ ignores, N i) (fuel loc : Nat) :
    Assembled g C N a₁ a₂ c.text (skipRounds a₁ c ignores fuel loc) (skipRounds a₂ c ignores fuel loc) := by
  induction fuel generalizing loc with
  | zero => exact pure _
  | succ fuel ih =>
    rw [skipRounds, skipRounds]
    apply (skipEach_assembled hc hi loc).bind
    intro after
    exact ite (fun _ => pure _) fun _ => ih after

theorem skipIgnorables_assembled {ignores : List ExprId} (hi : ∀ i ∈ ignores, N i) (loc : Nat) :
    Assembled g C N a₁ a₂ c.text (skipIgnorables a₁ c ignores loc) (skipIgnorables a₂ c ignores loc) := by
  rw [skipIgnorables, skipIgnorables]
  exact ite (fun _ => pure _) fun _ => skipRounds_assembled hc hi _ loc

theorem skipLeading_assembled {rule : Rule} (hi : ∀ i ∈ rule.ignores, N i) (loc : Nat) :
    Assembled g C N a₁ a₂ c.text (skipLeading a₁ c rule loc) (skipLeading a₂ c rule loc) :=
  (skipIgnorables_assembled hc hi loc).bind fun _ => pure _

theorem atTextStart_assembled {rule : Rule} (hi : ∀ i ∈ rule.ignores, N i) (start : Nat) :
    Assembled g C N a₁ a₂ c.text (atTextStart a₁ c rule start) (atTextStart a₂ c rule start) := by
  rw [atTextStart, atTextStart]
  exact ite (fun _ => pure _) fun _ => (skipLeading_assembled hc hi 0).bind fun _ => pure _

/-! ### Sequences and choices -/

include hC in
/-- The commit markers of a sequence are passed over. -/
theorem matchSequence_assembled (acts : Bool) {children : List ExprId}
    (hi : ∀ i ∈ children, (g.rule i).kind.isCommit = false → N i) (first committed : Bool) (loc : Nat) (r : Results) :
    Assembled g C N a₁ a₂ c.text (matchSequence a₁ c acts children first committed loc r)
      (matchSequence a₂ c acts children first committed loc r) := by
  induction children generalizing first committed loc r with
  | nil => exact pure _
  | cons i children ih =>
    have ih := @ih fun j hj => hi j (List.mem_cons_of_mem _ hj)
    have hrule : c.rule i = g.rule i := by rw [Context.rule, hC.grammar hc]
    rw [matchSequence, matchSequence, hrule]
    refine ite (fun _ => ih false true loc r) fun hcommit => ?_
    refine (attempt hc (hi i List.mem_cons_self (Bool.eq_false_of_not_eq_true hcommit)) loc acts _).step ?_ ?_
    · intro stop part
      exact ih false committed stop _
    · intro d
      exact ite (fun _ => halt _) fun _ => pure _

theorem matchFirst_assembled (rule : Rule) (start : Nat) (acts : Bool) {children : List ExprId}
    (hi : ∀ i ∈ children, N i) (best : Option Diagnostic) :
    Assembled g C N a₁ a₂ c.text (matchFirst a₁ c rule start acts children best)
      (matchFirst a₂ c rule start acts children best) := by
  induction children generalizing best with
  | nil => exact pure _
  | cons i children ih =>
    rw [matchFirst, matchFirst]
    refine (attempt hc (hi i List.mem_cons_self) start acts true).step (fun _ _ => pure _) ?_
    intro d
    exact ih (fun j hj => hi j (List.mem_cons_of_mem _ hj)) _

/-! ### The longest match -/

omit hc in
/-- Candidates are found among the children. -/
theorem child_of_findCandidates {a : Attempt} (start : Nat) {children : List ExprId} (hi : ∀ i ∈ children, N i)
    {found : List Candidate} (hfound : ∀ x ∈ found, N x.child) (best : Option Diagnostic) :
    Gives (fun x => ∀ y ∈ x.1, N y.child) (findCandidates a c start children found best) := by
  induction children generalizing found best with
  | nil => exact Gives.pure fun y hy => hfound y (List.mem_reverse.mp hy)
  | cons i children ih =>
    have ih := @ih fun j hj => hi j (List.mem_cons_of_mem _ hj)
    rw [findCandidates]
    refine Gives.after fun step => ?_
    cases step with
    | failed d => exact ih hfound _
    | matched stop r =>
      refine ih (fun y hy => ?_) best
      rcases List.mem_cons.mp hy with rfl | hy
      · exact hi i List.mem_cons_self
      · exact hfound y hy

theorem findCandidates_assembled (start : Nat) {children : List ExprId} (hi : ∀ i ∈ children, N i)
    (found : List Candidate) (best : Option Diagnostic) :
    Assembled g C N a₁ a₂ c.text (findCandidates a₁ c start children found best)
      (findCandidates a₂ c start children found best) := by
  induction children generalizing found best with
  | nil => exact pure _
  | cons i children ih =>
    have ih := @ih fun j hj => hi j (List.mem_cons_of_mem _ hj)
    rw [findCandidates, findCandidates]
    exact (attempt hc (hi i List.mem_cons_self) start false true).step (fun _ _ => ih _ best) fun _ => ih found _

theorem matchCandidates_assembled (rule : Rule) (start : Nat) {candidates : List Candidate}
    (hi : ∀ x ∈ candidates, N x.child) (longest : Option (Nat × Results)) (best : Option Diagnostic) :
    Assembled g C N a₁ a₂ c.text (matchCandidates a₁ c rule start candidates longest best)
      (matchCandidates a₂ c rule start candidates longest best) := by
  induction candidates generalizing longest best with
  | nil => exact pure _
  | cons x candidates ih =>
    have ih := @ih fun y hy => hi y (List.mem_cons_of_mem _ hy)
    have htry : Assembled g C N a₁ a₂ c.text
        (tryCandidate a₁ c start x longest best (matchCandidates a₁ c rule start candidates))
        (tryCandidate a₂ c start x longest best (matchCandidates a₂ c rule start candidates)) := by
      rw [tryCandidate, tryCandidate]
      refine (attempt hc (hi x List.mem_cons_self) start true true).step ?_ fun d => ih longest _
      intro stop r
      exact ite (fun _ => pure _) fun _ => ih _ best
    unfold matchCandidates
    cases longest with
    | none => exact htry
    | some l => exact ite (fun _ => pure _) fun _ => htry

theorem matchLongest_assembled (rule : Rule) {children : List ExprId} (hi : ∀ i ∈ children, N i) (start : Nat)
    (acts : Bool) :
    Assembled g C N a₁ a₂ c.text (matchLongest a₁ c rule children start acts)
      (matchLongest a₂ c rule children start acts) := by
  refine (findCandidates_assembled hc start hi [] none).bindOf (child_of_findCandidates start hi (by simp) none)
    (child_of_findCandidates start hi (by simp) none) ?_
  rintro ⟨found, best⟩ hfound
  refine ite (fun _ => matchCandidates_assembled hc rule start (fun x hx => ?_) none best) fun _ => ?_
  · exact hfound x (List.mem_mergeSort.mp hx)
  · split
    · exact pure _
    · exact pure _

/-! ### Children in any order -/

theorem discoverRound_assembled {items : List (EachItem × Nat)} (hi : ∀ x ∈ items, N x.1.test) (d : Discovery)
    (progressed : Bool) :
    Assembled g C N a₁ a₂ c.text (discoverRound a₁ c items d progressed) (discoverRound a₂ c items d progressed) := by
  induction items generalizing d progressed with
  | nil => exact pure _
  | cons x items ih =>
    have ih := @ih fun y hy => hi y (List.mem_cons_of_mem _ hy)
    obtain ⟨item, i⟩ := x
    rw [discoverRound, discoverRound]
    refine ite (fun _ => ih d progressed) fun _ => ?_
    refine (attempt hc (hi (item, i) List.mem_cons_self) d.loc false true).step ?_ fun _ => ih d progressed
    intro stop _
    exact ite (fun _ => ih _ true) fun _ => ih d progressed

theorem discover_assembled {items : List (EachItem × Nat)} (hi : ∀ x ∈ items, N x.1.test) (fuel : Nat)
    (d : Discovery) : Assembled g C N a₁ a₂ c.text (discover a₁ c items fuel d) (discover a₂ c items fuel d) := by
  induction fuel generalizing d with
  | zero => exact pure _
  | succ fuel ih =>
    rw [discover, discover]
    apply (discoverRound_assembled hc hi d false).bind
    rintro ⟨d', progressed⟩
    exact ite (fun _ => ih d') fun _ => pure _

theorem runInOrder_assembled (acts : Bool) {order : List ExprId} (hi : ∀ i ∈ order, N i) (loc : Nat) (r : Results) :
    Assembled g C N a₁ a₂ c.text (runInOrder a₁ c acts order loc r) (runInOrder a₂ c acts order loc r) := by
  induction order generalizing loc r with
  | nil => exact pure _
  | cons i order ih =>
    rw [runInOrder, runInOrder]
    refine (attempt hc (hi i List.mem_cons_self) loc acts true).step ?_ fun _ => pure _
    intro stop part
    exact ih (fun j hj => hi j (List.mem_cons_of_mem _ hj)) stop _

include hC in
theorem matchEach_assembled (hN : g.AttemptsWithin N) {children : List ExprId} (hi : ∀ i ∈ children, N i) (start : Nat)
    (acts : Bool) :
    Assembled g C N a₁ a₂ c.text (matchEach a₁ c children start acts) (matchEach a₂ c children start acts) := by
  let items := (children.map fun i => EachItem.ofChild i (c.rule i).kind).zipIdx
  have hitems : ∀ x ∈ items, N x.1.test ∧ N x.1.run := by
    refine EachItem.items_within hi fun i hi inner hinner => hN.child hi ?_
    rw [Context.rule, hC.grammar hc] at hinner
    exact hinner.mem_attempted g
  have hrun : ∀ x ∈ items, N x.1.run := fun x hx => (hitems x hx).2
  refine (discover_assembled hc (fun x hx => (hitems x hx).1) _ _).bindOf
    (SpellsIn.order_of_discover hrun _ (by simp)) (SpellsIn.order_of_discover hrun _ (by simp)) fun d hd => ?_
  refine ite (fun _ => pure _) fun _ => runInOrder_assembled hc acts (fun j hj => ?_) start {}
  rcases List.mem_append.mp hj with hj | hj
  · exact hd j (List.mem_reverse.mp hj)
  · obtain ⟨x, hx, rfl⟩ := List.mem_map.mp hj
    exact hrun x (List.mem_filter.mp hx).1

/-! ### Repetitions -/

theorem takeRound_assembled {child : ExprId} (hi : N child) (acts : Bool) {again₁ again₂ : Rounds → MatchM Rounds}
    (hagain : ∀ r, Assembled g C N a₁ a₂ c.text (again₁ r) (again₂ r)) (r : Rounds) :
    Assembled g C N a₁ a₂ c.text (takeRound a₁ c child acts again₁ r) (takeRound a₂ c child acts again₂ r) := by
  rw [takeRound, takeRound]
  refine (attempt hc hi r.loc acts true).step ?_ fun _ => pure _
  intro after part
  exact ite (fun _ => hagain _) fun _ => pure _

theorem repeatRounds_assembled {child : ExprId} (hi : N child) (max : Option Nat) {stop : Option ExprId}
    (hs : ∀ i ∈ stop, N i) (acts : Bool) (fuel : Nat) (r : Rounds) :
    Assembled g C N a₁ a₂ c.text (repeatRounds a₁ c child max stop acts fuel r)
      (repeatRounds a₂ c child max stop acts fuel r) := by
  induction fuel generalizing r with
  | zero => exact pure _
  | succ fuel ih =>
    have hround := takeRound_assembled hc hi acts ih r
    rw [repeatRounds, repeatRounds]
    refine ite (fun _ => pure _) fun _ => ?_
    cases stop with
    | none => exact hround
    | some i => exact (probe hc (hs i rfl) r.loc).step (fun _ _ => pure _) fun _ => hround

theorem matchRepetition_assembled (rule : Rule) {child : ExprId} (hi : N child) (min : Nat) (max : Option Nat)
    {stop : Option ExprId} (hs : ∀ i ∈ stop, N i) (start : Nat) (acts : Bool) :
    Assembled g C N a₁ a₂ c.text (matchRepetition a₁ c rule child min max stop start acts)
      (matchRepetition a₂ c rule child min max stop start acts) := by
  apply (repeatRounds_assembled hc hi max hs acts _ _).bind
  intro r
  exact ite (fun _ => pure _) fun _ => pure _

/-! ### Looking behind and skipping ahead -/

theorem findBehind_assembled {child : ExprId} (hi : N child) (acts : Bool) (positions : List Nat) :
    Assembled g C N a₁ a₂ c.text (findBehind a₁ c child acts positions) (findBehind a₂ c child acts positions) := by
  induction positions with
  | nil => exact pure _
  | cons p positions ih =>
    rw [findBehind, findBehind]
    refine (attempt hc hi p acts false).recover.step ?_ fun _ => ih
    intro stop r
    exact ite (fun _ => pure _) fun _ => ih

include hC in
theorem matchPrecededBy_assembled (rule : Rule) {child : ExprId} (hi : N child) {retreat : Option Nat}
    (hback : retreat ≠ some 0 → ∃ i, N i ∧ (g.rule i).kind.looksBack = true) (start : Nat) (acts : Bool) :
    Assembled g C N a₁ a₂ c.text (matchPrecededBy a₁ c rule child retreat start acts)
      (matchPrecededBy a₂ c rule child retreat start acts) := by
  by_cases hretreat : retreat = some 0
  · -- nothing is looked for
    subst hretreat
    have hnothing : (Packrat.aside c.config (Pure.pure (none : Option Results))).MakesNoAttempt :=
      fun s => ⟨none, s, rfl, rfl, rfl, rfl, rfl, [], rfl⟩
    exact (apart hnothing).option (pure _) fun _ => pure _
  · have hbehind : C (c.behind start) := hC.behind hc start
    exact ((findBehind_assembled hbehind hi acts _).aside hc (hback hretreat)).option (pure _) fun _ => pure _

include hC in
theorem tryTarget_assembled (hN : g.AttemptsWithin N) {target : ExprId} (hi : N target)
    {again₁ again₂ : Nat → MatchM (Option Nat)} (hagain : ∀ q, Assembled g C N a₁ a₂ c.text (again₁ q) (again₂ q))
    (loc : Nat) :
    Assembled g C N a₁ a₂ c.text (tryTarget a₁ c target again₁ loc) (tryTarget a₂ c target again₂ loc) := by
  have hignores : ∀ j ∈ (c.rule target).ignores, N j := by
    intro j hj
    rw [Context.rule, hC.grammar hc] at hj
    exact hN.ignored hi hj
  apply (skipIgnorables_assembled hc hignores loc).bind
  intro q
  exact (attempt hc hi q false false).recover.step (fun _ _ => pure _) fun _ => hagain _

include hC in
theorem findAhead_assembled (hN : g.AttemptsWithin N) {target : ExprId} (hi : N target) {failOn : Option ExprId}
    (hf : ∀ i ∈ failOn, N i) (fuel loc : Nat) :
    Assembled g C N a₁ a₂ c.text (findAhead a₁ c target failOn fuel loc) (findAhead a₂ c target failOn fuel loc) := by
  induction fuel generalizing loc with
  | zero => exact pure _
  | succ fuel ih =>
    have htry := tryTarget_assembled hC hc hN hi ih loc
    rw [findAhead, findAhead]
    refine ite (fun _ => pure _) fun _ => ?_
    cases failOn with
    | none => exact htry
    | some i => exact (probe hc (hf i rfl) loc).step (fun _ _ => pure _) fun _ => htry

include hC in
theorem matchSkipTo_assembled (hN : g.AttemptsWithin N) (rule : Rule) {target : ExprId} (hi : N target)
    (includes : Bool) {failOn : Option ExprId} (hf : ∀ i ∈ failOn, N i) (start : Nat) (acts : Bool) :
    Assembled g C N a₁ a₂ c.text (matchSkipTo a₁ c rule target includes failOn start acts)
      (matchSkipTo a₂ c rule target includes failOn start acts) := by
  refine (findAhead_assembled hC hc hN hi hf _ start).option (pure _) ?_
  intro loc
  refine ite (fun _ => pure _) fun _ => ?_
  exact (attempt hc hi loc acts false).step (fun _ _ => pure _) fun _ => pure _

/-! ### Actions and seeds -/

omit hc in
theorem runAction_assembled (action : Action) (start stop : Nat) (results : Results) {t : Text} :
    Assembled g C N a₁ a₂ t (runAction c action start stop results) (runAction c action start stop results) := by
  refine (apart (m := MatchM.notes _) fun s => ?_).bind fun _ => ?_
  · exact ⟨(), _, rfl, rfl, rfl, rfl, rfl, _, congrArg (· ++ s.journal) List.map_reverse.symm⟩
  · split
    · exact pure _
    · exact pure _
    · exact halt _
    · exact halt _
    · exact halt _

omit hc in
theorem makesNoAttempt_putAll (keys : SeedKeys) (acts : Bool) (step : Step) :
    (keys.putAll acts step).MakesNoAttempt := by
  intro s
  cases acts with
  | false => exact ⟨_, _, rfl, .of_seeds rfl rfl ⟨_, rfl⟩⟩
  | true => exact ⟨_, _, rfl, .of_seeds rfl rfl ⟨_, rfl⟩⟩

omit hc in
theorem makesNoAttempt_refuse (keys : SeedKeys) (acts : Bool) (d : Diagnostic) :
    (keys.refuse acts d).MakesNoAttempt := by
  intro s
  cases acts with
  | false => exact ⟨_, _, rfl, .of_seeds rfl rfl ⟨_, rfl⟩⟩
  | true => exact ⟨_, _, rfl, .of_seeds rfl rfl ⟨_, rfl⟩⟩

omit hc in
theorem makesNoAttempt_release (keys : SeedKeys) (acts : Bool) (step : Step) :
    (keys.release acts step).MakesNoAttempt := by
  intro s
  cases acts with
  | false => exact ⟨_, _, rfl, .of_seeds rfl rfl ⟨_, rfl⟩⟩
  | true => exact ⟨_, _, rfl, .of_seeds rfl rfl ⟨_, rfl⟩⟩

theorem advanceSeed_assembled (keys : SeedKeys) {target : ExprId} (hi : N target) (acts : Bool) (step : Step) :
    Assembled g C N a₁ a₂ c.text (advanceSeed a₁ c keys target acts step) (advanceSeed a₂ c keys target acts step) := by
  cases acts with
  | false => exact apart fun s => ⟨_, _, rfl, .of_seeds rfl rfl ⟨_, rfl⟩⟩
  | true =>
    refine (attempt hc hi keys.position true false).step ?_ ?_
    · intro stop r
      exact apart fun s => ⟨_, _, rfl, .of_seeds rfl rfl ⟨_, rfl⟩⟩
    · intro d
      exact apart fun s => ⟨_, _, rfl, .of_seeds rfl rfl ⟨_, rfl⟩⟩

theorem growRounds_assembled (rule : Rule) (keys : SeedKeys) {target : ExprId} (hi : N target) (limit : Nat)
    (acts : Bool) (fuel rounds : Nat) (seed : Seed) :
    Assembled g C N a₁ a₂ c.text (growRounds a₁ c rule keys target limit acts fuel rounds seed)
      (growRounds a₂ c rule keys target limit acts fuel rounds seed) := by
  induction fuel generalizing rounds seed with
  | zero => exact halt _
  | succ fuel ih =>
    rw [growRounds, growRounds]
    apply (attempt hc hi keys.position false false).bind
    intro grown
    split
    · exact apart (makesNoAttempt_refuse keys acts _)
    · refine ite (fun _ => apart (makesNoAttempt_release keys acts seed.step)) fun _ => ?_
      refine ite (fun _ => halt _) fun _ => ?_
      refine (apart (m := MatchM.count _) fun s => ⟨_, _, rfl, .of_seeds rfl rfl ⟨_, rfl⟩⟩).bind fun _ => ?_
      exact (advanceSeed_assembled hc keys hi acts _).option (ih _ _) fun _ => pure _

theorem growSeed_assembled (rule : Rule) (i : ExprId) {target : ExprId} (hi : N target) (p : Nat) (acts : Bool) :
    Assembled g C N a₁ a₂ c.text (growSeed a₁ c rule i target p acts) (growSeed a₂ c rule i target p acts) := by
  refine (apart fun s => ⟨_, s, rfl, .of_seeds rfl rfl ⟨_, rfl⟩⟩).option ?_ fun _ => pure _
  exact (apart (makesNoAttempt_putAll _ acts _)).bind fun _ => growRounds_assembled hc rule _ hi _ acts _ _ _

/-! ### Nodes -/

include hC in
/-- **Matching a node is put together from attempts** of its children, of what it ignores, and of what these attempt. -/
theorem matchNode_assembled (hN : g.AttemptsWithin N) {i : ExprId} (hi : N i) (start : Nat) (acts : Bool) :
    Assembled g C N a₁ a₂ c.text (matchNode a₁ c i (g.rule i) start acts) (matchNode a₂ c i (g.rule i) start acts) := by
  have hall {k : NodeKind} (hk : (g.rule i).kind = k) {children : List ExprId} (h : k.attempted g = children) :
      ∀ j ∈ children, N j := by
    intro j hj
    rw [← h, ← hk] at hj
    exact hN.child hi hj
  have honly {k : NodeKind} (hk : (g.rule i).kind = k) {child : ExprId} (h : k.attempted g = [child]) : N child :=
    hall hk h child List.mem_cons_self
  cases hk : (g.rule i).kind with
  | literal | keyword | word | charsNotIn | pattern | empty | noMatch | stringEnd | lineStart | lineEnd | wordStart
  | wordEnd | commit =>
    simp only [matchNode, hk]
    exact pure _
  | sequence children =>
    simp only [matchNode, hk]
    refine matchSequence_assembled hC hc acts (fun j hj hcommit => hN.child hi ?_) true false start {}
    rw [hk]
    exact List.mem_filter.mpr ⟨hj, by rw [hcommit]; rfl⟩
  | orderedChoice children =>
    simp only [matchNode, hk]
    exact matchFirst_assembled hc _ start acts (hall hk rfl) none
  | longestChoice children =>
    simp only [matchNode, hk]
    exact matchLongest_assembled hc _ (hall hk rfl) start acts
  | each children =>
    simp only [matchNode, hk]
    exact matchEach_assembled hC hc hN (hall hk rfl) start acts
  | repetition child min max stop =>
    have hchildren : ∀ j ∈ child :: stop.toList, N j := hall hk rfl
    simp only [matchNode, hk]
    exact matchRepetition_assembled hc _ (hchildren child List.mem_cons_self) min max
      (fun j hj => hchildren j (List.mem_cons_of_mem _ (Option.mem_toList.mpr hj))) start acts
  | optional child default =>
    simp only [matchNode, hk]
    exact (attempt hc (honly hk rfl) start acts false).step (fun _ _ => pure _) fun _ => pure _
  | lookahead child =>
    simp only [matchNode, hk]
    exact (attempt hc (honly hk rfl) start acts true).recover.step (fun _ _ => pure _) fun _ => pure _
  | notAhead child =>
    simp only [matchNode, hk]
    exact (probe hc (honly hk rfl) start).step (fun _ _ => pure _) fun _ => pure _
  | precededBy child retreat =>
    simp only [matchNode, hk]
    refine matchPrecededBy_assembled hC hc _ (honly hk rfl) (fun hretreat => ⟨i, hi, ?_⟩) start acts
    rw [hk]
    exact bne_iff_ne.mpr hretreat
  | forward label target =>
    cases target with
    | none =>
      simp only [matchNode, hk]
      exact halt _
    | some target =>
      have htarget : N target := honly hk rfl
      simp only [matchNode, hk]
      exact ite (fun _ => growSeed_assembled hc _ i htarget start acts) fun _ => attempt hc htarget start acts false
  | transform child action =>
    simp only [matchNode, hk]
    refine (attempt hc (honly hk rfl) start acts false).step ?_ fun _ => pure _
    intro stop r
    exact ite (fun _ => runAction_assembled action start stop r) fun _ => pure _
  | named child | group child | dict child | suppress child =>
    simp only [matchNode, hk]
    exact (attempt hc (honly hk rfl) start acts false).bind fun _ => pure _
  | combine child joiner =>
    have hattempt : Assembled g C N a₁ a₂ c.text (a₁ c.combined child start acts false)
        (a₂ c.combined child start acts false) := attempt (hC.combined hc) (honly hk rfl) start acts false
    simp only [matchNode, hk]
    exact hattempt.bind fun _ => pure _
  | originalText child =>
    simp only [matchNode, hk]
    exact (attempt hc (honly hk rfl) start acts false).step (fun _ _ => pure _) fun _ => pure _
  | skipTo target includes failOn =>
    have hchildren : ∀ j ∈ target :: failOn.toList, N j := hall hk rfl
    simp only [matchNode, hk]
    exact matchSkipTo_assembled hC hc hN _ (hchildren target List.mem_cons_self) includes
      (fun j hj => hchildren j (List.mem_cons_of_mem _ (Option.mem_toList.mpr hj))) start acts
  | stringStart =>
    simp only [matchNode, hk]
    apply (atTextStart_assembled hc (fun j hj => hN.ignored hi hj) start).bind
    exact fun _ => ite (fun _ => pure _) fun _ => pure _

include hC in
/-- The match of the root is put together from attempts of it and of what it ignores. -/
theorem matchRootBy_assembled (hN : g.AttemptsWithin N) (hroot : N g.root) (all : Bool) :
    Assembled g C N a₁ a₂ c.text (Coupling.matchRootBy a₁ c all) (Coupling.matchRootBy a₂ c all) := by
  have hg : c.grammar = g := hC.grammar hc
  rw [Coupling.matchRootBy, Coupling.matchRootBy, hg]
  refine (attempt hc hroot 0 true true).step ?_ fun _ => pure _
  intro stop r
  refine ite (fun _ => pure _) fun _ => ?_
  apply (skipLeading_assembled hc (fun j hj => hN.ignored hroot hj) stop).bind
  intro loc
  exact ite (fun _ => pure _) fun _ => pure _

end Assembled

/-! ## Attempts -/

/-- What an attempt does between what it reports: it skips, if it is to, and matches from there on. Gives where it
matched from, too. -/
def skipThenMatch (a : Attempt) (c : Context) (i : ExprId) (p : Nat) (acts skips : Bool) : MatchM (Nat × Step) := do
  let start ← if skips then skipLeading a c (c.rule i) p else pure p
  let step ← matchNode a c i (c.rule i) start acts
  return (start, step)

theorem perform_eq (a : Attempt) (c : Context) (i : ExprId) (p : Nat) (acts skips : Bool) :
    perform a c i p acts skips = do
      reportTry c.watch (c.watch.wants (c.rule i)) i p
      let (start, step) ← skipThenMatch a c i p acts skips
      reportStep (c.watch.wants (c.rule i)) i start (step.mapResults (ResultsOf.withOrigin i))
      return step.mapResults (ResultsOf.withOrigin i) := by
  cases skips with
  | false => simp only [perform, skipThenMatch, Bool.false_eq_true, if_false, bind_assoc, pure_bind]
  | true => simp only [perform, skipThenMatch, if_true, bind_assoc, pure_bind]

/-- What an attempt does is put together from the attempts it makes. -/
theorem Assembled.skipThenMatch_assembled {g : Grammar} {C : Context → Prop} {N : ExprId → Prop} {a₁ a₂ : Attempt}
    (hC : g.Contexts C) (hN : g.AttemptsWithin N) {c : Context} (hc : C c) {i : ExprId} (hi : N i) (p : Nat)
    (acts skips : Bool) :
    Assembled g C N a₁ a₂ c.text (skipThenMatch a₁ c i p acts skips) (skipThenMatch a₂ c i p acts skips) := by
  have hrule : c.rule i = g.rule i := by rw [Context.rule, hC.grammar hc]
  rw [skipThenMatch, skipThenMatch, hrule]
  have hmatch (start : Nat) :
      Assembled g C N a₁ a₂ c.text (matchNode a₁ c i (g.rule i) start acts >>= fun step => Pure.pure (start, step))
        (matchNode a₂ c i (g.rule i) start acts >>= fun step => Pure.pure (start, step)) :=
    (matchNode_assembled hC hc hN hi start acts).bind fun _ => pure _
  cases skips with
  | false => exact hmatch p
  | true =>
    apply (skipLeading_assembled hc (fun j hj => hN.ignored hi hj) p).bind
    exact hmatch

/-- What is reported of an attempt goes into the journal. -/
theorem reportTry_eq (watch : Watch) (watched : Bool) (i : ExprId) (p : Nat) (s : State) :
    ∃ journal, reportTry watch watched i p s = .ok () { s with journal } := by
  unfold reportTry
  split
  · exact ⟨_, rfl⟩
  · split
    · exact ⟨_, rfl⟩
    · exact ⟨s.journal, rfl⟩

theorem reportStep_eq (watched : Bool) (i : ExprId) (start : Nat) (step : Step) (s : State) :
    ∃ journal, reportStep watched i start step s = .ok () { s with journal } := by
  unfold reportStep
  split
  · cases step with
    | matched stop r => exact ⟨_, rfl⟩
    | failed d => exact ⟨_, rfl⟩
  · exact ⟨s.journal, rfl⟩

/-- **What attempts keep, performing one by them keeps**, if it does not depend on the journal either. -/
theorem perform_keeps {g : Grammar} {C : Context → Prop} {N : ExprId → Prop} {a : Attempt} (hC : g.Contexts C)
    (hN : g.AttemptsWithin N) {I : Text → State → Prop}
    (ha : ∀ {c i p acts skips}, C c → N i → Keeps (I c.text) (fun _ => True) (fun _ => True) (a c i p acts skips))
    (hapart : ∀ {t s s'}, State.Unattempted s' s → I t s → I t s')
    (haside : (∃ i, N i ∧ (g.rule i).kind.looksBack = true) → ∀ {t s} (journal : List Event) (attempts : Nat), I t s →
      I t { s with journal, metrics := { s.metrics with attempts := s.metrics.attempts + attempts } })
    (hjournal : ∀ {t s} (journal : List Event), I t s → I t { s with journal })
    {c : Context} (hc : C c) {i : ExprId} (hi : N i) (p : Nat) (acts skips : Bool) :
    Keeps (I c.text) (fun _ => True) (fun _ => True) (perform a c i p acts skips) := by
  have hreport {m : MatchM Unit} (h : ∀ s, ∃ journal, m s = .ok () { s with journal }) :
      Keeps (I c.text) (fun _ => True) (fun _ => True) m := by
    refine Keeps.of_unit fun s hs => ?_
    obtain ⟨journal, hrun⟩ := h s
    exact ⟨_, hrun, hjournal journal hs⟩
  have hmade : Assembled g C N a a c.text (skipThenMatch a c i p acts skips) (skipThenMatch a c i p acts skips) :=
    Assembled.skipThenMatch_assembled hC hN hc hi p acts skips
  rw [perform_eq]
  refine (hreport (reportTry_eq _ _ _ _)).bind fun _ _ => (hmade.keeps ha hapart haside).bind fun x _ => ?_
  exact (hreport (reportStep_eq _ _ _ _)).bind fun _ _ => Keeps.pure trivial

end Packrat
