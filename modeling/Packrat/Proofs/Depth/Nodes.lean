import Packrat.Proofs.Analysis.Search
import Packrat.Proofs.Depth.Concur

/-!
# `Packrat.Proofs.Depth.Nodes` — every way of matching, by the attempts it makes

Two runs match a node in the same way when the attempts that this can make are the same: of the children at the
node's own place as far as `leftCalls` goes, of children further on, of ignorables anywhere, and of what is looked
for behind.

## Contents

* `skipLeading_same`, `matchSequence_same`, … — one lemma for each way of matching;
* `Twin.Serves` — the attempts that matching a node can make;
* `matchNode_same` — **nodes match in the same way**;
* `perform_same`, `remember_same` — and so do their attempts, where nothing is remembered.
-/

namespace Packrat

/-- A commit marker consumes nothing. -/
theorem NodeKind.isNullable_of_isCommit {k : NodeKind} (h : k.isCommit = true) (known : ExprId → Bool) :
    k.isNullable known = true := by
  cases k with
  | commit => rfl
  | _ => exact absurd h Bool.false_ne_true

/-- What is run for a child in any order is the child, or what is tested for it. -/
theorem EachItem.run_ofChild (i : ExprId) (k : NodeKind) :
    (ofChild i k).run = i ∨ (ofChild i k).run = (ofChild i k).test := by
  unfold ofChild
  split
  · exact Or.inl rfl
  · exact Or.inr rfl
  · exact Or.inl rfl

/-- What is tested for a child in any order is the child, or what it attempts at its own place. -/
theorem EachItem.test_ofChild (i : ExprId) (k : NodeKind) (known : ExprId → Bool) :
    (ofChild i k).test = i ∨ (ofChild i k).test ∈ k.leftCalls known := by
  refine (ofChild_within (N := fun j => j = i ∨ j ∈ k.leftCalls known) (Or.inl rfl) fun inner h => Or.inr ?_).1
  cases h <;> simp [NodeKind.leftCalls, NodeKind.children]

namespace Twin

variable {g : Grammar} {D : Twin g} {acts : Bool} {p start : Nat}

/-- A node is attempted alike at every place from `start` on. -/
def MeetsFrom (D : Twin g) (acts : Bool) (start : Nat) (j : ExprId) : Prop :=
  ∀ q, start ≤ q → D.c₁.text.IsBoundary q → D.Meets acts j q

theorem MeetsFrom.mono {q : Nat} {j : ExprId} (h : D.MeetsFrom acts p j) (hq : p ≤ q) : D.MeetsFrom acts q j :=
  fun q' hq' => h q' (hq.trans hq')

/-! ## Skipping -/

theorem skipOne_same {i : ExprId} (hi : D.MeetsFrom false p i) (fuel : Nat) (hp : D.c₁.text.IsBoundary p) :
    D.Same (Advance D.c₁.text p True) (skipOne D.first D.c₁ i fuel p) (skipOne D.second D.c₂ i fuel p) := by
  induction fuel generalizing p with
  | zero => exact Same.pure (Advance.self hp trivial)
  | succ fuel ih =>
    rw [skipOne, skipOne]
    refine (hi p (le_refl p) hp).probe.step ?_ fun _ => Same.pure (Advance.self hp trivial)
    intro stop r hstop
    by_cases h : stop ≤ p
    · simp only [h, if_true]
      exact Same.pure (Advance.self hp trivial)
    · simp only [h, if_false]
      exact (ih (hi.mono hstop.le) hstop.place).mono fun _ hq => ((hstop.weaken fun _ => trivial).trans hq).weaken And.left

theorem skipEach_same {ignores : List ExprId} (hi : ∀ i ∈ ignores, D.MeetsFrom false p i)
    (hp : D.c₁.text.IsBoundary p) :
    D.Same (Advance D.c₁.text p True) (skipEach D.first D.c₁ ignores p) (skipEach D.second D.c₂ ignores p) := by
  induction ignores generalizing p with
  | nil => exact Same.pure (Advance.self hp trivial)
  | cons i ignores ih =>
    rw [skipEach, skipEach, D.text_eq]
    refine (skipOne_same (hi i (by simp)) _ hp).bind ?_
    intro q hq
    exact (ih (fun j hj => (hi j (by simp [hj])).mono hq.le) hq.place).mono fun _ hr => (hq.trans hr).weaken And.left

theorem skipRounds_same {ignores : List ExprId} (hi : ∀ i ∈ ignores, D.MeetsFrom false p i) (fuel : Nat)
    (hp : D.c₁.text.IsBoundary p) :
    D.Same (Advance D.c₁.text p True) (skipRounds D.first D.c₁ ignores fuel p)
      (skipRounds D.second D.c₂ ignores fuel p) := by
  induction fuel generalizing p with
  | zero => exact Same.pure (Advance.self hp trivial)
  | succ fuel ih =>
    rw [skipRounds, skipRounds]
    refine (skipEach_same hi hp).bind ?_
    intro q hq
    by_cases h : q = p
    · simp only [h, if_true]
      exact Same.pure (Advance.self hp trivial)
    · simp only [h, if_false]
      exact (ih (fun j hj => (hi j hj).mono hq.le) hq.place).mono fun _ hr => (hq.trans hr).weaken And.left

theorem skipIgnorables_same {ignores : List ExprId} (hi : ∀ i ∈ ignores, D.MeetsFrom false p i)
    (hp : D.c₁.text.IsBoundary p) :
    D.Same (Advance D.c₁.text p True) (skipIgnorables D.first D.c₁ ignores p)
      (skipIgnorables D.second D.c₂ ignores p) := by
  rw [skipIgnorables, skipIgnorables, D.text_eq]
  by_cases h : ignores.isEmpty = true
  · simp only [h, if_true]
    exact Same.pure (Advance.self hp trivial)
  · simp only [h]
    exact skipRounds_same hi _ hp

theorem skipLeading_same {rule : Rule} (hi : ∀ i ∈ rule.ignores, D.MeetsFrom false p i)
    (hp : D.c₁.text.IsBoundary p) :
    D.Same (Advance D.c₁.text p True) (skipLeading D.first D.c₁ rule p) (skipLeading D.second D.c₂ rule p) := by
  rw [skipLeading, skipLeading, D.text_eq]
  refine (skipIgnorables_same hi hp).bind fun q hq => Same.pure ?_
  split
  · exact ⟨hq.place.skip _, hq.le.trans (Text.le_skip _ _ _), fun _ => trivial⟩
  · exact hq

theorem atTextStart_same {rule : Rule} (hi : ∀ i ∈ rule.ignores, D.MeetsFrom false 0 i) (start : Nat) :
    D.Same (fun _ => True) (atTextStart D.first D.c₁ rule start) (atTextStart D.second D.c₂ rule start) := by
  rw [atTextStart, atTextStart]
  by_cases h : start = 0
  · simp only [h, if_true]
    exact Same.pure trivial
  · simp only [h, if_false]
    exact (skipLeading_same hi D.c₁.text.isBoundary_zero).bind fun q _ => Same.pure trivial

/-! ## Sequences and choices -/

/-- The children of a sequence are attempted at its own place as long as those before them may be empty. -/
theorem matchSequence_same {children : List ExprId}
    (hlater : ∀ i ∈ children, ∀ q, start < q → D.c₁.text.IsBoundary q → D.Meets acts i q)
    {loc : Nat} {E : Prop} (hloc : Advance D.c₁.text start E loc)
    (hnow : loc = start → ∀ i ∈ takeThrough D.empty children, D.Meets acts i start) (first committed : Bool)
    (results : Results) :
    D.Same (Step.Lands D.c₁.text start (E ∧ children.all D.empty = true))
      (matchSequence D.first D.c₁ acts children first committed loc results)
      (matchSequence D.second D.c₂ acts children first committed loc results) := by
  induction children generalizing loc E first committed results with
  | nil => exact Same.pure (hloc.weaken fun hE => ⟨hE, rfl⟩)
  | cons i children ih =>
    have ih := @ih fun j hj => hlater j (by simp [hj])
    rw [matchSequence, matchSequence, D.rule₁, D.rule₂]
    by_cases hk : (g.rule i).kind.isCommit = true
    · -- a marker consumes nothing, and is passed over
      have hempty : D.empty i = true := D.nullable i (NodeKind.isNullable_of_isCommit hk _)
      simp only [hk, if_true]
      refine (ih hloc (fun h j hj => hnow h j ?_) _ _ _).mono fun step hstep =>
        hstep.weaken fun h => ⟨h.1, by simp [hempty, h.2]⟩
      rw [takeThrough, hempty]
      simp [hj]
    · simp only [hk]
      have hmeets : D.Meets acts i loc := by
        rcases hloc.le.eq_or_lt with rfl | hlt
        · refine hnow rfl i ?_
          rw [takeThrough]
          split <;> simp
        · exact hlater i (by simp) loc hlt hloc.place
      refine (hmeets acts _ id).step ?_ ?_
      · intro stop part hstop
        refine (ih (hloc.trans hstop) (fun h j hj => ?_) _ _ _).mono fun step hstep =>
          hstep.weaken fun h => ⟨h.1.1, by simp [h.1.2, h.2]⟩
        -- nothing has been consumed, so this child may be empty, and so may those before it
        have hle := hstop.le
        have hle' := hloc.le
        have hempty : D.empty i = true := hstop.empty (by omega)
        refine hnow (by omega) j ?_
        rw [takeThrough, hempty]
        simp [hj]
      · intro d
        cases committed with
        | true => exact Same.halt rfl rfl
        | false => exact Same.pure trivial

/-- The failure of a choice is no match. -/
theorem choiceFailure_lands (best : Option Diagnostic) (start : Nat) (rule : Rule) (t : Text) (p : Nat) (E : Prop) :
    (choiceFailure best start rule).Lands t p E := by
  unfold choiceFailure
  split
  · split <;> trivial
  · trivial

theorem matchFirst_same (rule : Rule) {children : List ExprId} (hnow : ∀ i ∈ children, D.Meets acts i start)
    (best : Option Diagnostic) :
    D.Same (Step.Lands D.c₁.text start (children.any D.empty = true))
      (matchFirst D.first D.c₁ rule start acts children best)
      (matchFirst D.second D.c₂ rule start acts children best) := by
  induction children generalizing best with
  | nil => exact Same.pure (choiceFailure_lands _ _ _ _ _ _)
  | cons i children ih =>
    rw [matchFirst, matchFirst]
    refine (hnow i (by simp) acts true id).step ?_ ?_
    · intro stop r hstop
      exact Same.pure (hstop.weaken fun h => by simp [h])
    · intro d
      exact (ih (fun j hj => hnow j (by simp [hj])) _).mono fun step hstep =>
        hstep.weaken fun h => by simp only [List.any_cons, h, Bool.or_true]

/-! ## The longest match -/

/-- Candidates are children that match. -/
def Candidates (D : Twin g) (start : Nat) (children : List ExprId) (found : List Candidate) : Prop :=
  ∀ x ∈ found, x.child ∈ children ∧ Advance D.c₁.text start (children.any D.empty = true) x.stop

theorem findCandidates_same {children all : List ExprId} (hsub : children ⊆ all)
    (hnow : ∀ i ∈ all, D.Meets acts i start) {found : List Candidate} (hf : D.Candidates start all found)
    (best : Option Diagnostic) :
    D.Same (fun x => D.Candidates start all x.1) (findCandidates D.first D.c₁ start children found best)
      (findCandidates D.second D.c₂ start children found best) := by
  induction children generalizing found best with
  | nil => exact Same.pure fun x hx => hf x (List.mem_reverse.mp hx)
  | cons i children ih =>
    have hi : i ∈ all := hsub (by simp)
    have ih := @ih fun j hj => hsub (by simp [hj])
    rw [findCandidates, findCandidates]
    refine (hnow i hi false true (by simp)).step ?_ fun d => ih hf _
    intro stop r hstop
    refine ih ?_ _
    intro x hx
    rcases List.mem_cons.mp hx with rfl | hx
    · exact ⟨hi, hstop.weaken fun h => List.any_eq_true.mpr ⟨i, hi, h⟩⟩
    · exact hf x hx

theorem matchCandidates_same (rule : Rule) {children : List ExprId} (hnow : ∀ i ∈ children, D.Meets true i start)
    {candidates : List Candidate} (hc : D.Candidates start children candidates) {longest : Option (Nat × Results)}
    (hlongest : ∀ x ∈ longest, Advance D.c₁.text start (children.any D.empty = true) x.1)
    (best : Option Diagnostic) :
    D.Same (Step.Lands D.c₁.text start (children.any D.empty = true))
      (matchCandidates D.first D.c₁ rule start candidates longest best)
      (matchCandidates D.second D.c₂ rule start candidates longest best) := by
  induction candidates generalizing longest best with
  | nil =>
    refine Same.pure ?_
    cases longest with
    | none => exact choiceFailure_lands _ _ _ _ _ _
    | some x => exact hlongest x rfl
  | cons x candidates ih =>
    have ih := @ih fun y hy => hc y (by simp [hy])
    obtain ⟨hchild, -⟩ := hc x (by simp)
    have hattempt : D.Same (Step.Lands D.c₁.text start (children.any D.empty = true))
        (tryCandidate D.first D.c₁ start x longest best (matchCandidates D.first D.c₁ rule start candidates))
        (tryCandidate D.second D.c₂ start x longest best (matchCandidates D.second D.c₂ rule start candidates)) := by
      rw [tryCandidate, tryCandidate]
      refine (hnow x.child hchild true true id).step ?_ fun d => ih hlongest _
      intro stop r hstop
      have hany : Advance D.c₁.text start (children.any D.empty = true) stop :=
        hstop.weaken fun h => List.any_eq_true.mpr ⟨x.child, hchild, h⟩
      by_cases h : x.stop ≤ stop
      · simp only [h, if_true]
        exact Same.pure hany
      · simp only [h, if_false]
        refine ih ?_ _
        split
        · intro y hy
          obtain rfl := Option.some.inj hy
          exact hany
        · exact hlongest
    unfold matchCandidates
    cases longest with
    | none => exact hattempt
    | some l =>
      by_cases h : x.stop ≤ l.1
      · simp only [h, if_true]
        exact Same.pure (hlongest l rfl)
      · simp only [h, if_false]
        exact hattempt

theorem matchLongest_same (rule : Rule) {children : List ExprId} (hnow : ∀ i ∈ children, D.Meets acts i start) :
    D.Same (Step.Lands D.c₁.text start (children.any D.empty = true))
      (matchLongest D.first D.c₁ rule children start acts) (matchLongest D.second D.c₂ rule children start acts) := by
  rw [matchLongest, matchLongest]
  refine (findCandidates_same (List.Subset.refl _) hnow (by simp [Candidates]) none).bind ?_
  intro x hx
  have hsorted : D.Candidates start children (x.1.mergeSort fun a b => decide (b.stop ≤ a.stop)) :=
    fun y hy => hx y (List.mem_mergeSort.mp hy)
  dsimp only
  cases acts with
  | true => exact matchCandidates_same rule hnow hsorted (by simp) _
  | false =>
    simp only [Bool.false_eq_true, if_false]
    split
    · next y ys hy => exact Same.pure (hsorted y (by rw [hy]; exact List.mem_cons_self)).2
    · exact Same.pure (choiceFailure_lands _ _ _ _ _ _)

/-! ## Children in any order -/

/-- What the first pass over items has found: it got to some place, notes runs of items, and notes the run of every
item that it has seen. -/
structure Finds (D : Twin g) (start : Nat) (items : List (EachItem × Nat)) (d : Discovery) : Prop where
  loc : Advance D.c₁.text start True d.loc
  order : ∀ j ∈ d.order, ∃ x ∈ items, x.1.run = j
  seen : ∀ x ∈ items, x.2 ∈ d.seen → x.1.run ∈ d.order

theorem discoverRound_same {items all : List (EachItem × Nat)} (hsub : items ⊆ all)
    (hunique : ∀ x ∈ all, ∀ y ∈ all, x.2 = y.2 → x = y) (htest : ∀ x ∈ all, D.MeetsFrom acts start x.1.test)
    {d : Discovery} (hd : D.Finds start all d) (progressed : Bool) :
    D.Same (fun x => D.Finds start all x.1) (discoverRound D.first D.c₁ items d progressed)
      (discoverRound D.second D.c₂ items d progressed) := by
  induction items generalizing d progressed with
  | nil => exact Same.pure hd
  | cons x items ih =>
    have hx : x ∈ all := hsub (by simp)
    have ih := @ih fun y hy => hsub (by simp [hy])
    obtain ⟨item, i⟩ := x
    rw [discoverRound, discoverRound]
    by_cases hseen : (item.isSingle && d.seen.contains i) = true
    · simp only [hseen, if_true]
      exact ih hd progressed
    · simp only [hseen]
      refine (htest _ hx d.loc hd.loc.le hd.loc.place false true (by simp)).step ?_ fun _ => ih hd progressed
      intro stop r hstop
      by_cases h : (item.isSingle || decide (d.loc < stop)) = true
      · simp only [h, if_true]
        refine ih ⟨(hd.loc.trans hstop).weaken fun _ => trivial, ?_, ?_⟩ true
        · intro j hj
          rcases List.mem_cons.mp hj with rfl | hj
          · exact ⟨_, hx, rfl⟩
          · exact hd.order j hj
        · intro y hy hyseen
          rcases List.mem_cons.mp hyseen with heq | hyseen
          · obtain rfl := hunique y hy _ hx heq
            exact List.mem_cons_self
          · exact List.mem_cons_of_mem _ (hd.seen y hy hyseen)
      · simp only [h]
        exact ih hd progressed

theorem discover_same {items : List (EachItem × Nat)} (hunique : ∀ x ∈ items, ∀ y ∈ items, x.2 = y.2 → x = y)
    (htest : ∀ x ∈ items, D.MeetsFrom acts start x.1.test) (fuel : Nat) {d : Discovery}
    (hd : D.Finds start items d) :
    D.Same (D.Finds start items) (discover D.first D.c₁ items fuel d) (discover D.second D.c₂ items fuel d) := by
  induction fuel generalizing d with
  | zero => exact Same.pure hd
  | succ fuel ih =>
    rw [discover, discover]
    refine (discoverRound_same (List.Subset.refl _) hunique htest hd false).bind ?_
    intro x hx
    obtain ⟨d', progressed⟩ := x
    cases progressed with
    | true => exact ih hx
    | false => exact Same.pure hx

theorem runInOrder_same {order : List ExprId} (hi : ∀ i ∈ order, D.MeetsFrom acts start i) {loc : Nat} {E : Prop}
    (hloc : Advance D.c₁.text start E loc) (results : Results) :
    D.Same (Step.Lands D.c₁.text start (E ∧ ∀ i ∈ order, D.empty i = true))
      (runInOrder D.first D.c₁ acts order loc results) (runInOrder D.second D.c₂ acts order loc results) := by
  induction order generalizing loc E results with
  | nil => exact Same.pure (hloc.weaken fun hE => ⟨hE, by simp⟩)
  | cons i order ih =>
    rw [runInOrder, runInOrder]
    refine (hi i (by simp) loc hloc.le hloc.place acts true id).step ?_ fun d => Same.pure trivial
    intro stop part hstop
    refine (ih (fun j hj => hi j (by simp [hj])) (hloc.trans hstop) _).mono fun step hstep => hstep.weaken ?_
    rintro ⟨⟨hE, hempty⟩, hrest⟩
    refine ⟨hE, ?_⟩
    intro j hj
    rcases List.mem_cons.mp hj with rfl | hj
    · exact hempty
    · exact hrest j hj

/-- When everything that was run for a child and had to be run may be empty, so may be the child. -/
theorem empty_of_item {i : ExprId}
    (h : (EachItem.ofChild i (g.rule i).kind).isNeeded = true →
      D.empty (EachItem.ofChild i (g.rule i).kind).run = true) : D.empty i = true := by
  unfold EachItem.ofChild at h
  split at h
  · next inner value hk => exact D.nullable i (by rw [hk]; rfl)
  · next inner min hk =>
    refine D.nullable i ?_
    rw [hk]
    rcases Nat.eq_zero_or_pos min with rfl | hmin
    · rfl
    · have hinner : D.empty inner = true := h (by simp [EachItem.isNeeded, hmin])
      simp [NodeKind.isNullable, hinner]
  · exact h rfl

/-- Items at one position of a list are one. -/
theorem eq_of_mem_zipIdx {α : Type} {l : List α} {x y : α × Nat} (hx : x ∈ l.zipIdx) (hy : y ∈ l.zipIdx)
    (h : x.2 = y.2) : x = y := by
  have h₁ := List.mem_zipIdx_iff_getElem?.mp hx
  have h₂ := List.mem_zipIdx_iff_getElem?.mp hy
  rw [h] at h₁
  exact Prod.ext (Option.some.inj (h₁.symm.trans h₂)) h

/-- Where no item is missing, those that are needed were seen. -/
theorem mem_seen_of_none_missing {items : List (EachItem × Nat)} {seen : List Nat}
    (h : ¬ (!(items.filter fun x => x.1.isNeeded && !seen.contains x.2).isEmpty) = true) {x : EachItem × Nat}
    (hx : x ∈ items) (hneeded : x.1.isNeeded = true) : x.2 ∈ seen := by
  by_contra hnot
  have hmem : x ∈ items.filter fun x => x.1.isNeeded && !seen.contains x.2 :=
    List.mem_filter.mpr ⟨hx, by simpa [hneeded] using hnot⟩
  refine h ?_
  cases hlist : items.filter fun x => x.1.isNeeded && !seen.contains x.2 with
  | nil => rw [hlist] at hmem; exact absurd hmem List.not_mem_nil
  | cons y ys => rfl

theorem matchEach_same {children : List ExprId}
    (hchild : ∀ i ∈ children, D.MeetsFrom acts start i)
    (htest : ∀ i ∈ children, D.MeetsFrom acts start (EachItem.ofChild i (g.rule i).kind).test)
    (hp : D.c₁.text.IsBoundary start) :
    D.Same (Step.Lands D.c₁.text start (children.all D.empty = true))
      (matchEach D.first D.c₁ children start acts) (matchEach D.second D.c₂ children start acts) := by
  let items := (children.map fun i => EachItem.ofChild i (g.rule i).kind).zipIdx
  have hof : ∀ x ∈ items, ∃ i ∈ children, x.1 = EachItem.ofChild i (g.rule i).kind :=
    fun x hx => EachItem.exists_of_mem_items hx
  have htests : ∀ x ∈ items, D.MeetsFrom acts start x.1.test := by
    intro x hx
    obtain ⟨i, hi, hx⟩ := hof x hx
    rw [hx]
    exact htest i hi
  have hruns : ∀ x ∈ items, D.MeetsFrom acts start x.1.run := by
    intro x hx
    obtain ⟨i, hi, hx⟩ := hof x hx
    rw [hx]
    rcases EachItem.run_ofChild i (g.rule i).kind with hrun | hrun
    · rw [hrun]
      exact hchild i hi
    · rw [hrun]
      exact htest i hi
  simp only [matchEach, D.text_eq, D.rule₁, D.rule₂]
  refine (discover_same (fun x hx y hy => eq_of_mem_zipIdx hx hy) htests _
    ⟨Advance.self hp trivial, by simp, by simp⟩).bind ?_
  intro d hd
  by_cases hmissing : (!(items.filter fun x => x.1.isNeeded && !d.seen.contains x.2).isEmpty) = true
  · rw [if_pos hmissing, if_pos hmissing]
    exact Same.pure trivial
  · rw [if_neg hmissing, if_neg hmissing]
    refine (runInOrder_same ?_ (Advance.self hp trivial) _).mono fun step hstep => hstep.weaken ?_
    · intro j hj
      rcases List.mem_append.mp hj with hj | hj
      · obtain ⟨x, hx, rfl⟩ := hd.order j (List.mem_reverse.mp hj)
        exact hruns x hx
      · obtain ⟨x, hx, rfl⟩ := List.mem_map.mp hj
        exact hruns x (List.mem_filter.mp hx).1
    · rintro ⟨-, hempty⟩
      refine List.all_eq_true.mpr ?_
      intro i hi
      refine D.empty_of_item fun hneeded => hempty _ ?_
      -- an item that is needed was seen, so it was run
      obtain ⟨k, hk⟩ := List.getElem?_of_mem (List.mem_map_of_mem (f := fun i => EachItem.ofChild i (g.rule i).kind) hi)
      have hx : (EachItem.ofChild i (g.rule i).kind, k) ∈ items := List.mem_zipIdx_iff_getElem?.mpr hk
      exact List.mem_append_left _ (List.mem_reverse.mpr (hd.seen _ hx (mem_seen_of_none_missing hmissing hx hneeded)))

/-! ## Repetitions -/

/-- Rounds of a repetition have got to some place, and past the start unless there were none or the child may be
empty. -/
def Repeats (D : Twin g) (start : Nat) (child : ExprId) (r : Rounds) : Prop :=
  Advance D.c₁.text start (0 < r.count → D.empty child = true) r.loc

theorem takeRound_same {child : ExprId} (hi : D.MeetsFrom acts start child) {again₁ again₂ : Rounds → MatchM Rounds}
    (hagain : ∀ {r}, D.Repeats start child r → D.Same (D.Repeats start child) (again₁ r) (again₂ r)) {r : Rounds}
    (hr : D.Repeats start child r) :
    D.Same (D.Repeats start child) (takeRound D.first D.c₁ child acts again₁ r)
      (takeRound D.second D.c₂ child acts again₂ r) := by
  rw [takeRound, takeRound]
  refine (hi r.loc hr.le hr.place acts true id).step ?_ fun d => Same.pure hr
  intro stop part hstop
  have hnext : Advance D.c₁.text start (0 < r.count + 1 → D.empty child = true) stop :=
    (hr.trans hstop).weaken fun h _ => h.2
  by_cases h : r.loc < stop
  · simp only [h, if_true]
    exact hagain hnext
  · simp only [h, if_false]
    exact Same.pure hnext

theorem repeatRounds_same {child : ExprId} (hi : D.MeetsFrom acts start child) (max : Option Nat)
    {stop : Option ExprId} (hs : ∀ i ∈ stop, D.MeetsFrom acts start i) (fuel : Nat) {r : Rounds}
    (hr : D.Repeats start child r) :
    D.Same (D.Repeats start child) (repeatRounds D.first D.c₁ child max stop acts fuel r)
      (repeatRounds D.second D.c₂ child max stop acts fuel r) := by
  induction fuel generalizing r with
  | zero => exact Same.pure hr
  | succ fuel ih =>
    have hround := takeRound_same hi ih hr
    rw [repeatRounds, repeatRounds]
    by_cases hmax : max.any (fun n => decide (n ≤ r.count)) = true
    · simp only [hmax, if_true]
      exact Same.pure hr
    · simp only [hmax]
      cases stop with
      | none => exact hround
      | some i =>
        simp only [D.rule₁, D.rule₂]
        exact ((hs i rfl) r.loc hr.le hr.place).probe.step (fun _ _ _ => Same.pure hr) fun _ => hround

theorem matchRepetition_same (rule : Rule) {child : ExprId} (hi : D.MeetsFrom acts start child) (min : Nat)
    (max : Option Nat) {stop : Option ExprId} (hs : ∀ i ∈ stop, D.MeetsFrom acts start i)
    (hp : D.c₁.text.IsBoundary start) :
    D.Same (Step.Lands D.c₁.text start ((min == 0 || D.empty child) = true))
      (matchRepetition D.first D.c₁ rule child min max stop start acts)
      (matchRepetition D.second D.c₂ rule child min max stop start acts) := by
  rw [matchRepetition, matchRepetition, D.text_eq]
  refine (repeatRounds_same hi max hs _ (r := ⟨start, 0, {}, none⟩) (Advance.self hp (by simp))).bind ?_
  intro r hr
  by_cases hmin : r.count < min
  · simp only [hmin, if_true]
    split
    · exact Same.pure trivial
    · exact Same.pure trivial
  · simp only [hmin, if_false]
    refine Same.pure (Advance.weaken hr fun h => ?_)
    rcases Nat.eq_zero_or_pos min with rfl | hpos
    · rfl
    · simp [h (by omega)]

/-! ## Looking behind and skipping ahead -/

/-- What is run on a state of its own is the same when it is from there. -/
theorem aside_same {α : Type} {J : State → Prop} {P : α → Prop} {m₁ m₂ : MatchM α}
    (hJ : ∀ s, s.SameTables (State.initial D.c₁.config) → J s) (hm : Concur J D.halts P m₁ m₂) :
    D.Same P (aside D.c₁.config m₁) (aside D.c₂.config m₂) := by
  constructor
  · intro s hs
    have h := hm.keeps { State.initial D.c₁.config with journal := s.journal } (hJ _ ⟨rfl, rfl, rfl, rfl⟩)
    unfold aside
    cases hr : m₁ { State.initial D.c₁.config with journal := s.journal } with
    | ok x s' =>
      rw [hr] at h
      exact ⟨h.1, D.stable hs ⟨rfl, rfl, rfl, rfl⟩⟩
    | error e s' =>
      rw [hr] at h
      exact ⟨h.1, D.stable hs ⟨rfl, rfl, rfl, rfl⟩⟩
  · intro s _
    have h := hm.eq { State.initial D.c₁.config with journal := s.journal } (hJ _ ⟨rfl, rfl, rfl, rfl⟩)
    unfold aside
    rw [D.peers.initial]
    simp only [h]

/-- What is looked for behind a place is attempted alike at every place before it, in a state of its own. -/
def LooksBehind (D : Twin g) (acts : Bool) (start : Nat) (child : ExprId) : Prop :=
  ∃ J : State → Prop, (∀ s, s.SameTables (State.initial D.c₁.config) → J s) ∧
    ∀ q, (D.c₁.behind start).text.IsBoundary q →
      Concur J D.halts (fun _ => True) (D.first (D.c₁.behind start) child q acts false)
        (D.second (D.c₂.behind start) child q acts false)

theorem findBehind_same {H : Halt → Prop} {J : State → Prop} {a₁ a₂ : Attempt} {c₁ c₂ : Context}
    (ht : c₂.text = c₁.text) {child : ExprId} {positions : List Nat}
    (hi : ∀ q ∈ positions, Concur J H (fun _ => True) (a₁ c₁ child q acts false) (a₂ c₂ child q acts false)) :
    Concur J H (fun _ => True) (findBehind a₁ c₁ child acts positions) (findBehind a₂ c₂ child acts positions) := by
  induction positions with
  | nil => exact Concur.pure trivial
  | cons q positions ih =>
    have ih := ih fun q hq => hi q (List.mem_cons_of_mem _ hq)
    rw [findBehind, findBehind, ht]
    refine Concur.bind ((hi q List.mem_cons_self).recover fun _ => trivial) ?_
    intro step _
    cases step with
    | failed d => exact ih
    | matched stop r =>
      by_cases h : stop = c₁.text.size
      · simp only [h, if_true]
        exact Concur.pure trivial
      · simp only [h, if_false]
        exact ih

theorem matchPrecededBy_same (rule : Rule) {child : ExprId} (retreat : Option Nat)
    (hi : D.LooksBehind acts start child) (hp : D.c₁.text.IsBoundary start) :
    D.Same (Step.Lands D.c₁.text start True) (matchPrecededBy D.first D.c₁ rule child retreat start acts)
      (matchPrecededBy D.second D.c₂ rule child retreat start acts) := by
  obtain ⟨J, hJ, hi⟩ := hi
  have htext : (D.c₂.behind start).text = (D.c₁.behind start).text := (D.peers.behind start).text.symm
  unfold matchPrecededBy
  simp only [htext]
  refine (aside_same hJ (findBehind_same htext ?_)).bind ?_
  · intro q hq
    refine hi q (Text.isBoundary_of_mem_starts (List.mem_reverse.mp ?_))
    cases retreat with
    | none => exact hq
    | some n => exact List.mem_of_mem_take hq
  · intro found _
    cases found with
    | none => exact Same.pure trivial
    | some r => exact Same.pure (Advance.self hp trivial)

/-- A place at or after the start that was found, or none. -/
def FoundFrom (D : Twin g) (start : Nat) (x : Option Nat) : Prop :=
  ∀ q ∈ x, Advance D.c₁.text start True q

theorem findAhead_same {target : ExprId} (hi : D.MeetsFrom acts start target)
    (hignores : ∀ j ∈ (g.rule target).ignores, D.MeetsFrom false start j)
    {failOn : Option ExprId} (hf : ∀ i ∈ failOn, D.MeetsFrom acts start i) (fuel : Nat) {loc : Nat}
    (hloc : Advance D.c₁.text start True loc ∨ D.c₁.text.size < loc) :
    D.Same (D.FoundFrom start) (findAhead D.first D.c₁ target failOn fuel loc)
      (findAhead D.second D.c₂ target failOn fuel loc) := by
  induction fuel generalizing loc with
  | zero => exact Same.pure (by simp [FoundFrom])
  | succ fuel ih =>
    rw [findAhead, findAhead, D.text_eq]
    by_cases hsize : D.c₁.text.size < loc
    · rw [if_pos hsize, if_pos hsize]
      exact Same.pure (by simp [FoundFrom])
    · rw [if_neg hsize, if_neg hsize]
      have hloc := hloc.resolve_right hsize
      have hfound {q : Nat} (hq : Advance D.c₁.text start True q) : D.FoundFrom start (some q) := by
        intro q' hq'
        obtain rfl := Option.some.inj hq'
        exact hq
      have htry : D.Same (D.FoundFrom start)
          (tryTarget D.first D.c₁ target (findAhead D.first D.c₁ target failOn fuel) loc)
          (tryTarget D.second D.c₂ target (findAhead D.second D.c₂ target failOn fuel) loc) := by
        rw [tryTarget, tryTarget, D.rule₁, D.rule₂, D.text_eq]
        refine (skipIgnorables_same (fun j hj => (hignores j hj).mono hloc.le) hloc.place).bind ?_
        intro q hq
        have hq := (hloc.trans hq).weaken fun _ => trivial
        refine (hi q hq.le hq.place false false (by simp)).recover.step (fun _ _ _ => Same.pure (hfound hq)) ?_
        -- the next position is a place, or lies past the end, where the search stops
        intro d
        refine ih ?_
        rcases hq.place.next with hnext | hnext
        · exact Or.inl ⟨hnext, hq.le.trans (Text.lt_next _ _).le, fun _ => trivial⟩
        · exact Or.inr hnext
      cases failOn with
      | none => exact htry
      | some i =>
        exact ((hf i rfl) loc hloc.le hloc.place).probe.step (fun _ _ _ => Same.pure (hfound hloc)) fun _ => htry

theorem matchSkipTo_same (rule : Rule) {target : ExprId} (hi : D.MeetsFrom acts start target)
    (hignores : ∀ j ∈ (g.rule target).ignores, D.MeetsFrom false start j) (includes : Bool)
    {failOn : Option ExprId} (hf : ∀ i ∈ failOn, D.MeetsFrom acts start i) (hp : D.c₁.text.IsBoundary start) :
    D.Same (Step.Lands D.c₁.text start True) (matchSkipTo D.first D.c₁ rule target includes failOn start acts)
      (matchSkipTo D.second D.c₂ rule target includes failOn start acts) := by
  rw [matchSkipTo, matchSkipTo, D.text_eq]
  refine (findAhead_same hi hignores hf _ (Or.inl (Advance.self hp trivial))).bind ?_
  intro found hfound
  cases found with
  | none => exact Same.pure trivial
  | some loc =>
    have hloc := hfound loc rfl
    cases includes with
    | false => exact Same.pure hloc
    | true =>
      refine (hi loc hloc.le hloc.place acts false id).step ?_ fun d => Same.pure trivial
      intro stop part hstop
      exact Same.pure ((hloc.trans hstop).weaken fun _ => trivial)

/-! ## Actions -/

theorem runAction_same (action : Action) {stop : Nat} {E : Prop} (hstop : Advance D.c₁.text start E stop)
    (results : Results) :
    D.Same (Step.Lands D.c₁.text start E) (runAction D.c₁ action start stop results)
      (runAction D.c₂ action start stop results) := by
  rw [runAction, runAction, D.text_eq]
  have hnotes (lines : List String) : D.Same (fun _ => True) (MatchM.notes lines) (MatchM.notes lines) :=
    Same.unit fun s => ⟨_, rfl, rfl, rfl, rfl, rfl⟩
  refine (hnotes _).bind fun _ _ => ?_
  split
  · exact Same.pure hstop
  · exact Same.pure trivial
  · exact Same.halt rfl rfl
  · exact Same.halt rfl rfl
  · exact Same.halt rfl rfl

/-! ## Nodes -/

/-- The attempts that the match of a node at a place can make are the same in both runs. -/
structure Serves (D : Twin g) (i : ExprId) (start : Nat) (acts : Bool) : Prop where
  now : (∀ label target, (g.rule i).kind ≠ .forward label target) →
    ∀ j ∈ (g.rule i).kind.leftCalls D.empty, D.Meets acts j start
  later : ∀ j ∈ (g.rule i).kind.children, ∀ q, start < q → D.c₁.text.IsBoundary q → D.Meets acts j q
  /-- What is tested for children in any order need not be the child. -/
  tests : ∀ children, (g.rule i).kind = .each children → ∀ j ∈ children,
    D.MeetsFrom acts start (EachItem.ofChild j (g.rule j).kind).test
  skipped : ∀ j ∈ (g.rule i).ignores, D.MeetsFrom false start j
  /-- What is skipped ahead to has its ignorables skipped before it. -/
  ahead : ∀ target includes failOn, (g.rule i).kind = .skipTo target includes failOn →
    ∀ j ∈ (g.rule target).ignores, D.MeetsFrom false start j
  /-- The start of the text is looked for from the start of the text. -/
  restart : (g.rule i).kind = .stringStart → ∀ j ∈ (g.rule i).ignores, D.MeetsFrom false 0 j
  combined : ∀ child joiner, (g.rule i).kind = .combine child joiner → D.combined.Meets acts child start
  behind : ∀ child retreat, (g.rule i).kind = .precededBy child retreat → D.LooksBehind acts start child
  forward : ∀ label target, (g.rule i).kind = .forward label (some target) →
    D.Same (Step.Lands D.c₁.text start (D.empty i = true)) (matchNode D.first D.c₁ i (g.rule i) start acts)
      (matchNode D.second D.c₂ i (g.rule i) start acts)
  token : ∀ r, matchToken (g.rule i) D.c₁.text start = .matched start r → D.empty i = true

namespace Serves

variable {i : ExprId} (h : D.Serves i start acts)
include h

/-- Where a node may attempt all its children at its own place, it attempts them from there on. -/
theorem meetsFrom (hf : ∀ label target, (g.rule i).kind ≠ .forward label target)
    (hcalls : (g.rule i).kind.leftCalls D.empty = (g.rule i).kind.children) {j : ExprId}
    (hj : j ∈ (g.rule i).kind.children) : D.MeetsFrom acts start j := by
  intro q hq hplace
  rcases hq.eq_or_lt with rfl | hlt
  · exact h.now hf j (by rw [hcalls]; exact hj)
  · exact h.later j hj q hlt hplace

/-- An only child is attempted at the place of its node. -/
theorem only (hf : ∀ label target, (g.rule i).kind ≠ .forward label target) {j : ExprId}
    (hcalls : (g.rule i).kind.leftCalls D.empty = [j]) : D.Meets acts j start :=
  h.now hf j (by rw [hcalls]; exact List.mem_singleton_self j)

omit h in
/-- Where the nodes of a closed set are attempted alike at every place, and terminals that match without consuming text
are known to, matching a node of the set makes no other attempts. -/
theorem of_within {N : ExprId → Prop} (hN : g.Closed N) (hi : N i)
    (hmeets : ∀ b q j, N j → D.c₁.text.IsBoundary q → D.Meets b j q) (hp : D.c₁.text.IsBoundary start)
    (htoken : ∀ r, matchToken (g.rule i) D.c₁.text start = .matched start r → D.empty i = true)
    (hcombined : ∀ child, N child → D.combined.Meets acts child start)
    (hbehind : ∀ child, N child → D.LooksBehind acts start child)
    (hforward : ∀ label target, (g.rule i).kind = .forward label (some target) → N target →
      D.Same (Step.Lands D.c₁.text start (D.empty i = true)) (matchNode D.first D.c₁ i (g.rule i) start acts)
        (matchNode D.second D.c₂ i (g.rule i) start acts)) : D.Serves i start acts := by
  have hfrom {b : Bool} {q : Nat} {j : ExprId} (hj : N j) : D.MeetsFrom b q j := fun q' _ hq' => hmeets b q' j hj hq'
  have hchild {i j : ExprId} (hi : N i) (hj : j ∈ (g.rule i).kind.children) : N j := hN hi (List.mem_append_left _ hj)
  have hignored {i j : ExprId} (hi : N i) (hj : j ∈ (g.rule i).ignores) : N j := hN hi (List.mem_append_right _ hj)
  have honly {k : NodeKind} {j : ExprId} (hk : (g.rule i).kind = k) (hj : j ∈ k.children) : N j :=
    hchild hi (by rw [hk]; exact hj)
  constructor
  · exact fun _ j hj => hmeets acts start j (hchild hi (NodeKind.leftCalls_subset _ _ hj)) hp
  · exact fun j hj q _ hq => hmeets acts q j (hchild hi hj) hq
  · -- what is tested for a child is the child, or a child of it
    intro children hk j hj
    have hj : N j := honly hk (by simpa [NodeKind.children] using hj)
    rcases EachItem.test_ofChild j (g.rule j).kind D.empty with htest | hinner
    · rw [htest]
      exact hfrom hj
    · exact hfrom (hchild hj (NodeKind.leftCalls_subset _ _ hinner))
  · exact fun j hj => hfrom (hignored hi hj)
  · exact fun target _ _ hk j hj => hfrom (hignored (honly (j := target) hk (by simp [NodeKind.children])) hj)
  · exact fun _ j hj => hfrom (hignored hi hj)
  · exact fun child _ hk => hcombined child (honly hk (by simp [NodeKind.children]))
  · exact fun child _ hk => hbehind child (honly hk (by simp [NodeKind.children]))
  · exact fun label target hk => hforward label target hk (honly hk (by simp [NodeKind.children]))
  · exact htoken

omit h in
/-- Where nodes are attempted alike at every place, and any node may match without consuming text, matching a node
makes no other attempts. -/
theorem of_everywhere (hmeets : ∀ b q j, D.c₁.text.IsBoundary q → D.Meets b j q) (hp : D.c₁.text.IsBoundary start)
    (hempty : ∀ j, D.empty j = true) (hcombined : ∀ child, D.combined.Meets acts child start)
    (hbehind : ∀ child, D.LooksBehind acts start child)
    (hforward : ∀ label target, (g.rule i).kind = .forward label (some target) →
      D.Same (Step.Lands D.c₁.text start (D.empty i = true)) (matchNode D.first D.c₁ i (g.rule i) start acts)
        (matchNode D.second D.c₂ i (g.rule i) start acts)) : D.Serves i start acts :=
  of_within (Grammar.Closed.all g) trivial (fun b q j _ => hmeets b q j) hp (fun _ _ => hempty i)
    (fun child _ => hcombined child) (fun child _ => hbehind child) fun label target hk _ => hforward label target hk

end Serves

theorem matchToken_lands {i : ExprId} (h : D.Serves i start acts) (hp : D.c₁.text.IsBoundary start) :
    (matchToken (g.rule i) D.c₁.text start).Lands D.c₁.text start (D.empty i = true) := by
  have hle := le_place_matchToken (g.rule i) D.c₁.text start
  have hplace := isBoundary_matchToken hp (g.rule i)
  cases hstep : matchToken (g.rule i) D.c₁.text start with
  | failed d => trivial
  | matched stop r =>
    rw [hstep] at hle hplace
    refine ⟨hplace, hle, ?_⟩
    rintro rfl
    exact h.token r hstep

omit D in
theorem testPosition_lands (t : Text) (rule : Rule) (hp : t.IsBoundary start) {E : Prop} (hE : E) :
    (testPosition rule t start).Lands t start E := by
  have hle := le_place_testPosition rule t start
  have hplace := isBoundary_testPosition hp rule
  cases hstep : testPosition rule t start with
  | failed d => trivial
  | matched stop r =>
    rw [hstep] at hle hplace
    exact ⟨hplace, hle, fun _ => hE⟩

/-- **Nodes match in the same way** when the attempts that this can make are the same. -/
theorem matchNode_same {i : ExprId} (h : D.Serves i start acts) (hp : D.c₁.text.IsBoundary start) :
    D.Same (Step.Lands D.c₁.text start (D.empty i = true)) (matchNode D.first D.c₁ i (g.rule i) start acts)
      (matchNode D.second D.c₂ i (g.rule i) start acts) := by
  have hempty {k : NodeKind} (hk : (g.rule i).kind = k) (hn : k.isNullable D.empty = true) : D.empty i = true :=
    D.nullable i (by rw [hk]; exact hn)
  have hself {k : NodeKind} (hk : (g.rule i).kind = k) (hn : k.isNullable D.empty = true) :
      Advance D.c₁.text start (D.empty i = true) start := Advance.self hp (hempty hk hn)
  cases hk : (g.rule i).kind with
  | forward label target =>
    cases target with
    | none =>
      simp only [matchNode, hk]
      exact Same.halt rfl rfl
    | some target =>
      have hforward := h.forward label target hk
      simp only [matchNode, hk] at hforward ⊢
      exact hforward
  | literal | keyword | word | charsNotIn | pattern =>
    simp only [matchNode, hk, D.text_eq]
    exact Same.pure (matchToken_lands h hp)
  | stringEnd | lineStart | lineEnd | wordStart | wordEnd =>
    simp only [matchNode, hk, D.text_eq]
    exact Same.pure (testPosition_lands _ _ hp (hempty hk rfl))
  | empty | commit =>
    simp only [matchNode, hk]
    exact Same.pure (hself hk rfl)
  | noMatch =>
    simp only [matchNode, hk]
    exact Same.pure trivial
  | stringStart =>
    simp only [matchNode, hk]
    refine (atTextStart_same (h.restart hk) start).bind ?_
    intro b _
    cases b with
    | true => exact Same.pure (hself hk rfl)
    | false => exact Same.pure trivial
  | sequence children =>
    have hnow := h.now (by simp [hk])
    have hlater := h.later
    simp only [hk, NodeKind.leftCalls, NodeKind.children] at hnow hlater
    simp only [matchNode, hk]
    exact (matchSequence_same hlater (Advance.self hp trivial) (fun _ => hnow) true false {}).mono
      fun step hstep => hstep.weaken fun hall => hempty hk hall.2
  | orderedChoice children =>
    have hnow := h.now (by simp [hk])
    simp only [hk, NodeKind.leftCalls, NodeKind.children] at hnow
    simp only [matchNode, hk]
    exact (matchFirst_same _ hnow none).mono fun step hstep => hstep.weaken (hempty hk)
  | longestChoice children =>
    have hnow := h.now (by simp [hk])
    simp only [hk, NodeKind.leftCalls, NodeKind.children] at hnow
    simp only [matchNode, hk]
    exact (matchLongest_same _ hnow).mono fun step hstep => hstep.weaken (hempty hk)
  | each children =>
    have hfrom {j : ExprId} (hj : j ∈ children) : D.MeetsFrom acts start j :=
      h.meetsFrom (by simp [hk]) (by simp [hk, NodeKind.leftCalls]) (by simpa [hk, NodeKind.children] using hj)
    simp only [matchNode, hk]
    exact (matchEach_same (fun j hj => hfrom hj) (h.tests children hk) hp).mono
      fun step hstep => hstep.weaken (hempty hk)
  | repetition child min max stop =>
    have hfrom {j : ExprId} (hj : j ∈ child :: stop.toList) : D.MeetsFrom acts start j :=
      h.meetsFrom (by simp [hk]) (by simp [hk, NodeKind.leftCalls]) (by simpa [hk, NodeKind.children] using hj)
    simp only [matchNode, hk]
    refine (matchRepetition_same _ (hfrom (by simp)) min max (fun j hj => hfrom ?_) hp).mono
      fun step hstep => hstep.weaken (hempty hk)
    exact List.mem_cons_of_mem _ (Option.mem_toList.mpr hj)
  | optional child default =>
    have hchild := h.only (j := child) (by simp [hk]) (by simp [hk, NodeKind.leftCalls, NodeKind.children])
    simp only [matchNode, hk, D.rule₁, D.rule₂]
    refine (hchild acts false id).step ?_ fun _ => Same.pure (hself hk rfl)
    exact fun stop r hstop => Same.pure (hstop.weaken fun _ => hempty hk rfl)
  | lookahead child =>
    have hchild := h.only (j := child) (by simp [hk]) (by simp [hk, NodeKind.leftCalls, NodeKind.children])
    simp only [matchNode, hk]
    exact (hchild acts true id).recover.step (fun _ _ _ => Same.pure (hself hk rfl)) fun _ => Same.pure trivial
  | notAhead child =>
    have hchild := h.only (j := child) (by simp [hk]) (by simp [hk, NodeKind.leftCalls, NodeKind.children])
    simp only [matchNode, hk]
    exact hchild.probe.step (fun _ _ _ => Same.pure trivial) fun _ => Same.pure (hself hk rfl)
  | precededBy child retreat =>
    simp only [matchNode, hk]
    exact (matchPrecededBy_same _ retreat (h.behind child retreat hk) hp).mono
      fun step hstep => hstep.weaken fun _ => hempty hk rfl
  | transform child action =>
    have hchild := h.only (j := child) (by simp [hk]) (by simp [hk, NodeKind.leftCalls, NodeKind.children])
    simp only [matchNode, hk]
    refine (hchild acts false id).step ?_ fun _ => Same.pure trivial
    intro stop r hstop
    cases acts with
    | false => exact Same.pure (hstop.weaken (hempty hk))
    | true => exact runAction_same action (hstop.weaken (hempty hk)) r
  | named child | group child | dict child | suppress child =>
    have hchild := h.only (j := child) (by simp [hk]) (by simp [hk, NodeKind.leftCalls, NodeKind.children])
    simp only [matchNode, hk, D.rule₁, D.rule₂]
    refine (hchild acts false id).bind fun step hstep => Same.pure ?_
    exact (hstep.weaken (hempty hk)).mapResults _
  | combine child joiner =>
    have hchild := h.combined child joiner hk
    simp only [matchNode, hk]
    refine Same.bind (hchild acts false id) fun step hstep => Same.pure ?_
    exact (hstep.weaken (hempty hk)).mapResults _
  | originalText child =>
    have hchild := h.only (j := child) (by simp [hk]) (by simp [hk, NodeKind.leftCalls, NodeKind.children])
    simp only [matchNode, hk, D.text_eq]
    refine (hchild acts false id).step ?_ fun _ => Same.pure trivial
    exact fun stop r hstop => Same.pure (hstop.weaken (hempty hk))
  | skipTo target includes failOn =>
    have hfrom {j : ExprId} (hj : j ∈ target :: failOn.toList) : D.MeetsFrom acts start j :=
      h.meetsFrom (by simp [hk]) (by simp [hk, NodeKind.leftCalls]) (by simpa [hk, NodeKind.children] using hj)
    have hignores := h.ahead target includes failOn hk
    simp only [matchNode, hk]
    refine (matchSkipTo_same _ (hfrom (by simp)) hignores includes (fun j hj => hfrom ?_) hp).mono
      fun step hstep => hstep.weaken fun _ => hempty hk rfl
    exact List.mem_cons_of_mem _ (Option.mem_toList.mpr hj)

/-! ## Attempts -/

/-- **Attempts are the same** when those that the match of the node can make are. -/
theorem perform_same {i : ExprId} (h : ∀ q, p ≤ q → D.c₁.text.IsBoundary q → D.Serves i q acts)
    (hp : D.c₁.text.IsBoundary p) (skips : Bool) :
    D.Same (Step.Lands D.c₁.text p (D.empty i = true)) (perform D.first D.c₁ i p acts skips)
      (perform D.second D.c₂ i p acts skips) := by
  have hignores := (h p (le_refl p) hp).skipped
  have hrest {q : Nat} (hq : Advance D.c₁.text p True q) : D.Same (Step.Lands D.c₁.text p (D.empty i = true))
      (do let step ← matchNode D.first D.c₁ i (g.rule i) q acts
          reportStep (D.c₁.watch.wants (g.rule i)) i q (step.mapResults (ResultsOf.withOrigin i))
          return step.mapResults (ResultsOf.withOrigin i))
      (do let step ← matchNode D.second D.c₂ i (g.rule i) q acts
          reportStep (D.c₁.watch.wants (g.rule i)) i q (step.mapResults (ResultsOf.withOrigin i))
          return step.mapResults (ResultsOf.withOrigin i)) := by
    refine (matchNode_same (h q hq.le hq.place) hq.place).bind fun step hstep => ?_
    refine (Same.unit (reportStep_sameTables _ _ _ _)).bind fun _ _ => Same.pure ?_
    exact ((hstep.after hq).weaken And.right).mapResults _
  simp only [perform, D.rule₁, D.rule₂, ← D.peers.watch]
  refine (Same.unit (reportTry_sameTables _ _ _ _)).bind fun _ _ => ?_
  cases skips with
  | false => exact hrest (Advance.self hp trivial)
  | true => exact (skipLeading_same hignores hp).bind fun q hq => hrest hq

/-- Where nothing is remembered, attempts are the same when their performance is. -/
theorem remember_same {i : ExprId} (hoff : ∀ s, D.inv s → s.memo = .off)
    (h : ∀ skips, D.Same (Step.Lands D.c₁.text p (D.empty i = true)) (perform D.first D.c₁ i p acts skips)
      (perform D.second D.c₂ i p acts skips)) (skips : Bool) :
    D.Same (Step.Lands D.c₁.text p (D.empty i = true)) (remember D.first D.c₁ i p acts skips)
      (remember D.second D.c₂ i p acts skips) := by
  constructor
  · intro s hs
    rw [remember_off (hoff s hs)]
    exact (h _).keeps _ (D.stable hs s.counted_sameTables)
  · intro s hs
    rw [remember_off (hoff s hs), remember_off (hoff s hs), ← D.peers.adjacent]
    exact (h _).eq _ (D.stable hs s.counted_sameTables)

end Twin
end Packrat
