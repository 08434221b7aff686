import Mathlib.Tactic
import Mathlib.Logic.Relation
import Mathlib.Algebra.BigOperators.Group.Finset.Basic
import Packrat.Grammar.Analysis

/-!
# `Packrat.Proofs.Analysis.Search` — depth-first search and closed sets find everything

The analyses of grammars follow edges for as much fuel as there are edges, and saturate sets for as many rounds as
there are nodes. Both are enough: a search pays one unit of fuel for each edge, and a round that changes anything
adds a node.

## Contents

* `Follows`, `mem_preorder` — **a search finds what can be reached**, and nothing else;
* `saturate_eq_iterate_of_le`, `mem_saturate_of_rule` — **as many rounds as there are nodes saturate a set**, and
  it is closed under its rule;
* `preorder_settled`, `saturate_settled` — **more fuel changes neither**;
* `nullable_closed`, `not_reaches_of_leftRecursive_nil` — what this says about the analyses.
-/

namespace Packrat

variable {next : ExprId → List ExprId} {size : Nat}

/-! ## Depth-first search -/

/-- An edge from a node. -/
def Follows (next : ExprId → List ExprId) (size : Nat) (i j : ExprId) : Prop := i < size ∧ j ∈ next i

/-- A search finds only what can be reached. -/
theorem follow_sound {R : ExprId → Prop} (hR : ∀ i j, R i → Follows next size i j → R j) {fuel : Nat}
    {pending found : List ExprId} (hp : ∀ i ∈ pending, R i) (hf : ∀ i ∈ found, i < size ∧ R i) :
    ∀ i ∈ follow next size fuel pending found, i < size ∧ R i := by
  induction fuel generalizing pending found with
  | zero => simpa only [follow] using hf
  | succ fuel ih =>
    cases pending with
    | nil => simpa only [follow] using hf
    | cons i pending =>
      have htail : ∀ j ∈ pending, R j := fun j hj => hp j (List.mem_cons_of_mem _ hj)
      rw [follow]
      by_cases hold : (decide (size ≤ i) || found.contains i) = true
      · rw [if_pos hold]
        exact ih htail hf
      · rw [if_neg hold]
        have hi : i < size := Nat.lt_of_not_le fun hle => hold (by simp [hle])
        have hRi : R i := hp i List.mem_cons_self
        refine ih ?_ ?_
        · intro j hj
          rcases List.mem_append.mp hj with hj | hj
          · exact hR i j hRi ⟨hi, hj⟩
          · exact htail j hj
        · intro j hj
          rcases List.mem_cons.mp hj with rfl | hj
          · exact ⟨hi, hRi⟩
          · exact hf j hj

/-- The edges from nodes that are not found yet. -/
def edgesLeft (next : ExprId → List ExprId) (size : Nat) (found : List ExprId) : Nat :=
  ∑ i ∈ (Finset.range size).filter (· ∉ found), (next i).length

/-- What is found takes its edges away from those that are left. -/
theorem edgesLeft_cons (next : ExprId → List ExprId) {found : List ExprId} {i : ExprId} (hi : i < size) (hnew : i ∉ found) :
    (next i).length + edgesLeft next size (i :: found) = edgesLeft next size found := by
  have herase : (Finset.range size).filter (· ∉ i :: found) = ((Finset.range size).filter (· ∉ found)).erase i := by
    ext j
    simp only [Finset.mem_filter, Finset.mem_range, List.mem_cons, not_or, Finset.mem_erase]
    tauto
  unfold edgesLeft
  rw [herase]
  exact Finset.add_sum_erase _ (fun i => (next i).length) (by simp [hi, hnew])

theorem edgesLeft_nil (next : ExprId → List ExprId) (size : Nat) :
    edgesLeft next size [] = ((List.range size).flatMap next).length := by
  unfold edgesLeft
  rw [Finset.filter_true_of_mem (by simp), List.length_flatMap]
  induction size with
  | zero => rfl
  | succ n ih => rw [Finset.sum_range_succ, ih, List.range_succ, List.map_append, List.sum_append]; simp

/-- Nodes that lead only to nodes of a list, or to others that are to be looked at yet. -/
def LeadsInto (next : ExprId → List ExprId) (size : Nat) (found pending : List ExprId) : Prop :=
  ∀ i ∈ found, ∀ j ∈ next i, j < size → j ∈ found ∨ j ∈ pending

/-- A node that is found already, or that there is none of, need not be looked at. -/
theorem LeadsInto.drop {i : ExprId} {found pending : List ExprId} (h : LeadsInto next size found (i :: pending))
    (hfound : i < size → i ∈ found) : LeadsInto next size found pending := by
  intro k hk j hj hlt
  rcases h k hk j hj hlt with hj' | hj'
  · exact Or.inl hj'
  · rcases List.mem_cons.mp hj' with rfl | hj'
    · exact Or.inl (hfound hlt)
    · exact Or.inr hj'

/-- A node that is found leaves what it leads to to be looked at. -/
theorem LeadsInto.add {i : ExprId} {found pending : List ExprId} (h : LeadsInto next size found (i :: pending)) :
    LeadsInto next size (i :: found) (next i ++ pending) := by
  intro k hk j hj hlt
  rcases List.mem_cons.mp hk with rfl | hk
  · exact Or.inr (List.mem_append_left _ hj)
  · rcases h k hk j hj hlt with hj' | hj'
    · exact Or.inl (List.mem_cons_of_mem _ hj')
    · rcases List.mem_cons.mp hj' with rfl | hj'
      · exact Or.inl List.mem_cons_self
      · exact Or.inr (List.mem_append_right _ hj')

/-- With one unit of fuel for each edge left, a search finds all that is pending and all that this leads to. -/
theorem follow_complete {fuel : Nat} {pending found : List ExprId}
    (hfuel : pending.length + edgesLeft next size found < fuel) (hclosed : LeadsInto next size found pending) :
    (∀ i ∈ found, i ∈ follow next size fuel pending found) ∧
      (∀ i ∈ pending, i < size → i ∈ follow next size fuel pending found) ∧
      LeadsInto next size (follow next size fuel pending found) [] := by
  induction fuel generalizing pending found with
  | zero => omega
  | succ fuel ih =>
    cases pending with
    | nil =>
      rw [follow]
      exact ⟨fun i hi => hi, by simp, hclosed⟩
    | cons i pending =>
      rw [follow]
      by_cases hold : (decide (size ≤ i) || found.contains i) = true
      · rw [if_pos hold]
        have hfound : i < size → i ∈ found := by
          intro hi
          simp only [Bool.or_eq_true, decide_eq_true_eq, List.contains_iff_mem] at hold
          exact hold.resolve_left (Nat.not_le_of_lt hi)
        obtain ⟨h₁, h₂, h₃⟩ := ih (by simp only [List.length_cons] at hfuel; omega) (hclosed.drop hfound)
        refine ⟨h₁, ?_, h₃⟩
        intro j hj hlt
        rcases List.mem_cons.mp hj with rfl | hj
        · exact h₁ j (hfound hlt)
        · exact h₂ j hj hlt
      · rw [if_neg hold]
        simp only [Bool.or_eq_true, decide_eq_true_eq, List.contains_iff_mem, not_or] at hold
        have hleft := edgesLeft_cons next (Nat.lt_of_not_le hold.1) hold.2
        obtain ⟨h₁, h₂, h₃⟩ :=
          ih (by simp only [List.length_cons, List.length_append] at hfuel ⊢; omega) hclosed.add
        refine ⟨fun j hj => h₁ j (List.mem_cons_of_mem _ hj), ?_, h₃⟩
        intro j hj hlt
        rcases List.mem_cons.mp hj with rfl | hj
        · exact h₁ j List.mem_cons_self
        · exact h₂ j (List.mem_append_right _ hj) hlt

/-- With one unit of fuel for each edge left, a search has come to its end: more fuel changes nothing. -/
theorem follow_settled {fuel : Nat} {pending found : List ExprId}
    (hfuel : pending.length + edgesLeft next size found < fuel) :
    follow next size (fuel + 1) pending found = follow next size fuel pending found := by
  induction fuel generalizing pending found with
  | zero => omega
  | succ fuel ih =>
    cases pending with
    | nil => rfl
    | cons i pending =>
      simp only [follow]
      by_cases hold : (decide (size ≤ i) || found.contains i) = true
      · simp only [if_pos hold]
        exact ih (by simp only [List.length_cons] at hfuel; omega)
      · simp only [if_neg hold]
        simp only [Bool.or_eq_true, decide_eq_true_eq, List.contains_iff_mem, not_or] at hold
        have hleft := edgesLeft_cons next (Nat.lt_of_not_le hold.1) hold.2
        exact ih (by simp only [List.length_cons, List.length_append] at hfuel ⊢; omega)

/-- **A search comes to its end** with the fuel it is given. -/
theorem preorder_settled (next : ExprId → List ExprId) (size : Nat) (starts : List ExprId) {fuel : Nat}
    (hfuel : followFuel next size starts ≤ fuel) : (follow next size fuel starts []).reverse = preorder next size starts := by
  induction fuel, hfuel using Nat.le_induction with
  | base => rfl
  | succ fuel hle ih =>
    rw [← ih, follow_settled]
    rw [edgesLeft_nil]
    exact hle

/-- **A search finds what can be reached** from where it starts, and nothing else. -/
theorem mem_preorder {starts : List ExprId} {i : ExprId} :
    i ∈ preorder next size starts ↔ i < size ∧ ∃ s ∈ starts, Relation.ReflTransGen (Follows next size) s i := by
  unfold preorder
  rw [List.mem_reverse]
  constructor
  · refine follow_sound (R := fun i => ∃ s ∈ starts, Relation.ReflTransGen (Follows next size) s i) ?_ ?_ (by simp) i
    · rintro i j ⟨s, hs, hi⟩ hj
      exact ⟨s, hs, hi.tail hj⟩
    · intro s hs
      exact ⟨s, hs, Relation.ReflTransGen.refl⟩
  · rintro ⟨hi, s, hs, hreach⟩
    obtain ⟨-, hstarts, hclosed⟩ := @follow_complete next size (followFuel next size starts) starts []
      (by rw [edgesLeft_nil]; exact Nat.lt_succ_self _) (by simp [LeadsInto])
    induction hreach with
    | refl => exact hstarts s hs hi
    | tail _ hstep ih => exact (hclosed _ (ih hstep.1) _ hstep.2 hi).resolve_right List.not_mem_nil

/-! ## Closed sets -/

section Saturation

variable {rule : (ExprId → Bool) → ExprId → Bool} {is known : List ExprId}

/-- A round over some of the nodes. -/
def sweepOver (rule : (ExprId → Bool) → ExprId → Bool) (is known : List ExprId) : List ExprId :=
  is.foldl (fun known i => if !known.contains i && rule known.contains i then i :: known else known) known

theorem sweep_eq_sweepOver : sweep size rule known = sweepOver rule (List.range size) known := rfl

theorem sweepOver_cons {i : ExprId} :
    sweepOver rule (i :: is) known =
      sweepOver rule is (if !known.contains i && rule known.contains i then i :: known else known) := rfl

/-- What holds of the nodes known so far and stays true with each node that the rule admits holds after a round. -/
theorem sweepOver_keeps {P : List ExprId → Prop}
    (hP : ∀ known, P known → ∀ i ∈ is, i ∉ known → rule known.contains i = true → P (i :: known)) (h : P known) :
    P (sweepOver rule is known) := by
  induction is generalizing known with
  | nil => exact h
  | cons i is ih =>
    rw [sweepOver_cons]
    refine ih (fun known h j hj => hP known h j (List.mem_cons_of_mem _ hj)) ?_
    split
    · next hadd =>
      simp only [Bool.and_eq_true, Bool.not_eq_true', List.contains_eq_mem, decide_eq_false_iff_not] at hadd
      exact hP known h i List.mem_cons_self hadd.1 (by simpa using hadd.2)
    · exact h

/-- A round that does not add a node changes nothing, and leaves no node that the rule admits. -/
theorem sweepOver_cases :
    sweepOver rule is known = known ∧ (∀ i ∈ is, rule known.contains i = true → i ∈ known) ∨
      known.length < (sweepOver rule is known).length := by
  induction is generalizing known with
  | nil => exact Or.inl ⟨rfl, by simp⟩
  | cons i is ih =>
    rw [sweepOver_cons]
    by_cases hadd : (!known.contains i && rule known.contains i) = true
    · rw [if_pos hadd]
      refine Or.inr ?_
      rcases @ih (i :: known) with ⟨heq, -⟩ | hlt
      · rw [heq]
        exact Nat.lt_succ_self _
      · exact (Nat.lt_succ_self _).trans hlt
    · rw [if_neg hadd]
      refine ih.imp_left fun ⟨heq, hrule⟩ => ⟨heq, fun j hj hadmits => ?_⟩
      rcases List.mem_cons.mp hj with rfl | hj
      · by_contra hnot
        exact hadd (by simp [hnot, hadmits])
      · exact hrule j hj hadmits

/-- A list of distinct nodes of an arena. -/
structure DistinctNodes (size : Nat) (known : List ExprId) : Prop where
  nodup : known.Nodup
  lt : ∀ i ∈ known, i < size

/-- Distinct nodes are no more than there are nodes. -/
theorem DistinctNodes.length_le (h : DistinctNodes size known) : known.length ≤ size := by
  have hsub : known.toFinset ⊆ Finset.range size := by
    intro i hi
    exact Finset.mem_range.mpr (h.lt i (List.mem_toFinset.mp hi))
  have hcard := Finset.card_le_card hsub
  rwa [List.toFinset_card_of_nodup h.nodup, Finset.card_range] at hcard

theorem DistinctNodes.after_sweep (h : DistinctNodes size known) : DistinctNodes size (sweep size rule known) := by
  refine sweepOver_keeps (P := DistinctNodes size) (fun known h i hi hnew _ => ?_) h
  exact ⟨List.nodup_cons.mpr ⟨hnew, h.nodup⟩, List.forall_mem_cons.mpr ⟨List.mem_range.mp hi, h.lt⟩⟩

theorem DistinctNodes.after_rounds (rounds : Nat) : DistinctNodes size ((sweep size rule)^[rounds] []) :=
  Function.Iterate.rec (DistinctNodes size) ⟨List.nodup_nil, by simp⟩ (fun _ h => h.after_sweep) rounds

/-- Rounds stop only where a further one would change nothing, so they are as many as there is fuel. -/
theorem sweeps_eq_iterate {fuel : Nat} : sweeps size rule fuel known = (sweep size rule)^[fuel] known := by
  induction fuel generalizing known with
  | zero => rfl
  | succ fuel ih =>
    rw [sweeps, Function.iterate_succ_apply]
    rcases @sweepOver_cases rule (List.range size) known with ⟨heq, -⟩ | hlt
    · rw [← sweep_eq_sweepOver] at heq
      rw [heq, if_pos rfl, Function.iterate_fixed heq]
    · exact (if_neg (Nat.ne_of_gt hlt)).trans ih

/-- Until a round changes nothing, each adds a node. -/
theorem sweep_fixed_or_lt_length (rounds : Nat) :
    sweep size rule ((sweep size rule)^[rounds] []) = (sweep size rule)^[rounds] [] ∨
      rounds < ((sweep size rule)^[rounds + 1] []).length := by
  induction rounds with
  | zero => exact sweepOver_cases.imp_left And.left
  | succ rounds ih =>
    rcases ih with hfixed | hlong
    · refine Or.inl ?_
      rw [Function.iterate_succ_apply', hfixed, hfixed]
    · refine sweepOver_cases.imp And.left fun hlt => ?_
      rw [Function.iterate_succ_apply']
      exact lt_of_le_of_lt hlong hlt

/-- As many rounds as there are nodes are enough: one more changes nothing. -/
theorem sweep_iterate_fixed {rounds : Nat} (hrounds : size ≤ rounds) :
    sweep size rule ((sweep size rule)^[rounds] []) = (sweep size rule)^[rounds] [] := by
  refine (sweep_fixed_or_lt_length rounds).resolve_right fun hlong => ?_
  have hle : ((sweep size rule)^[rounds + 1] []).length ≤ size := (DistinctNodes.after_rounds (rounds + 1)).length_le
  exact absurd (lt_of_lt_of_le hlong hle) (Nat.not_lt_of_le hrounds)

/-- A set is saturated after as many rounds as there are nodes, and by all later ones. -/
theorem saturate_eq_iterate_of_le {rounds : Nat} (hrounds : size ≤ rounds) :
    saturate size rule = (sweep size rule)^[rounds] [] := by
  have hsize : ∀ rounds, size ≤ rounds → (sweep size rule)^[rounds] [] = (sweep size rule)^[size] [] := by
    intro rounds hrounds
    induction rounds, hrounds using Nat.le_induction with
    | base => rfl
    | succ rounds hle ih => rw [Function.iterate_succ_apply', sweep_iterate_fixed hle, ih]
  exact (sweeps_eq_iterate.trans (hsize _ (Nat.le_succ _))).trans (hsize rounds hrounds).symm

/-- **The rounds of saturation come to their end** with the fuel they are given. -/
theorem saturate_settled (size : Nat) (rule : (ExprId → Bool) → ExprId → Bool) {fuel : Nat} (hfuel : size < fuel) :
    sweeps size rule fuel [] = saturate size rule :=
  sweeps_eq_iterate.trans (saturate_eq_iterate_of_le hfuel.le).symm

/-- A saturated set is left as it is by a further round. -/
theorem sweep_saturate : sweep size rule (saturate size rule) = saturate size rule := by
  rw [saturate_eq_iterate_of_le (Nat.le_refl size)]
  exact sweep_iterate_fixed (Nat.le_refl size)

/-- **A saturated set is closed**: it holds every node that its rule admits, given the set. -/
theorem mem_saturate_of_rule {i : ExprId} (hi : i < size)
    (h : rule (saturate size rule).contains i = true) : i ∈ saturate size rule := by
  rcases @sweepOver_cases rule (List.range size) (saturate size rule) with ⟨-, hrule⟩ | hlt
  · exact hrule i (List.mem_range.mpr hi) h
  · rw [← sweep_eq_sweepOver, sweep_saturate] at hlt
    exact absurd hlt (Nat.lt_irrefl _)

end Saturation

/-! ## What the analyses find -/

variable {nodes : Array Node}

theorem lt_size_of_kindOf? {i : ExprId} {k : NodeKind} (h : kindOf? nodes i = some k) : i < nodes.size := by
  obtain ⟨n, hn, -⟩ := Option.map_eq_some_iff.mp h
  exact (Array.getElem?_eq_some_iff.mp hn).1

/-- A node whose expression may be empty, given the nodes that may be, may be empty. -/
theorem nullable_closed {i : ExprId} {k : NodeKind} (hk : kindOf? nodes i = some k)
    (h : k.isNullable (nullable nodes).contains = true) : (nullable nodes).contains i = true := by
  rw [List.contains_iff_mem]
  refine mem_saturate_of_rule (lt_size_of_kindOf? hk) ?_
  rw [hk]
  exact h

theorem takeThrough_subset {α : Type} (test : α → Bool) (as : List α) : takeThrough test as ⊆ as := by
  induction as with
  | nil => exact List.Subset.refl _
  | cons a as ih =>
    rw [takeThrough]
    split
    · exact List.cons_subset_cons a ih
    · simp

/-- A node attempts only children at its own starting position. -/
theorem NodeKind.leftCalls_subset (k : NodeKind) (known : ExprId → Bool) : k.leftCalls known ⊆ k.children := by
  cases k with
  | sequence cs => exact takeThrough_subset known cs
  | precededBy => exact List.nil_subset _
  | _ => exact List.Subset.refl _

/-- What a node may attempt at its own starting position, directly or through others. -/
def leftEdges (nodes : Array Node) (i : ExprId) : List ExprId :=
  edgesOf nodes (fun n => n.kind.leftCalls (nullable nodes).contains) i

/-- Where no forward is left-recursive, none is reached from its target through left calls. -/
theorem not_reaches_of_leftRecursive_nil (h : leftRecursive nodes = []) {i target : ExprId} {label : String}
    (hk : kindOf? nodes i = some (.forward label (some target))) :
    ¬ Relation.ReflTransGen (Follows (leftEdges nodes) nodes.size) target i := by
  intro hreach
  have hi := lt_size_of_kindOf? hk
  have hmem : i ∈ leftRecursive nodes := by
    refine List.mem_filter.mpr ⟨List.mem_range.mpr hi, ?_⟩
    unfold isLeftRecursive
    rw [hk]
    exact List.contains_iff_mem.mpr (mem_preorder.mpr ⟨hi, target, by simp, hreach⟩)
  rw [h] at hmem
  exact absurd hmem List.not_mem_nil

end Packrat
