import Packrat.Proofs.Analysis.Search

/-!
# `Packrat.Proofs.Analysis.Preorder` — the search with a stack is the recursive one

`follow` keeps what is to be looked at in a list, in which a node may stand more than once and may have been found in
the meantime. Depth-first search is usually told by recursion: a node, then all there is below the first of its
edges, then what is left below the second. The two agree, since whatever is pending is visited in turn.

## Contents

* `visit`, `descend` — the search by recursion, to a depth, and to a depth that is enough;
* `descend_eq` — **the recursion has no bound**: no path of new nodes is longer than there are nodes;
* `eq_descend` — **the recursion determines the search**;
* `follow_eq_foldl` — **a search with a stack visits what is pending**, one after the other;
* `walk_recursive` — **a walk is the recursive preorder** over children and then ignorables.
-/

namespace Packrat

variable {next : ExprId → List ExprId} {size depth : Nat} {found : List ExprId} {i j : ExprId}

/-! ## Search by recursion -/

/-- Depth-first search by recursion, to a depth: a node that is there and not found yet is found, and then what its
edges lead to is visited in turn. -/
def visit (next : ExprId → List ExprId) (size : Nat) : (depth : Nat) → (found : List ExprId) → ExprId → List ExprId
  | 0, found, _ => found
  | depth + 1, found, i =>
    if size ≤ i || found.contains i then found
    else (next i).foldl (visit next size depth) (found ++ [i])

/-- Depth-first search by recursion, as deep as there are nodes. -/
def descend (next : ExprId → List ExprId) (size : Nat) : (found : List ExprId) → ExprId → List ExprId :=
  visit next size (size + 1)

/-- A node is new if it is there and not found yet. -/
theorem new_iff : ¬ (decide (size ≤ i) || found.contains i) = true ↔ i < size ∧ i ∉ found := by
  simp

theorem subset_foldl {f : List ExprId → ExprId → List ExprId} (hf : ∀ found i, found ⊆ f found i)
    (is found : List ExprId) : found ⊆ is.foldl f found := by
  induction is generalizing found with
  | nil => exact List.Subset.refl found
  | cons i is ih => exact List.Subset.trans (hf found i) (ih (f found i))

/-- A visit keeps what is found. -/
theorem subset_visit (next : ExprId → List ExprId) (size depth : Nat) (found : List ExprId) (i : ExprId) :
    found ⊆ visit next size depth found i := by
  induction depth generalizing found i with
  | zero => exact List.Subset.refl found
  | succ depth ih =>
    rw [visit]
    split
    · exact List.Subset.refl found
    · exact List.Subset.trans (List.subset_append_left found [i]) (subset_foldl ih _ _)

/-- A visit finds no node twice. -/
theorem nodup_visit (hn : found.Nodup) : (visit next size depth found i).Nodup := by
  induction depth generalizing found i with
  | zero => exact hn
  | succ depth ih =>
    rw [visit]
    split
    · exact hn
    · next hnew =>
      have hstart : (found ++ [i]).Nodup :=
        List.nodup_append'.mpr ⟨hn, List.nodup_singleton i, by simpa using (new_iff.mp hnew).2⟩
      generalize found ++ [i] = known at hstart
      induction next i generalizing known with
      | nil => exact hstart
      | cons j js ihjs => exact ihjs (visit next size depth known j) (ih hstart)

/-! ## The depth is enough -/

/-- How many nodes are not found yet. -/
def unfound (size : Nat) (found : List ExprId) : Nat := ((Finset.range size).filter (· ∉ found)).card

theorem unfound_le {found' : List ExprId} (h : found ⊆ found') : unfound size found' ≤ unfound size found := by
  apply Finset.card_le_card
  intro i hi
  rw [Finset.mem_filter] at hi ⊢
  exact ⟨hi.1, fun hmem => hi.2 (h hmem)⟩

theorem unfound_append_lt (hi : i < size) (hnew : i ∉ found) : unfound size (found ++ [i]) < unfound size found := by
  apply Finset.card_lt_card
  refine ⟨fun j hj => ?_, fun hsub => ?_⟩
  · rw [Finset.mem_filter] at hj ⊢
    exact ⟨hj.1, fun hmem => hj.2 (List.mem_append_left _ hmem)⟩
  · have hmem : i ∈ (Finset.range size).filter (· ∉ found ++ [i]) :=
      hsub (Finset.mem_filter.mpr ⟨Finset.mem_range.mpr hi, hnew⟩)
    exact (Finset.mem_filter.mp hmem).2 (by simp)

theorem unfound_le_size (size : Nat) (found : List ExprId) : unfound size found ≤ size := by
  have hcard := Finset.card_filter_le (Finset.range size) (· ∉ found)
  rwa [Finset.card_range] at hcard

/-- Searches that agree while less is left to be found agree in turn, as long as they only find more. -/
theorem foldl_congr_of_unfound {f g : List ExprId → ExprId → List ExprId} (hg : ∀ found i, found ⊆ g found i)
    (h : ∀ found i, unfound size found < depth → f found i = g found i) (is : List ExprId)
    (hleft : unfound size found < depth) : is.foldl f found = is.foldl g found := by
  induction is generalizing found with
  | nil => rfl
  | cons i is ih =>
    rw [List.foldl_cons, List.foldl_cons, h found i hleft]
    exact ih (lt_of_le_of_lt (unfound_le (hg found i)) hleft)

/-- As deep as there are nodes left, a visit has come to its end: more depth changes nothing. -/
theorem visit_settled (found : List ExprId) (i : ExprId) (hleft : unfound size found < depth) :
    visit next size (depth + 1) found i = visit next size depth found i := by
  induction depth generalizing found i with
  | zero => exact absurd hleft (Nat.not_lt_zero _)
  | succ depth ih =>
    rw [visit]
    conv_rhs => rw [visit]
    by_cases hold : (decide (size ≤ i) || found.contains i) = true
    · rw [if_pos hold, if_pos hold]
    · rw [if_neg hold, if_neg hold]
      obtain ⟨hi, hnew⟩ := new_iff.mp hold
      refine foldl_congr_of_unfound (subset_visit next size depth) ih _ ?_
      exact lt_of_lt_of_le (unfound_append_lt hi hnew) (Nat.le_of_lt_succ hleft)

/-- **The recursion has no bound**: what the edges of a node lead to is visited as the node itself is. -/
theorem descend_eq (next : ExprId → List ExprId) (size : Nat) (found : List ExprId) (i : ExprId) :
    descend next size found i =
      if size ≤ i || found.contains i then found else (next i).foldl (descend next size) (found ++ [i]) := by
  unfold descend
  conv_lhs => rw [visit]
  by_cases hold : (decide (size ≤ i) || found.contains i) = true
  · rw [if_pos hold, if_pos hold]
  · rw [if_neg hold, if_neg hold]
    obtain ⟨hi, hnew⟩ := new_iff.mp hold
    have hleft : unfound size (found ++ [i]) < size :=
      lt_of_lt_of_le (unfound_append_lt hi hnew) (unfound_le_size size found)
    exact (foldl_congr_of_unfound (subset_visit next size size) visit_settled _ hleft).symm

/-- The recursion determines the search: each call is for fewer nodes that are left. -/
theorem eq_descend {search : List ExprId → ExprId → List ExprId}
    (h : ∀ found i, search found i =
      if size ≤ i || found.contains i then found else (next i).foldl search (found ++ [i])) :
    search = descend next size := by
  have hsame (n : Nat) : ∀ found i, unfound size found < n → search found i = descend next size found i := by
    induction n with
    | zero => exact fun _ _ hleft => absurd hleft (Nat.not_lt_zero _)
    | succ n ih =>
      intro found i hleft
      rw [h, descend_eq]
      by_cases hold : (decide (size ≤ i) || found.contains i) = true
      · rw [if_pos hold, if_pos hold]
      · rw [if_neg hold, if_neg hold]
        obtain ⟨hi, hnew⟩ := new_iff.mp hold
        refine foldl_congr_of_unfound (subset_visit next size (size + 1)) ih _ ?_
        exact lt_of_lt_of_le (unfound_append_lt hi hnew) (Nat.le_of_lt_succ hleft)
  funext found i
  exact hsame _ found i (Nat.lt_succ_self _)

/-! ## The stack -/

/-- **A search with a stack visits what is pending**, one after the other. A node whose edges come on top of the
stack is visited up to the point where they are used up. -/
theorem follow_eq_foldl {fuel : Nat} {pending : List ExprId}
    (hfuel : pending.length + edgesLeft next size found < fuel) :
    (follow next size fuel pending found).reverse = pending.foldl (descend next size) found.reverse := by
  induction fuel generalizing pending found with
  | zero => omega
  | succ fuel ih =>
    cases pending with
    | nil => rfl
    | cons i pending =>
      have hsame : found.reverse.contains i = found.contains i := by simp
      rw [follow, List.foldl_cons, descend_eq, hsame]
      by_cases hold : (decide (size ≤ i) || found.contains i) = true
      · rw [if_pos hold, if_pos hold]
        exact ih (by simp only [List.length_cons] at hfuel; omega)
      · rw [if_neg hold, if_neg hold]
        obtain ⟨hi, hnew⟩ := new_iff.mp hold
        have hleft := edgesLeft_cons next hi hnew
        rw [ih (by simp only [List.length_cons, List.length_append] at hfuel ⊢; omega), List.foldl_append,
          List.reverse_cons]

/-- A search visits what it starts from. -/
theorem preorder_eq_foldl (next : ExprId → List ExprId) (size : Nat) (starts : List ExprId) :
    preorder next size starts = starts.foldl (descend next size) [] := by
  unfold preorder
  apply follow_eq_foldl
  rw [edgesLeft_nil]
  exact Nat.lt_succ_self _

/-! ## Walks -/

/-- A node refers to its children and to its ignorables. -/
def Refers (nodes : Array Node) (i j : ExprId) : Prop :=
  ∃ n, nodes[i]? = some n ∧ (j ∈ n.kind.children ∨ j ∈ n.ignores)

theorem follows_references_iff {nodes : Array Node} :
    Follows (edgesOf nodes Node.references) nodes.size i j ↔ Refers nodes i j := by
  unfold Follows Refers edgesOf
  constructor
  · rintro ⟨hi, hj⟩
    rw [Array.getElem?_eq_getElem hi] at hj ⊢
    exact ⟨nodes[i], rfl, List.mem_append.mp hj⟩
  · rintro ⟨n, hn, hj⟩
    refine ⟨(Array.getElem?_eq_some_iff.mp hn).1, ?_⟩
    rw [hn]
    exact List.mem_append.mpr hj

/-- Search by recursion in an arena: a node that is there and not found yet, then what is below its children, then what
is below its ignorables, each in the order in which the node has them. -/
def Recursive (nodes : Array Node) (search : List ExprId → ExprId → List ExprId) : Prop :=
  ∀ found i, search found i =
    match nodes[i]? with
    | none => found
    | some n =>
      if found.contains i then found
      else n.ignores.foldl search (n.kind.children.foldl search (found ++ [i]))

theorem recursive_iff {nodes : Array Node} {search : List ExprId → ExprId → List ExprId} :
    Recursive nodes search ↔ ∀ found i, search found i =
      if nodes.size ≤ i || found.contains i then found
      else (edgesOf nodes Node.references i).foldl search (found ++ [i]) := by
  unfold Recursive
  refine forall_congr' fun found => forall_congr' fun i => ?_
  by_cases hi : i < nodes.size
  · have hin : decide (nodes.size ≤ i) = false := decide_eq_false (Nat.not_le_of_lt hi)
    have hedges : edgesOf nodes Node.references i = nodes[i].kind.children ++ nodes[i].ignores := by
      rw [edgesOf, Array.getElem?_eq_getElem hi]
      rfl
    rw [Array.getElem?_eq_getElem hi, hin, Bool.false_or, hedges, List.foldl_append]
  · rw [Array.getElem?_eq_none (Nat.le_of_not_lt hi), decide_eq_true (Nat.le_of_not_lt hi), Bool.true_or, if_pos rfl]

/-- **A walk is the recursive preorder** over children and then ignorables. In any arena there is one search by
recursion; a walk gives the nodes it finds in the order in which it finds them, no node twice, and these are all that
the start leads to. -/
theorem walk_recursive (nodes : Array Node) (start : ExprId) :
    (∃ search, (∀ other, Recursive nodes other ↔ other = search) ∧ walk nodes start = search [] start) ∧
      (walk nodes start).Nodup ∧
      ∀ i, i ∈ walk nodes start ↔ i < nodes.size ∧ Relation.ReflTransGen (Refers nodes) start i := by
  have hwalk : walk nodes start = descend (edgesOf nodes Node.references) nodes.size [] start :=
    preorder_eq_foldl _ _ _
  refine ⟨⟨descend (edgesOf nodes Node.references) nodes.size, ?_, hwalk⟩, ?_, ?_⟩
  · intro other
    rw [recursive_iff]
    constructor
    · exact eq_descend
    · rintro rfl
      exact descend_eq _ _
  · rw [hwalk]
    exact nodup_visit List.nodup_nil
  · intro i
    have hedge : Follows (edgesOf nodes Node.references) nodes.size = Refers nodes := by
      funext a b
      exact propext follows_references_iff
    rw [walk, mem_preorder, hedge]
    simp

end Packrat
