import Packrat.Grammar.Ignorables
import Packrat.Proofs.Analysis.Search

/-!
# `Packrat.Proofs.Building.Ignoring` — passing ignorables down

Ignorables are passed down from one node after the other, with a search of its own for each, while the lists they are
added to change. What is passed on are the ignorables that the nodes had at first, and the search follows children only,
so it does not matter in which order the nodes are gone through, nor whether an ignorable is beneath a node itself. Each
step of passing adds to a node exactly what it lacks of a set of ignorables (`Node.Takes`), and such steps compose to one
with the union of the sets. Since what is beneath something beneath a node is beneath the node, nothing is left to pass
down a second time.

## Contents

* `Node.Takes`, `HandedDown` — a node, and all nodes, with what they lack of some ignorables added;
* `handedDown_passTo`, `handedDown_passDown` — passing ignorables to some nodes, and down;
* `mem_beneath` — what is beneath a node is what can be reached through one child or more;
* `passDown_exact` — **what nodes ignore once ignorables are passed down**, and that this is final.
-/

namespace Packrat

variable {d : ExprId} {n n' n'' : Node} {S S' : ExprId → Prop}

/-! ## One node -/

/-- A node with ignorables added at the end: all of a set that it neither ignores already nor is. -/
def Node.Takes (d : ExprId) (S : ExprId → Prop) (n n' : Node) : Prop :=
  ∃ added, n' = { n with ignores := n.ignores ++ added } ∧ added.Nodup ∧ ∀ j, j ∈ added ↔ S j ∧ j ≠ d ∧ j ∉ n.ignores

namespace Node.Takes

theorem refl (d : ExprId) (n : Node) : n.Takes d (fun _ => False) n :=
  ⟨[], by simp, List.nodup_nil, by simp⟩

theorem congr (h : n.Takes d S n') (hS : ∀ j, S j ↔ S' j) : n.Takes d S' n' := by
  obtain rfl : S = S' := funext fun j => propext (hS j)
  exact h

/-- What is added in two steps is what either set has. -/
theorem trans (h : n.Takes d S n') (h' : n'.Takes d S' n'') : n.Takes d (fun j => S j ∨ S' j) n'' := by
  obtain ⟨added, rfl, hnodup, hmem⟩ := h
  obtain ⟨added', rfl, hnodup', hmem'⟩ := h'
  refine ⟨added ++ added', by rw [List.append_assoc], ?_, fun j => ?_⟩
  · refine List.nodup_append'.mpr ⟨hnodup, hnodup', fun j hj hj' => ?_⟩
    exact ((hmem' j).mp hj').2.2 (List.mem_append_right _ hj)
  · rw [List.mem_append, hmem, hmem', List.mem_append, hmem]
    tauto

/-- What a node ignores then. -/
theorem mem_ignores (h : n.Takes d S n') (j : ExprId) : j ∈ n'.ignores ↔ j ∈ n.ignores ∨ (S j ∧ j ≠ d) := by
  obtain ⟨added, rfl, -, hmem⟩ := h
  rw [List.mem_append, hmem]
  tauto

/-- Nothing of a node changes if it lacks nothing. -/
theorem eq_self (h : n.Takes d S n') (hS : ∀ j, S j → j ≠ d → j ∈ n.ignores) : n' = n := by
  obtain ⟨added, rfl, -, hmem⟩ := h
  have hnil : added = [] := by
    refine List.eq_nil_iff_forall_not_mem.mpr fun j hj => ?_
    obtain ⟨hj, hne, hnew⟩ := (hmem j).mp hj
    exact hnew (hS j hj hne)
  rw [hnil, List.append_nil]

/-- The expression stays what it is. -/
theorem kind_eq (h : n.Takes d S n') : n'.kind = n.kind := by
  obtain ⟨added, rfl, -, -⟩ := h
  rfl

theorem children_eq (h : n.Takes d S n') : n'.children = n.children := congrArg NodeKind.children h.kind_eq

end Node.Takes

theorem Node.takes_ignore (d k : ExprId) (n : Node) : n.Takes d (· = k) (n.ignore d k) := by
  unfold Node.ignore
  by_cases hold : (k == d || n.ignores.contains k) = true
  · rw [if_pos hold]
    rw [Bool.or_eq_true, beq_iff_eq, List.contains_iff_mem] at hold
    refine ⟨[], by simp, List.nodup_nil, fun j => ?_⟩
    simp only [List.not_mem_nil, false_iff]
    rintro ⟨rfl, hne, hnew⟩
    exact hold.elim hne hnew
  · rw [if_neg hold]
    rw [Bool.or_eq_true, beq_iff_eq, List.contains_iff_mem, not_or] at hold
    refine ⟨[k], rfl, List.nodup_singleton k, fun j => ?_⟩
    rw [List.mem_singleton]
    refine ⟨?_, fun h => h.1⟩
    rintro rfl
    exact ⟨rfl, hold⟩

/-- A list of ignorables is taken one after the other. -/
theorem Node.takes_ignoreAll (d : ExprId) (ks : List ExprId) (n : Node) :
    n.Takes d (· ∈ ks) (ks.foldl (fun n k => n.ignore d k) n) := by
  induction ks generalizing n with
  | nil => exact (Takes.refl d n).congr (by simp)
  | cons k ks ih => exact ((Node.takes_ignore d k n).trans (ih _)).congr fun j => List.mem_cons.symm

/-! ## All nodes -/

variable {nodes out out' : Array Node} {R R' : ExprId → ExprId → Prop}

/-- Nodes that each take what they lack of the ignorables handed to them. -/
structure HandedDown (R : ExprId → ExprId → Prop) (nodes out : Array Node) : Prop where
  size : out.size = nodes.size
  takes : ∀ {i : ExprId} {n : Node}, nodes[i]? = some n → ∃ n', out[i]? = some n' ∧ n.Takes i (R i) n'

namespace HandedDown

theorem refl (nodes : Array Node) : HandedDown (fun _ _ => False) nodes nodes :=
  ⟨rfl, fun {i n} hn => ⟨n, hn, .refl i n⟩⟩

theorem congr (h : HandedDown R nodes out) (hR : ∀ i j, R i j ↔ R' i j) : HandedDown R' nodes out := by
  obtain rfl : R = R' := funext fun i => funext fun j => propext (hR i j)
  exact h

theorem trans (h : HandedDown R nodes out) (h' : HandedDown R' out out') :
    HandedDown (fun i j => R i j ∨ R' i j) nodes out' := by
  refine ⟨h'.size.trans h.size, fun hn => ?_⟩
  obtain ⟨n', hn', htakes⟩ := h.takes hn
  obtain ⟨n'', hn'', htakes'⟩ := h'.takes hn'
  exact ⟨n'', hn'', htakes.trans htakes'⟩

/-- A node is as it was, but for what was added to its ignorables. -/
theorem exists_of_getElem? (h : HandedDown R nodes out) {i : ExprId} {n' : Node} (hn' : out[i]? = some n') :
    ∃ n, nodes[i]? = some n ∧ n.Takes i (R i) n' := by
  obtain ⟨hi, -⟩ := Array.getElem?_eq_some_iff.mp hn'
  obtain ⟨n, hn⟩ : ∃ n, nodes[i]? = some n := ⟨_, Array.getElem?_eq_getElem (h.size ▸ hi)⟩
  obtain ⟨m, hm, htakes⟩ := h.takes hn
  obtain rfl : n' = m := Option.some.inj (hn'.symm.trans hm)
  exact ⟨n, hn, htakes⟩

/-- Nothing changes if no node lacks anything. -/
theorem eq_self (h : HandedDown R nodes out)
    (hR : ∀ {i : ExprId} {n : Node}, nodes[i]? = some n → ∀ j, R i j → j ≠ i → j ∈ n.ignores) : out = nodes := by
  refine Array.ext_getElem? fun i => ?_
  cases hn' : out[i]? with
  | none => exact (Array.getElem?_eq_none_iff.mpr (h.size ▸ Array.getElem?_eq_none_iff.mp hn')).symm
  | some n' =>
    obtain ⟨n, hn, htakes⟩ := h.exists_of_getElem? hn'
    rw [hn, htakes.eq_self (hR hn)]

end HandedDown

/-- The nodes of a list take ignorables, one node after the other. -/
theorem handedDown_passTo (ignorables targets : List ExprId) (nodes : Array Node) :
    HandedDown (fun i j => i ∈ targets ∧ j ∈ ignorables) nodes (passTo ignorables targets nodes) := by
  unfold passTo
  induction targets generalizing nodes with
  | nil => exact (HandedDown.refl nodes).congr (by simp)
  | cons k targets ih =>
    have hone : HandedDown (fun i j => i = k ∧ j ∈ ignorables) nodes
        (nodes.modify k fun n => ignorables.foldl (fun n j => n.ignore k j) n) := by
      refine ⟨Array.size_modify, fun {i n} hn => ?_⟩
      rw [Array.getElem?_modify, hn]
      by_cases hk : k = i
      · subst hk
        rw [if_pos rfl]
        exact ⟨_, rfl, (Node.takes_ignoreAll k ignorables n).congr (by simp)⟩
      · rw [if_neg hk]
        exact ⟨n, rfl, (Node.Takes.refl i n).congr fun j => iff_of_false not_false fun h => hk h.1.symm⟩
    exact (hone.trans (ih _)).congr fun i j => by rw [List.mem_cons, or_and_right]

/-! ## What is beneath a node -/

/-- A node and a child of it. -/
def HasChild (nodes : Array Node) (i j : ExprId) : Prop := ∃ n, nodes[i]? = some n ∧ j ∈ n.children

theorem mem_edgesOf {view : Node → List ExprId} {i j : ExprId} :
    j ∈ edgesOf nodes view i ↔ ∃ n, nodes[i]? = some n ∧ j ∈ view n := by
  unfold edgesOf
  cases nodes[i]? <;> simp

theorem follows_children {i j : ExprId} : Follows (edgesOf nodes Node.children) nodes.size i j ↔ HasChild nodes i j := by
  unfold Follows
  rw [mem_edgesOf]
  exact and_iff_right_of_imp fun ⟨n, hn, _⟩ => (Array.getElem?_eq_some_iff.mp hn).1

/-- What is beneath a node is what can be reached from it through one child or more. -/
theorem mem_beneath {s i : ExprId} : i ∈ beneath nodes s ↔ i < nodes.size ∧ Relation.TransGen (HasChild nodes) s i := by
  have hfollows : Follows (edgesOf nodes Node.children) nodes.size = HasChild nodes :=
    funext fun i => funext fun j => propext follows_children
  rw [beneath, mem_preorder, hfollows, Relation.TransGen.head'_iff]
  simp only [mem_edgesOf, HasChild]

/-! ## Passing ignorables down -/

/-- Ignorables are handed to a node by the nodes that it is beneath. -/
def HandsDown (nodes : Array Node) (i j : ExprId) : Prop :=
  ∃ s m, nodes[s]? = some m ∧ j ∈ m.ignores ∧ Relation.TransGen (HasChild nodes) s i

/-- The ignorables of the first nodes are passed down by the first rounds. -/
theorem handedDown_rounds (nodes : Array Node) (k : Nat) :
    HandedDown (fun i j => ∃ s < k, j ∈ edgesOf nodes (·.ignores) s ∧ i ∈ beneath nodes s) nodes
      ((List.range k).foldl (fun out i =>
        match edgesOf nodes (·.ignores) i with
        | [] => out
        | ignorables => passTo ignorables (beneath nodes i) out) nodes) := by
  induction k with
  | zero => exact (HandedDown.refl nodes).congr (by simp)
  | succ k ih =>
    rw [List.range_succ, List.foldl_append, List.foldl_cons, List.foldl_nil]
    have hround : ∀ out, HandedDown (fun i j => i ∈ beneath nodes k ∧ j ∈ edgesOf nodes (·.ignores) k) out
        (match edgesOf nodes (·.ignores) k with
        | [] => out
        | ignorables => passTo ignorables (beneath nodes k) out) := by
      intro out
      split
      next hnil => exact (HandedDown.refl out).congr (by simp [hnil])
      next => exact handedDown_passTo _ _ out
    refine (ih.trans (hround _)).congr fun i j => ?_
    constructor
    · rintro (⟨s, hs, hj, hi⟩ | ⟨hi, hj⟩)
      · exact ⟨s, Nat.lt_succ_of_lt hs, hj, hi⟩
      · exact ⟨k, Nat.lt_succ_self k, hj, hi⟩
    · rintro ⟨s, hs, hj, hi⟩
      rcases Nat.lt_succ_iff_lt_or_eq.mp hs with hs | rfl
      · exact Or.inl ⟨s, hs, hj, hi⟩
      · exact Or.inr ⟨hi, hj⟩

/-- Passing ignorables down hands each node those of all nodes that it is beneath. -/
theorem handedDown_passDown (nodes : Array Node) : HandedDown (HandsDown nodes) nodes (passDown nodes) := by
  have hrounds := handedDown_rounds nodes nodes.size
  refine ⟨hrounds.size, fun {i n} hn => ?_⟩
  obtain ⟨n', hn', htakes⟩ := hrounds.takes hn
  refine ⟨n', hn', htakes.congr fun j => ?_⟩
  have hi : i < nodes.size := (Array.getElem?_eq_some_iff.mp hn).1
  constructor
  · rintro ⟨s, -, hj, hbeneath⟩
    obtain ⟨m, hm, hj⟩ := mem_edgesOf.mp hj
    exact ⟨s, m, hm, hj, (mem_beneath.mp hbeneath).2⟩
  · rintro ⟨s, m, hm, hj, hreach⟩
    exact ⟨s, (Array.getElem?_eq_some_iff.mp hm).1, mem_edgesOf.mpr ⟨m, hm, hj⟩, mem_beneath.mpr ⟨hi, hreach⟩⟩

/-- Children stay what they are. -/
theorem HandedDown.hasChild_eq (h : HandedDown R nodes out) : HasChild out = HasChild nodes := by
  funext i j
  refine propext ⟨?_, ?_⟩
  · rintro ⟨n', hn', hj⟩
    obtain ⟨n, hn, htakes⟩ := h.exists_of_getElem? hn'
    exact ⟨n, hn, htakes.children_eq ▸ hj⟩
  · rintro ⟨n, hn, hj⟩
    obtain ⟨n', hn', htakes⟩ := h.takes hn
    exact ⟨n', hn', htakes.children_eq ▸ hj⟩

/-- What is handed to a node once ignorables are passed down was handed to it before. -/
theorem handsDown_passDown {i j : ExprId} (h : HandsDown (passDown nodes) i j) : HandsDown nodes i j := by
  have hdown := handedDown_passDown nodes
  obtain ⟨s, m', hm', hj, hreach⟩ := h
  rw [hdown.hasChild_eq] at hreach
  obtain ⟨m, hm, htakes⟩ := hdown.exists_of_getElem? hm'
  rcases (htakes.mem_ignores j).mp hj with hj | ⟨⟨s', m₀, hm₀, hj, hreach'⟩, -⟩
  · exact ⟨s, m, hm, hj, hreach⟩
  · exact ⟨s', m₀, hm₀, hj, hreach'.trans hreach⟩

theorem passDown_idempotent (nodes : Array Node) : passDown (passDown nodes) = passDown nodes := by
  refine (handedDown_passDown (passDown nodes)).eq_self fun {i n'} hn' j hj hne => ?_
  obtain ⟨n, hn, htakes⟩ := (handedDown_passDown nodes).exists_of_getElem? hn'
  exact (htakes.mem_ignores j).mpr (Or.inr ⟨handsDown_passDown hj, hne⟩)

/-- **What nodes ignore once ignorables are passed down.** A node ignores first what it ignored before and then, each
once, all else that some node above it ignored before, but not itself; nothing else of it changes. Passing ignorables
down once more changes nothing at all. -/
theorem passDown_exact {nodes : Array Node} (hnodup : ∀ n ∈ nodes, n.ignores.Nodup) :
    (passDown nodes).size = nodes.size ∧
    (∀ i n, nodes[i]? = some n →
      ∃ added, (passDown nodes)[i]? = some { n with ignores := n.ignores ++ added } ∧ (n.ignores ++ added).Nodup ∧
        ∀ j, j ∈ n.ignores ++ added ↔ j ∈ n.ignores ∨ (j ≠ i ∧
          ∃ s m, nodes[s]? = some m ∧ j ∈ m.ignores ∧ Relation.TransGen (HasChild nodes) s i)) ∧
    passDown (passDown nodes) = passDown nodes := by
  have hdown := handedDown_passDown nodes
  refine ⟨hdown.size, fun i n hn => ?_, passDown_idempotent nodes⟩
  obtain ⟨n', hn', htakes⟩ := hdown.takes hn
  have hmem := htakes.mem_ignores
  obtain ⟨added, rfl, hadded, hnew⟩ := htakes
  refine ⟨added, hn', ?_, fun j => (hmem j).trans (or_congr_right and_comm)⟩
  refine List.nodup_append'.mpr ⟨hnodup n (Array.mem_of_getElem? hn), hadded, fun j hj hj' => ?_⟩
  exact ((hnew j).mp hj').2.2 hj

/-- A sequence that is beneath itself through a forward, and a literal beneath both the sequence and what it ignores. -/
def sharedCycle : Array Node :=
  #[{ kind := .sequence [1, 2], whitespace := .whitespace, ignores := [3] },
    { kind := .forward "again" (some 0), whitespace := .whitespace },
    { kind := .literal "a" false, whitespace := .whitespace, ignores := [1] },
    { kind := .orderedChoice [2], whitespace := .whitespace, ignores := [2] }]

/-- The sequence is beneath itself and takes nothing more; the literal, which it shares with its ignorable, takes that. -/
theorem passDown_exact_sharedCycle :
    (∀ n ∈ sharedCycle, n.ignores.Nodup) ∧
    (passDown sharedCycle).size = sharedCycle.size ∧
    (∀ i n, sharedCycle[i]? = some n →
      ∃ added, (passDown sharedCycle)[i]? = some { n with ignores := n.ignores ++ added } ∧
        (n.ignores ++ added).Nodup ∧
        ∀ j, j ∈ n.ignores ++ added ↔ j ∈ n.ignores ∨ (j ≠ i ∧
          ∃ s m, sharedCycle[s]? = some m ∧ j ∈ m.ignores ∧ Relation.TransGen (HasChild sharedCycle) s i)) ∧
    passDown (passDown sharedCycle) = passDown sharedCycle := by
  have hnodup : ∀ n ∈ sharedCycle, n.ignores.Nodup := by
    intro n hn
    simp only [sharedCycle, List.mem_toArray, List.mem_cons, List.not_mem_nil, or_false] at hn
    rcases hn with rfl | rfl | rfl | rfl <;> simp
  exact ⟨hnodup, passDown_exact hnodup⟩

example : (passDown sharedCycle).toList.map (·.ignores) = [[3], [3], [1, 3], [2]] := by decide +kernel

end Packrat
