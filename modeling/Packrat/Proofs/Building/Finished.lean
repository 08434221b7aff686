import Packrat.Grammar.Basic
import Packrat.Matching.Each
import Packrat.Proofs.Building.Calls
import Packrat.Proofs.Building.Ignoring

/-!
# `Packrat.Proofs.Building.Finished` — what building keeps of the nodes

Building checks the nodes and passes ignorables down. The expressions stay what they are; a node of the grammar
ignores what it ignored before, and what some node above it ignores.

## Contents

* `Inherits`, `inherits_passDown` — **what passing ignorables down changes**; `keepsIgnorables_passDown`;
* `Builder.Builds`, `builds_of_ok` — what is known of a grammar that was built;
* `Grammar.Ordered`, `Builder.Builds.ordered` — references of built grammars.
-/

namespace Packrat

/-! ## Passing ignorables down -/

section PassDown

variable {nodes out : Array Node}

/-- A node that is as another one was, but ignores more: what nodes above it ignored. -/
structure Inheritor (nodes : Array Node) (i : ExprId) (n n' : Node) : Prop where
  kind : n'.kind = n.kind
  ignores : ∀ j ∈ n'.ignores, j ∈ n.ignores ∨ ∃ s, j ∈ edgesOf nodes (·.ignores) s ∧ i ∈ beneath nodes s

/-- Nodes that are as other ones were, but ignore more. -/
structure Inherits (nodes out : Array Node) : Prop where
  size : out.size = nodes.size
  node : ∀ {i : ExprId} {n' : Node}, out[i]? = some n' → ∃ n, nodes[i]? = some n ∧ Inheritor nodes i n n'

/-- **What passing ignorables down changes**: a node ignores what it ignored, and what nodes above it ignored. -/
theorem inherits_passDown (nodes : Array Node) : Inherits nodes (passDown nodes) := by
  have hdown := handedDown_passDown nodes
  refine ⟨hdown.size, fun {i n'} hn' => ?_⟩
  obtain ⟨n, hn, htakes⟩ := hdown.exists_of_getElem? hn'
  refine ⟨n, hn, htakes.kind_eq, fun j hj => ?_⟩
  rcases (htakes.mem_ignores j).mp hj with hj | ⟨⟨s, m, hm, hj, hreach⟩, -⟩
  · exact Or.inl hj
  · have hi : i < nodes.size := (Array.getElem?_eq_some_iff.mp hn).1
    exact Or.inr ⟨s, mem_edgesOf.mpr ⟨m, hm, hj⟩, mem_beneath.mpr ⟨hi, hreach⟩⟩

/-- Nodes that ignore at least what other ones ignore. -/
def KeepsIgnorables (nodes out : Array Node) : Prop :=
  ∀ {i : ExprId} {n : Node}, nodes[i]? = some n → ∃ n', out[i]? = some n' ∧ n.ignores ⊆ n'.ignores

/-- Passing ignorables down takes none away. -/
theorem keepsIgnorables_passDown (nodes : Array Node) : KeepsIgnorables nodes (passDown nodes) := by
  intro i n hn
  obtain ⟨n', hn', htakes⟩ := (handedDown_passDown nodes).takes hn
  exact ⟨n', hn', fun j hj => (htakes.mem_ignores j).mpr (Or.inl hj)⟩

end PassDown

/-! ## Built grammars -/

/-- What is known of a grammar that was built. -/
structure Builder.Builds (b : Builder) (root : ExprId) (g : Grammar) : Prop where
  root_lt : root < b.size
  root_eq : g.root = root
  size : g.size = b.size
  known : ∀ {i : ExprId} {n : Node}, b.nodes[i]? = some n → ∀ j ∈ n.references, j < b.size
  bound : ∀ i ∈ walk b.nodes root, unboundLabel? b.nodes i = none
  rule : ∀ {i : ExprId} {n : Node}, (passDown b.nodes)[i]? = some n → (g.rule i).toNode = n
  leftRecursive : g.leftRecursive = Packrat.leftRecursive (passDown b.nodes)

theorem not_error_bind_eq_ok {α β : Type} {e : BuildError} {f : α → Except BuildError β} {x : β} :
    ¬ ((Except.error e >>= f) = Except.ok x) := fun h => Except.noConfusion rfl rfl (heq_of_eq h)

/-- A computation that gives a value gives one at each step. -/
theorem exists_of_bind_eq_ok {α β : Type} {m : Except BuildError α} {f : α → Except BuildError β} {x : β}
    (h : (m >>= f) = .ok x) : ∃ a, m = .ok a ∧ f a = .ok x := by
  cases m with
  | error e => exact absurd h not_error_bind_eq_ok
  | ok a => exact ⟨a, rfl, h⟩

/-- The rule of a finished node is the node. -/
theorem toNode_finish {nodes : Array Node} {names : Array String} {i : ExprId} {n : Node} (h : nodes[i]? = some n) :
    ((finish nodes names)[i]?.getD default).toNode = n := by
  unfold finish
  rw [Array.getElem?_mapIdx, h]
  rfl

theorem size_finish (nodes : Array Node) (names : Array String) : (finish nodes names).size = nodes.size := by
  unfold finish
  rw [Array.size_mapIdx]

/-- What is no error is a value. -/
theorem eq_ok_of_isOk {ε α : Type} [Inhabited α] {x : Except ε α} (h : x.isOk = true) :
    x = .ok (x.toOption.getD default) := by
  cases x with
  | error e => exact absurd h Bool.false_ne_true
  | ok a => rfl

/-- Building gives a grammar only after all checks. -/
theorem Builder.builds_of_ok {b : Builder} {root : ExprId} {g : Grammar} (h : b.build root = .ok g) :
    b.Builds root g := by
  unfold build at h
  by_cases hroot : b.size ≤ root
  · rw [if_pos hroot] at h
    exact absurd h not_error_bind_eq_ok
  · rw [if_neg hroot] at h
    obtain ⟨_, hreferences, h⟩ := exists_of_bind_eq_ok h
    obtain ⟨_, hforwards, h⟩ := exists_of_bind_eq_ok h
    obtain ⟨_, -, h⟩ := exists_of_bind_eq_ok h
    obtain ⟨names, -, h⟩ := exists_of_bind_eq_ok h
    obtain rfl := Except.ok.inj h
    refine ⟨Nat.lt_of_not_le hroot, rfl, ?_, ?_, ?_, fun hn => toNode_finish hn, rfl⟩
    · exact (size_finish _ _).trans (inherits_passDown b.nodes).size
    · intro i n hn j hj
      unfold checkReferences at hreferences
      split at hreferences
      · exact absurd hreferences (by simp)
      · next hnone =>
        have hmem : j ∈ b.nodes.toList.flatMap Node.references :=
          List.mem_flatMap.mpr ⟨n, Array.mem_toList_iff.mpr (Array.mem_of_getElem? hn), hj⟩
        have hlt := List.find?_eq_none.mp hnone j hmem
        exact Nat.lt_of_not_le fun hle => hlt (decide_eq_true hle)
    · unfold checkForwards at hforwards
      split at hforwards
      · exact absurd hforwards (by simp)
      · next hnone => exact List.findSome?_eq_none_iff.mp hnone

namespace Builder.Builds

variable {b : Builder} {root : ExprId} {g : Grammar} (h : b.Builds root g)
include h

/-- A node of the grammar was a node of the builder, and ignores what nodes above it ignored too. -/
theorem node {i : ExprId} (hi : i < g.size) : ∃ n, b.nodes[i]? = some n ∧ Inheritor b.nodes i n (g.rule i).toNode := by
  have hsize : i < (passDown b.nodes).size := by
    rw [(inherits_passDown b.nodes).size]
    exact lt_of_lt_of_eq hi h.size
  have hn' := Array.getElem?_eq_getElem hsize
  obtain ⟨n, hn, hinherits⟩ := (inherits_passDown b.nodes).node hn'
  rw [← h.rule hn'] at hinherits
  exact ⟨n, hn, hinherits⟩

/-- The nodes of the grammar are those of the builder with ignorables passed down. -/
theorem nodes_eq : g.nodes = passDown b.nodes := by
  have hsize : g.nodes.size = (passDown b.nodes).size := by
    rw [Grammar.nodes, Array.size_map, (inherits_passDown b.nodes).size]
    exact h.size
  refine Array.ext hsize fun i hi hi' => ?_
  have hrule : i < g.rules.size := by rwa [Grammar.nodes, Array.size_map] at hi
  have hnode := h.rule (Array.getElem?_eq_getElem hi')
  rw [Grammar.rule, Array.getElem?_eq_getElem hrule] at hnode
  simpa [Grammar.nodes] using hnode

/-- The expressions are those of the builder. -/
theorem kind_eq {i : ExprId} {k : NodeKind} (hk : kindOf? b.nodes i = some k) : (g.rule i).kind = k := by
  have hi : i < g.size := lt_of_lt_of_eq (lt_size_of_kindOf? hk) h.size.symm
  obtain ⟨n, hn, hinherits⟩ := h.node hi
  rw [kindOf?, hn] at hk
  exact hinherits.kind.trans (Option.some.inj hk)

/-- The ignorables of a node lead to nodes, and so do its children. -/
theorem references_lt {i j : ExprId} (hi : i < g.size) (hj : j ∈ (g.rule i).references) : j < g.size := by
  obtain ⟨n, hn, hinherits⟩ := h.node hi
  rw [h.size]
  rcases List.mem_append.mp hj with hj | hj
  · refine h.known hn j (List.mem_append_left _ ?_)
    rwa [Node.children, hinherits.kind] at hj
  · rcases hinherits.ignores j hj with hj | ⟨s, hs, -⟩
    · exact h.known hn j (List.mem_append_right _ hj)
    · cases hm : b.nodes[s]? with
      | none => simp [edgesOf, hm] at hs
      | some m => exact h.known hm j (List.mem_append_right _ (by simpa [edgesOf, hm] using hs))

/-- A grammar of nodes that ignore nothing ignores nothing. -/
theorem ignores_eq_nil (hignores : ∀ (i : ExprId) (n : Node), b.nodes[i]? = some n → n.ignores = []) {i : ExprId}
    (hi : i < g.size) : (g.rule i).ignores = [] := by
  obtain ⟨n, hn, hinherits⟩ := h.node hi
  rw [List.eq_nil_iff_forall_not_mem]
  intro j hj
  rcases hinherits.ignores j hj with hj | ⟨s, hs, -⟩
  · rw [hignores i n hn] at hj
    exact List.not_mem_nil hj
  · cases hm : b.nodes[s]? with
    | none => simp [edgesOf, hm] at hs
    | some m => simp [edgesOf, hm, hignores s m hm] at hs

end Builder.Builds

/-! ## References of built grammars -/

/-- A grammar whose references lead to nodes, and to earlier ones but for those of forwards. -/
structure Grammar.Ordered (g : Grammar) : Prop where
  root : g.root < g.size
  known : ∀ {i j : ExprId}, i < g.size → j ∈ (g.rule i).references → j < g.size
  backward : ∀ {i j : ExprId}, i < g.size → (∀ label target, (g.rule i).kind ≠ .forward label target) →
    j ∈ (g.rule i).kind.children → j < i
  spelled : ∀ {i : ExprId}, i < g.size → (g.rule i).kind.IsSpelled

namespace Grammar.Ordered

variable {g : Grammar} (h : g.Ordered) {i : ExprId}
include h

theorem child_lt (hi : i < g.size) {j : ExprId} (hj : j ∈ (g.rule i).kind.children) : j < g.size :=
  h.known hi (List.mem_append_left _ hj)

/-- What is tested for a child in any order is the child or a node before it. -/
theorem test_le (hi : i < g.size) : (EachItem.ofChild i (g.rule i).kind).test ≤ i := by
  refine (EachItem.ofChild_within (N := (· ≤ i)) (le_refl i) fun inner hinner => ?_).1
  refine (h.backward hi (fun label target hk => ?_) hinner.mem_children).le
  rw [hk] at hinner
  cases hinner

end Grammar.Ordered

/-- **Grammars that are built from nodes of their own builder are ordered.** -/
theorem Builder.Builds.ordered {b : Builder} {root : ExprId} {g : Grammar} (h : b.Builds root g) (hb : b.Orderly) :
    g.Ordered := by
  refine ⟨?_, fun hi hj => h.references_lt hi hj, ?_, ?_⟩
  · rw [h.root_eq, h.size]
    exact h.root_lt
  · intro i j hi hk hj
    obtain ⟨n, hn, hinherits⟩ := h.node hi
    rw [hinherits.kind] at hj hk
    exact hb.backward hn hk j hj
  · intro i hi
    obtain ⟨n, hn, hinherits⟩ := h.node hi
    rw [hinherits.kind]
    exact hb.spelled hn

end Packrat
