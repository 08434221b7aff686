import Packrat.Proofs.Building.Finished

/-!
# `Packrat.Proofs.Analysis.Cycles` — nodes that do not come back to their own place

At its own place a node attempts its left calls and, when it skips, its ignorables. The search for left-recursive
forwards follows the left calls only. Where no ignorable leads back to a node that has it, the two together have no
cycle either, so what a node can come to at its own place gets less with every attempt.

## Contents

* `placeEdges`, `Node.attemptsBack` — what a node may attempt at its place, and further back in the text;
* `not_transGen_placeEdges` — **no node comes back to its own place** where no forward is left-recursive and no
  ignorable leads back;
* `below`, `strictlyBelow` — how much a node can come to, at its place and at all.
-/

namespace Packrat

/-! ## Cycles -/

/-- What a node may attempt at its own place: its left calls and its ignorables. -/
def placeEdges (nodes : Array Node) (i : ExprId) : List ExprId :=
  edgesOf nodes (fun n => n.kind.leftCalls (nullable nodes).contains ++ n.ignores) i

/-- What a node may attempt further back than its own place: what it looks for behind it, and what it skips from the
start of the text. -/
def Node.attemptsBack (n : Node) : List ExprId :=
  match n.kind with
  | .precededBy child _ => [child]
  | .stringStart => n.ignores
  | _ => []

section Cycles

variable {nodes : Array Node} {i j k : ExprId}

theorem edgesOf_of_getElem? {n : Node} (h : nodes[i]? = some n) (view : Node → List ExprId) :
    edgesOf nodes view i = view n := by
  rw [edgesOf, h]
  rfl

/-- What is attempted at the own place of a node is a left call or an ignorable. -/
theorem mem_placeEdges : j ∈ placeEdges nodes i ↔ j ∈ leftEdges nodes i ∨ j ∈ edgesOf nodes (·.ignores) i := by
  unfold placeEdges leftEdges
  cases h : nodes[i]? with
  | none => simp [edgesOf, h]
  | some n =>
    rw [edgesOf_of_getElem? h, edgesOf_of_getElem? h, edgesOf_of_getElem? h]
    exact List.mem_append

/-- A path along left calls goes backwards, or through a forward to its target. -/
theorem lt_or_forward_of_left
    (hback : ∀ {i k}, kindOf? nodes i = some k → (∀ label target, k ≠ .forward label target) →
      ∀ j ∈ k.children, j < i)
    (h : Relation.TransGen (Follows (leftEdges nodes) nodes.size) i j) :
    j < i ∨ ∃ f label target, kindOf? nodes f = some (.forward label (some target)) ∧
      Relation.ReflTransGen (Follows (leftEdges nodes) nodes.size) i f ∧
      Relation.ReflTransGen (Follows (leftEdges nodes) nodes.size) target j := by
  -- one call goes backwards, or is that of a forward
  have hstep {a c : ExprId} (hcall : Follows (leftEdges nodes) nodes.size a c) :
      c < a ∨ ∃ label, kindOf? nodes a = some (.forward label (some c)) := by
    obtain ⟨ha, hc⟩ := hcall
    obtain ⟨n, hn⟩ : ∃ n, nodes[a]? = some n := ⟨nodes[a], Array.getElem?_eq_getElem ha⟩
    rw [leftEdges, edgesOf_of_getElem? hn] at hc
    have hkind : kindOf? nodes a = some n.kind := by rw [kindOf?, hn]; rfl
    have hchild : c ∈ n.kind.children := NodeKind.leftCalls_subset _ _ hc
    by_cases hforward : ∃ label target, n.kind = .forward label target
    · obtain ⟨label, target, hk⟩ := hforward
      rw [hk] at hkind hchild
      obtain rfl : target = some c := by simpa [NodeKind.children] using hchild
      exact Or.inr ⟨label, hkind⟩
    · refine Or.inl (hback hkind ?_ c hchild)
      intro label target hk
      exact hforward ⟨label, target, hk⟩
  induction h with
  | single hcall =>
    rcases hstep hcall with hlt | ⟨label, hk⟩
    · exact Or.inl hlt
    · exact Or.inr ⟨_, label, _, hk, Relation.ReflTransGen.refl, Relation.ReflTransGen.refl⟩
  | tail hpath hcall ih =>
    rcases ih with hlt | ⟨f, label, target, hk, hto, hfrom⟩
    · rcases hstep hcall with hlt' | ⟨label, hk⟩
      · exact Or.inl (hlt'.trans hlt)
      · exact Or.inr ⟨_, label, _, hk, hpath.to_reflTransGen, Relation.ReflTransGen.refl⟩
    · exact Or.inr ⟨f, label, target, hk, hto, hfrom.tail hcall⟩

/-- Where no ignorable leads back to a node that has it, a cycle goes along left calls only. -/
theorem left_of_cycle
    (hignores : ∀ {a c}, a < nodes.size → c ∈ edgesOf nodes (·.ignores) a →
      ¬ Relation.ReflTransGen (Follows (placeEdges nodes) nodes.size) c a)
    (h : Relation.TransGen (Follows (placeEdges nodes) nodes.size) i i) :
    Relation.TransGen (Follows (leftEdges nodes) nodes.size) i i := by
  have hstep {a c : ExprId} (hcall : Follows (placeEdges nodes) nodes.size a c)
      (hcycle : Relation.ReflTransGen (Follows (placeEdges nodes) nodes.size) c a) :
      Follows (leftEdges nodes) nodes.size a c := by
    refine ⟨hcall.1, (mem_placeEdges.mp hcall.2).resolve_right fun hc => ?_⟩
    exact hignores hcall.1 hc hcycle
  -- every edge of a path that is part of a cycle is part of that cycle
  have hpath {c : ExprId} (hto : Relation.TransGen (Follows (placeEdges nodes) nodes.size) i c)
      (hfrom : Relation.ReflTransGen (Follows (placeEdges nodes) nodes.size) c i) :
      Relation.TransGen (Follows (leftEdges nodes) nodes.size) i c := by
    induction hto with
    | single hcall => exact Relation.TransGen.single (hstep hcall hfrom)
    | tail hto hcall ih =>
      have hcycle := hfrom.trans hto.to_reflTransGen
      exact (ih (hfrom.head hcall)).tail (hstep hcall hcycle)
  exact hpath h Relation.ReflTransGen.refl

/-- **No node comes back to its own place** where no forward is left-recursive and no ignorable leads back to a node
that has it. -/
theorem not_transGen_placeEdges
    (hback : ∀ {i k}, kindOf? nodes i = some k → (∀ label target, k ≠ .forward label target) →
      ∀ j ∈ k.children, j < i)
    (hleft : leftRecursive nodes = [])
    (hignores : ∀ {a c}, a < nodes.size → c ∈ edgesOf nodes (·.ignores) a →
      ¬ Relation.ReflTransGen (Follows (placeEdges nodes) nodes.size) c a) (i : ExprId) :
    ¬ Relation.TransGen (Follows (placeEdges nodes) nodes.size) i i := by
  intro h
  rcases lt_or_forward_of_left hback (left_of_cycle hignores h) with hlt | ⟨f, label, target, hk, hto, hfrom⟩
  · exact Nat.lt_irrefl i hlt
  · exact not_reaches_of_leftRecursive_nil hleft hk (hfrom.trans hto)

end Cycles

/-! ## How much is below a node -/

section Below

open Classical in
/-- The nodes that have a property. -/
noncomputable def nodesWith (size : Nat) (P : ExprId → Prop) : Finset ExprId := (Finset.range size).filter P

variable {size : Nat} {P Q : ExprId → Prop} {next : ExprId → List ExprId} {i j : ExprId}

theorem mem_nodesWith : j ∈ nodesWith size P ↔ j < size ∧ P j := by
  classical
  unfold nodesWith
  rw [Finset.mem_filter, Finset.mem_range]

theorem card_nodesWith_le (size : Nat) (P : ExprId → Prop) : (nodesWith size P).card ≤ size := by
  have hsub : nodesWith size P ⊆ Finset.range size := fun k hk => Finset.mem_range.mpr (mem_nodesWith.mp hk).1
  exact (Finset.card_le_card hsub).trans (Finset.card_range size).le

theorem nodesWith_subset (h : ∀ k, P k → Q k) : nodesWith size P ⊆ nodesWith size Q := by
  intro k hk
  obtain ⟨hlt, hP⟩ := mem_nodesWith.mp hk
  exact mem_nodesWith.mpr ⟨hlt, h k hP⟩

theorem card_nodesWith_lt (h : ∀ k, P k → Q k) (hj : j < size) (hQ : Q j) (hP : ¬ P j) :
    (nodesWith size P).card < (nodesWith size Q).card := by
  refine Finset.card_lt_card (Finset.ssubset_iff_subset_ne.mpr ⟨nodesWith_subset h, ?_⟩)
  intro heq
  have hmem : j ∈ nodesWith size Q := mem_nodesWith.mpr ⟨hj, hQ⟩
  rw [← heq] at hmem
  exact hP (mem_nodesWith.mp hmem).2

/-- How many nodes a node leads to. -/
noncomputable def below (next : ExprId → List ExprId) (size : Nat) (i : ExprId) : Nat :=
  (nodesWith size fun k => Relation.TransGen (Follows next size) i k).card

/-- How many nodes a node leads to that do not lead back to it. -/
noncomputable def strictlyBelow (next : ExprId → List ExprId) (size : Nat) (i : ExprId) : Nat :=
  (nodesWith size fun k =>
    Relation.ReflTransGen (Follows next size) i k ∧ ¬ Relation.ReflTransGen (Follows next size) k i).card

/-- Where there are no cycles, less is below what a node leads to. -/
theorem below_lt (hcycle : ¬ Relation.TransGen (Follows next size) j j) (hj : j < size)
    (h : Relation.TransGen (Follows next size) i j) : below next size j < below next size i :=
  card_nodesWith_lt (fun _ => h.trans) hj h hcycle

/-- No more is strictly below what a node leads to. -/
theorem strictlyBelow_le (h : Relation.ReflTransGen (Follows next size) i j) :
    strictlyBelow next size j ≤ strictlyBelow next size i :=
  Finset.card_le_card (nodesWith_subset fun _ hk => ⟨h.trans hk.1, fun hback => hk.2 (hback.trans h)⟩)

/-- Less is strictly below what a node leads to, if that does not lead back. -/
theorem strictlyBelow_lt (hj : j < size) (h : Relation.ReflTransGen (Follows next size) i j)
    (hback : ¬ Relation.ReflTransGen (Follows next size) j i) :
    strictlyBelow next size j < strictlyBelow next size i :=
  card_nodesWith_lt (fun _ hk => ⟨h.trans hk.1, fun hto => hk.2 (hto.trans h)⟩) hj ⟨h, hback⟩
    fun hself => hself.2 Relation.ReflTransGen.refl

end Below
end Packrat
