import Packrat.Proofs.Building.Finished
import Packrat.Proofs.Placement.Runs

/-!
# `Packrat.Proofs.Building.Bound` — when forwards without a target are kept out of reach

Building looks for forwards without a target among all that the root reaches, and passes ignorables down after that.
A node out of reach may hand an ignorable down to one within reach, and what that ignorable reaches was never looked
at. Where all that is handed down to nodes within reach comes from nodes within reach, a run attempts only nodes that
were looked at.

## Contents

* `Builder.IgnoresWithin` — ignorables that come from within reach of the root;
* `closed_walk` — **then what the root reaches is closed** in the finished grammar too;
* `endsWith_of_ignoresWithin` — **no run reaches a forward without target**.
-/

namespace Packrat

/-! ## What the root reaches -/

/-- What is beneath a node is handed down its ignorables: if some of it is within reach of the root, so is the
node. -/
def Builder.IgnoresWithin (b : Builder) (root : ExprId) : Prop :=
  ∀ s < b.size, edgesOf b.nodes (·.ignores) s ≠ [] → (∃ i ∈ beneath b.nodes s, i ∈ walk b.nodes root) →
    s ∈ walk b.nodes root

instance (b : Builder) (root : ExprId) : Decidable (b.IgnoresWithin root) :=
  inferInstanceAs (Decidable (∀ s < b.size, edgesOf b.nodes (·.ignores) s ≠ [] →
    (∃ i ∈ beneath b.nodes s, i ∈ walk b.nodes root) → s ∈ walk b.nodes root))

section Walk

variable {nodes : Array Node} {root i j : ExprId}

theorem self_mem_walk (h : root < nodes.size) : root ∈ walk nodes root :=
  mem_preorder.mpr ⟨h, root, List.mem_singleton_self _, Relation.ReflTransGen.refl⟩

theorem lt_size_of_mem_walk (h : i ∈ walk nodes root) : i < nodes.size := (mem_preorder.mp h).1

/-- What a node within reach refers to is within reach. -/
theorem mem_walk_of_references {n : Node} (h : i ∈ walk nodes root) (hn : nodes[i]? = some n)
    (hj : j ∈ n.references) (hlt : j < nodes.size) : j ∈ walk nodes root := by
  obtain ⟨hi, s, hs, hreach⟩ := mem_preorder.mp h
  refine mem_preorder.mpr ⟨hlt, s, hs, hreach.tail ⟨hi, ?_⟩⟩
  rw [edgesOf, hn]
  exact hj

/-- A node with ignorables is a node. -/
theorem exists_node_of_mem_ignores (h : j ∈ edgesOf nodes (·.ignores) i) :
    ∃ n, nodes[i]? = some n ∧ j ∈ n.ignores := by
  unfold edgesOf at h
  cases hn : nodes[i]? with
  | none =>
    rw [hn] at h
    exact absurd h List.not_mem_nil
  | some n =>
    rw [hn] at h
    exact ⟨n, rfl, h⟩

end Walk

variable {b : Builder} {root : ExprId} {g : Grammar}

/-- **What the root reaches is closed** in the finished grammar, when ignorables are handed down from within reach. -/
theorem closed_walk (h : b.Builds root g) (hwithin : b.IgnoresWithin root) :
    g.Closed fun i => i ∈ walk b.nodes root := by
  intro i j hi hj
  have hlt : i < g.size := by
    rw [h.size]
    exact lt_size_of_mem_walk hi
  have hj_lt : j < b.nodes.size := by
    have hj_lt := h.references_lt hlt hj
    rwa [h.size] at hj_lt
  obtain ⟨n, hn, hinherits⟩ := h.node hlt
  rcases List.mem_append.mp hj with hchild | hignore
  · have hchild : j ∈ n.children := by rwa [Node.children, hinherits.kind] at hchild
    exact mem_walk_of_references hi hn (List.mem_append_left _ hchild) hj_lt
  · rcases hinherits.ignores j hignore with hown | ⟨s, hs, hbeneath⟩
    · exact mem_walk_of_references hi hn (List.mem_append_right _ hown) hj_lt
    · -- the ignorable comes from a node above, which is within reach
      obtain ⟨m, hm, hignores⟩ := exists_node_of_mem_ignores hs
      have hs_lt : s < b.size := (Array.getElem?_eq_some_iff.mp hm).1
      have hs_mem : s ∈ walk b.nodes root := hwithin s hs_lt (List.ne_nil_of_mem hs) ⟨i, hbeneath, hi⟩
      exact mem_walk_of_references hs_mem hm (List.mem_append_right _ hignores) hj_lt

/-- A forward within reach of the root has a target. -/
theorem kind_ne_of_mem_walk (h : b.Builds root g) {i : ExprId} (hi : i ∈ walk b.nodes root) (label : String) :
    (g.rule i).kind ≠ .forward label none := by
  intro hk
  have hlt : i < g.size := by
    rw [h.size]
    exact lt_size_of_mem_walk hi
  obtain ⟨n, hn, hinherits⟩ := h.node hlt
  have hlabel : unboundLabel? b.nodes i = some label := by
    rw [unboundLabel?, kindOf?, hn]
    simp only [Option.map_some, ← hinherits.kind, hk]
  rw [h.bound i hi] at hlabel
  exact absurd hlabel (by simp)

/-! ## Runs -/

/-- The error of a forward without target. -/
def ParseError.IsUnbound : ParseError → Prop
  | .unboundForward _ => True
  | _ => False

/-- **No run reaches a forward without target**, when ignorables are handed down from within reach of the root. -/
theorem endsWith_of_ignoresWithin (hbuild : b.build root = .ok g) (hwithin : b.IgnoresWithin root) :
    g.EndsWith fun _ e => ¬ e.IsUnbound := by
  have h : b.Builds root g := Builder.builds_of_ok hbuild
  have hbound : ∀ i, i ∈ walk b.nodes root → ∀ label, (g.rule i).kind ≠ .forward label none :=
    fun i hi => kind_ne_of_mem_walk h hi
  let U : Upkeep g := Upkeep.within (closed_walk h hwithin)
  have hroot : g.root ∈ walk b.nodes root := by
    rw [h.root_eq]
    exact self_mem_walk h.root_lt
  refine (U.endsWith hroot).mono ?_
  intro t e he
  cases he with
  | mismatch _ => exact id
  | @halt halt hh =>
    cases halt with
    | unboundForward label =>
      obtain ⟨i, hi, hk⟩ := hh.unbound label rfl
      exact absurd hk (hbound i hi label)
    | _ => exact id

/-- Words with comments between them; a forward out of reach has no target. -/
def commentedWords : Builder :=
  .ofCalls [.literal "w" false, .literal "#" false, .forward "words", .sequence [0, 2], .optional 3 none, .bind 2 4,
    .ignore 4 1, .forward "unused"]

theorem endsWith_of_ignoresWithin_commentedWords :
    ∃ g, commentedWords.build 4 = .ok g ∧ commentedWords.IgnoresWithin 4 ∧ g.EndsWith fun _ e => ¬ e.IsUnbound := by
  have hok : (commentedWords.build 4).isOk = true := by decide +kernel
  have hwithin : commentedWords.IgnoresWithin 4 := by decide +kernel
  cases hbuild : commentedWords.build 4 with
  | error e =>
    rw [hbuild] at hok
    exact absurd hok Bool.false_ne_true
  | ok g => exact ⟨g, rfl, hwithin, endsWith_of_ignoresWithin hbuild hwithin⟩

/-! ## Necessity -/

/-- A parse ends with the error of a forward without target. -/
def Parsed.reachesUnbound (x : Parsed) : Bool :=
  match x.outcome with
  | .error (.unboundForward _) => true
  | _ => false

/-- A sequence out of reach that ignores a forward without target, with the root beneath it. -/
def strayIgnorable : Builder := .ofCalls [.literal "a" false, .sequence [0], .forward "f", .ignore 1 2]

/-- The sequence hands the forward down to the root, where a parse reaches it. -/
theorem not_endsWith_strayIgnorable :
    ∃ g, strayIgnorable.build 0 = .ok g ∧ ¬ g.EndsWith fun _ e => ¬ e.IsUnbound := by
  let reached (g : Grammar) : Bool := (g.parse {} default ['a'] true).reachesUnbound
  have h : (strayIgnorable.build 0).toOption.any reached = true := by decide +kernel
  cases hbuild : strayIgnorable.build 0 with
  | error e =>
    rw [hbuild] at h
    exact absurd h (by simp [Except.toOption])
  | ok g =>
    rw [hbuild] at h
    refine ⟨g, rfl, fun hends => ?_⟩
    have hparse := hends.parse {} default (State.initial {}) ['a'] true
    change reached g = true at h
    simp only [reached, Parsed.reachesUnbound] at h
    split at h
    · next label hlabel => exact hparse _ hlabel trivial
    · exact absurd h Bool.false_ne_true

end Packrat
