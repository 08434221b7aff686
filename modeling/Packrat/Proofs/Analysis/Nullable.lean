import Mathlib.Order.Bounds.Basic
import Packrat.Proofs.Analysis.Search

/-!
# `Packrat.Proofs.Analysis.Nullable` — the least solution of the equations for what may be empty

Whether an expression may be empty is told from which nodes may be, so the nodes that may be solve an equation for
each node. Of these equations the analysis looks for the least solution: it starts from no node, and each round adds
the nodes that must be there by then.

## Contents

* `mem_saturate_least` — a saturated set is part of every closed one, if its rule is monotone;
* `saturate_eq_iterate` — **a set is saturated after as many rounds as there are nodes**;
* `nullableRule`, `nullable_isLeast` — **what may be empty is the least solution** of its equations.
-/

namespace Packrat

variable {size : Nat} {rule : (ExprId → Bool) → ExprId → Bool} {known : List ExprId}

/-! ## Saturated sets -/

section Saturation

variable {closed : ExprId → Bool} (hmono : Monotone rule) (hclosed : ∀ i < size, rule closed i = true → closed i = true)
include hmono hclosed

/-- A round adds nothing to what is part of a closed set that is not part of it. -/
theorem sweep_least (hknown : ∀ i ∈ known, closed i = true) : ∀ i ∈ sweep size rule known, closed i = true := by
  refine sweepOver_keeps (P := fun known => ∀ i ∈ known, closed i = true) (fun known hknown i hi _ hadmits => ?_) hknown
  have hle : known.contains ≤ closed :=
    fun j => Bool.le_iff_imp.mpr fun hj => hknown j (List.contains_iff_mem.mp hj)
  have hi' : closed i = true := hclosed i (List.mem_range.mp hi) (Bool.le_iff_imp.mp (hmono hle i) hadmits)
  exact List.forall_mem_cons.mpr ⟨hi', hknown⟩

/-- A saturated set is part of every closed one, if its rule is monotone. -/
theorem mem_saturate_least {i : ExprId} (hi : i ∈ saturate size rule) : closed i = true := by
  rw [saturate_eq_iterate_of_le (Nat.le_refl size)] at hi
  exact Function.Iterate.rec (fun known : List ExprId => ∀ i ∈ known, closed i = true) (by simp)
    (fun _ hknown => sweep_least hmono hclosed hknown) size i hi

end Saturation

/-- **A set is saturated after as many rounds as there are nodes**, or fewer. -/
theorem saturate_eq_iterate (size : Nat) (rule : (ExprId → Bool) → ExprId → Bool) :
    ∃ rounds ≤ size, saturate size rule = (sweep size rule)^[rounds] [] ∧
      sweep size rule (saturate size rule) = saturate size rule :=
  ⟨size, Nat.le_refl size, saturate_eq_iterate_of_le (Nat.le_refl size), sweep_saturate⟩

/-! ## What may be empty -/

/-- Whether a node may be empty, given which nodes may be. -/
def nullableRule (nodes : Array Node) (known : ExprId → Bool) (i : ExprId) : Bool :=
  (kindOf? nodes i).any (NodeKind.isNullable known)

/-- An expression that may be empty still may be when more nodes may be. -/
theorem NodeKind.isNullable_mono (k : NodeKind) : Monotone fun known => k.isNullable known := by
  intro known known' hle
  have himp {i : ExprId} (h : known i = true) : known' i = true := Bool.le_iff_imp.mp (hle i) h
  refine Bool.le_iff_imp.mpr fun h => ?_
  cases k with
  | sequence cs | each cs => exact List.all_eq_true.mpr fun i hi => himp (List.all_eq_true.mp h i hi)
  | orderedChoice cs | longestChoice cs =>
    obtain ⟨i, hi, hknown⟩ := List.any_eq_true.mp h
    exact List.any_eq_true.mpr ⟨i, hi, himp hknown⟩
  | repetition c min max stop =>
    rcases (Bool.or_eq_true ..).mp h with hmin | hknown
    · exact (Bool.or_eq_true ..).mpr (Or.inl hmin)
    · exact (Bool.or_eq_true ..).mpr (Or.inr (himp hknown))
  | forward label target =>
    cases target with
    | none => exact h
    | some target => exact himp h
  | transform | named | combine | group | dict | suppress | originalText => exact himp h
  | _ => exact h

theorem nullableRule_mono (nodes : Array Node) : Monotone (nullableRule nodes) := by
  intro known known' hle i
  refine Bool.le_iff_imp.mpr fun h => ?_
  obtain ⟨k, hk, hnullable⟩ := (Option.any_eq_true ..).mp h
  exact (Option.any_eq_true ..).mpr ⟨k, hk, Bool.le_iff_imp.mp (k.isNullable_mono hle) hnullable⟩

/-- The equations for what may be empty, one for each node. -/
def NullableEquations (nodes : Array Node) : Set (ExprId → Bool) :=
  {known | ∀ i, known i = (kindOf? nodes i).any fun k => k.isNullable known}

/-- **What may be empty is the least solution** of its equations. -/
theorem nullable_isLeast (nodes : Array Node) : IsLeast (NullableEquations nodes) (nullable nodes).contains := by
  have hleast {closed : ExprId → Bool} (hclosed : ∀ i, nullableRule nodes closed i = true → closed i = true) {i : ExprId}
      (hi : (nullable nodes).contains i = true) : closed i = true :=
    mem_saturate_least (nullableRule_mono nodes) (fun i _ => hclosed i) (List.contains_iff_mem.mp hi)
  have hcloses (i : ExprId) (h : nullableRule nodes (nullable nodes).contains i = true) :
      (nullable nodes).contains i = true := by
    obtain ⟨k, hk, hnullable⟩ := (Option.any_eq_true ..).mp h
    exact nullable_closed hk hnullable
  refine ⟨fun i => ?_, fun known hknown i => ?_⟩
  · -- what the rule admits is closed as well, so it holds no less than the least closed set
    have hle : nullableRule nodes (nullable nodes).contains ≤ (nullable nodes).contains :=
      fun j => Bool.le_iff_imp.mpr (hcloses j)
    have hadmits : (nullable nodes).contains i = true → nullableRule nodes (nullable nodes).contains i = true :=
      hleast fun j hj => Bool.le_iff_imp.mp (nullableRule_mono nodes hle j) hj
    exact Bool.eq_iff_iff.mpr ⟨hadmits, hcloses i⟩
  · exact Bool.le_iff_imp.mpr (hleast fun j hj => (hknown j).trans hj)

end Packrat
