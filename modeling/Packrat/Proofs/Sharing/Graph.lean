import Mathlib.Tactic
import Mathlib.Logic.Relation
import Packrat.Results.Shared
import Packrat.Proofs.Sharing.Edits

/-!
# `Packrat.Proofs.Sharing.Graph` — holders refer to groups, and to nothing twice over

Names, the hand and groups refer to groups. What a holder shows is a tree, as long as following references from it
ends: then it shows what it holds with every group replaced by what that shows, and nothing outside of what it reaches
has a part in it.

## Contents

* `Registers.Reaches`, `Registers.Grounded` — what can be reached, and where this ends;
* `Grounded.not_returns` — no reference leads back;
* `Registers.treeAt`, `Grounded.value_group` — **a group shows what it holds**;
* `Keeps`, `Grounded.keeps` — **what a holder does not reach it does not show**.
-/

namespace Packrat
namespace Shared

variable {g g' : Registers} {x y z : Holder} {a b : Nat}

theorem mem_addresses {r : Results} : a ∈ addresses r ↔ Ref.group a ∈ r.values := by
  rw [addresses, List.mem_filterMap]
  constructor
  · rintro ⟨v, hv, hva⟩
    cases v with
    | leaf l => cases hva
    | group b => cases hva; exact hv
  · intro hv
    exact ⟨.group a, hv, rfl⟩

/-- A holder that nothing refers to. -/
def Holder.IsRoot : Holder → Prop
  | .group _ => False
  | _ => True

namespace Registers

/-! ## Reachability -/

/-- One holder refers to another, which is a group. -/
def Points (g : Registers) (x y : Holder) : Prop := ∃ a ∈ addresses (g.results x), y = .group a

/-- Following references leads from one holder to another. -/
def Reaches (g : Registers) : Holder → Holder → Prop := Relation.ReflTransGen g.Points

/-- A holder there is. -/
def Has (g : Registers) : Holder → Prop
  | .group a => a < g.store.cells.length
  | _ => True

/-- Following references from a holder ends, and never leads to a group there is none of. -/
inductive Grounded (g : Registers) : Holder → Prop
  | intro (x : Holder) (has : g.Has x) (children : ∀ a ∈ addresses (g.results x), Grounded g (.group a)) : Grounded g x

theorem Points.refers (h : g.Points x (.group a)) : a ∈ addresses (g.results x) := by
  obtain ⟨b, hb, heq⟩ := h
  cases heq
  exact hb

/-- What reaches a root is the root. -/
theorem Reaches.eq_of_isRoot (h : g.Reaches x y) (hy : y.IsRoot) : x = y := by
  rcases h.cases_tail with rfl | ⟨z, -, a, -, rfl⟩
  · rfl
  · exact hy.elim

theorem not_reaches_root (hy : y.IsRoot) (hne : x ≠ y) : ¬g.Reaches x y := fun h => hne (h.eq_of_isRoot hy)

namespace Grounded

theorem has (h : g.Grounded x) : g.Has x := by
  cases h with
  | intro _ has _ => exact has

theorem child (h : g.Grounded x) (ha : a ∈ addresses (g.results x)) : g.Grounded (.group a) := by
  cases h with
  | intro _ _ children => exact children a ha

theorem of_points (h : g.Grounded x) (hy : g.Points x y) : g.Grounded y := by
  obtain ⟨a, ha, rfl⟩ := hy
  exact h.child ha

theorem of_reaches (h : g.Grounded x) (hy : g.Reaches x y) : g.Grounded y := by
  induction hy with
  | refl => exact h
  | tail _ hyz ih => exact ih.of_points hyz

/-- **No reference leads back.** -/
theorem not_returns (h : g.Grounded x) (hy : g.Points x y) : ¬g.Reaches y x := by
  induction h generalizing y with
  | intro x has children ih =>
    obtain ⟨a, ha, rfl⟩ := hy
    intro hback
    -- the group that leads back to `x` would lead back to itself, by way of `x`
    rcases hback.cases_head with heq | ⟨z, haz, hzx⟩
    · exact ih a ha ⟨a, by rw [heq]; exact ha, rfl⟩ .refl
    · exact ih a ha haz (hzx.tail ⟨a, ha, rfl⟩)

end Grounded

/-! ## What a holder shows -/

/-- The tree that what a holder holds stands for. -/
def treeAt (g : Registers) (x : Holder) : Packrat.Results := g.store.tree (g.results x)

theorem valueAt_leaf (s : Store) (d : Nat) (l : Leaf) : s.valueAt d (.leaf l) = .leaf l := by
  cases d <;> rfl

theorem value_leaf (s : Store) (l : Leaf) : s.value (.leaf l) = .leaf l := valueAt_leaf s _ l

/-- A depth at which there is room for every group that a group reaches is as good as another. -/
theorem valueAt_eq (h : g.Grounded x) (hx : x = .group a) {S : Finset Nat}
    (hS : ∀ b, g.Reaches x (.group b) → b ∈ S) {d d' : Nat} (hd : S.card ≤ d) (hd' : S.card ≤ d') :
    g.store.valueAt d (.group a) = g.store.valueAt d' (.group a) := by
  induction h generalizing a S d d' with
  | intro x has children ih =>
    subst hx
    have hgrounded : g.Grounded (.group a) := .intro _ has children
    have haS : a ∈ S := hS a .refl
    have hcard : (S.erase a).card + 1 = S.card := Finset.card_erase_add_one haS
    obtain ⟨k, rfl⟩ : ∃ k, d = k + 1 := ⟨d - 1, by omega⟩
    obtain ⟨k', rfl⟩ : ∃ k', d' = k' + 1 := ⟨d' - 1, by omega⟩
    rw [Store.valueAt, Store.valueAt]
    congr 1
    refine ResultsOf.map_congr fun v hv => ?_
    cases v with
    | leaf l => rw [valueAt_leaf, valueAt_leaf]
    | group b =>
      have hb : b ∈ addresses (g.results (.group a)) := mem_addresses.mpr hv
      have hpoints : g.Points (.group a) (.group b) := ⟨b, hb, rfl⟩
      refine ih b hb rfl (S := S.erase a) (fun c hc => ?_) (by omega) (by omega)
      refine Finset.mem_erase.mpr ⟨?_, hS c (hc.head hpoints)⟩
      rintro rfl
      exact hgrounded.not_returns hpoints hc

/-- **A group shows what it holds.** -/
theorem Grounded.value_group (h : g.Grounded (.group a)) :
    g.store.value (.group a) = .group (g.treeAt (.group a)) := by
  have ha : a < g.store.cells.length := h.has
  obtain ⟨k, hk⟩ : ∃ k, g.store.cells.length = k + 1 := ⟨g.store.cells.length - 1, by omega⟩
  rw [Store.value, hk, Store.valueAt, treeAt, Store.tree]
  congr 1
  refine ResultsOf.map_congr fun v hv => ?_
  cases v with
  | leaf l => rw [Store.value, valueAt_leaf, valueAt_leaf]
  | group b =>
    have hb : b ∈ addresses (g.results (.group a)) := mem_addresses.mpr hv
    have hpoints : g.Points (.group a) (.group b) := ⟨b, hb, rfl⟩
    have hcard : ((Finset.range g.store.cells.length).erase a).card = k := by
      rw [Finset.card_erase_of_mem (Finset.mem_range.mpr ha), Finset.card_range, hk, Nat.add_sub_cancel]
    refine valueAt_eq (h.child hb) rfl (S := (Finset.range g.store.cells.length).erase a) (fun c hc => ?_)
      (by omega) (by omega)
    refine Finset.mem_erase.mpr ⟨?_, Finset.mem_range.mpr ((h.child hb).of_reaches hc).has⟩
    rintro rfl
    exact h.not_returns hpoints hc

/-! ## What a change elsewhere leaves alone -/

/-- A holder reaches and shows in other registers what it did. -/
structure Keeps (g g' : Registers) (x : Holder) : Prop where
  grounded : g'.Grounded x
  tree : g'.treeAt x = g.treeAt x
  reaches : ∀ y, g'.Reaches x y ↔ g.Reaches x y

/-- Results whose groups show what they did do so too. -/
theorem tree_congr {r : Results} (hr : ∀ a ∈ addresses r, g.Grounded (.group a) ∧ g.Keeps g' (.group a)) :
    g'.store.tree r = g.store.tree r := by
  refine ResultsOf.map_congr fun v hv => ?_
  cases v with
  | leaf l => rw [value_leaf, value_leaf]
  | group a =>
    obtain ⟨hgrounded, hkeeps⟩ := hr a (mem_addresses.mpr hv)
    rw [hgrounded.value_group, hkeeps.grounded.value_group, hkeeps.tree]

/-- Where all that a holder reaches is as it was, it reaches the same. -/
theorem reaches_congr (hsame : ∀ y, g.Reaches x y → g'.results y = g.results y) :
    g'.Reaches x y ↔ g.Reaches x y := by
  constructor
  · intro hy
    induction hy with
    | refl => exact .refl
    | tail _ hstep ih =>
      obtain ⟨a, ha, rfl⟩ := hstep
      rw [hsame _ ih] at ha
      exact ih.tail ⟨a, ha, rfl⟩
  · intro hy
    induction hy with
    | refl => exact .refl
    | tail hprev hstep ih =>
      obtain ⟨a, ha, rfl⟩ := hstep
      rw [← hsame _ hprev] at ha
      exact ih.tail ⟨a, ha, rfl⟩

/-- **What a holder does not reach it does not show**: where all that it reaches is as it was, and no group is gone,
the holder shows what it did. -/
theorem Grounded.keeps (h : g.Grounded x) (hlen : g.store.cells.length ≤ g'.store.cells.length)
    (hsame : ∀ y, g.Reaches x y → g'.results y = g.results y) : g.Keeps g' x := by
  induction h with
  | intro x has children ih =>
    have hx : g'.results x = g.results x := hsame x .refl
    have hbelow (a : Nat) (ha : a ∈ addresses (g.results x)) : g.Keeps g' (.group a) :=
      ih a ha fun y hy => hsame y (hy.head ⟨a, ha, rfl⟩)
    have hhas : g'.Has x := by
      cases x with
      | group a => exact Nat.lt_of_lt_of_le has hlen
      | name n => trivial
      | hand => trivial
    refine ⟨.intro x hhas fun a ha => (hbelow a (by rwa [← hx])).grounded, ?_, fun y => reaches_congr hsame⟩
    rw [treeAt, treeAt, hx]
    exact tree_congr fun a ha => ⟨children a ha, hbelow a ha⟩

end Registers
end Shared
end Packrat
