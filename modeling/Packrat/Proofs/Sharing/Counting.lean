import Packrat.Proofs.Analysis.Search
import Packrat.Proofs.Sharing.Graph

/-!
# `Packrat.Proofs.Sharing.Counting` — the count of references sees every reference that matters

The count goes over the names, the hand, and all groups found from these. Nothing else can refer to a group that a
name shows, so where the count is one, there is a single way to the group.

## Contents

* `get_put`, `results_putAt` — what giving a holder other results changes;
* `Registers.Live`, `mem_holders` — **whatever a root reaches and refers to something is counted**;
* `count_le_references`, `eq_of_references_le_one` — what a count of one says.
-/

namespace Packrat
namespace Shared
namespace Registers

variable {g : Registers} {x y z : Holder} {a : Nat} {r : Results}

/-! ## Giving a holder other results -/

theorem lookup_replace (named : List (String × Results)) (name n : String) (r : Results) :
    (named.map fun (n, old) => if n = name then (n, r) else (n, old)).lookup n =
      if n = name then (named.lookup n).map fun _ => r else named.lookup n := by
  induction named with
  | nil => simp
  | cons p named ih =>
    obtain ⟨m, old⟩ := p
    rw [List.map_cons]
    by_cases hm : m = name
    · subst hm
      by_cases hn : n = m
      · subst hn
        simp
      · simp only [if_true, List.lookup_cons, beq_eq_false_iff_ne.mpr hn, ih]
    · by_cases hn : n = m
      · subst hn
        simp [hm]
      · simp only [if_neg hm, List.lookup_cons, beq_eq_false_iff_ne.mpr hn, ih]

/-- The results of a name after it, or another one, is given other results. -/
theorem get_put (g : Registers) (name n : String) (r : Results) :
    (g.put name r).get n = if n = name then r else g.get n := by
  unfold put get
  by_cases hknown : (g.named.lookup name).isSome
  · rw [if_pos hknown, lookup_replace]
    by_cases hn : n = name
    · subst hn
      obtain ⟨old, hold⟩ := Option.isSome_iff_exists.mp hknown
      rw [if_pos rfl, if_pos rfl, hold]
      rfl
    · rw [if_neg hn, if_neg hn]
  · rw [if_neg hknown, List.lookup_append]
    by_cases hn : n = name
    · subst hn
      rw [Option.not_isSome_iff_eq_none.mp hknown]
      simp
    · simp [List.lookup_cons, beq_eq_false_iff_ne.mpr hn, if_neg hn]

theorem put_store (g : Registers) (name : String) (r : Results) : (g.put name r).store = g.store := by
  unfold put
  split <;> rfl

theorem put_hand (g : Registers) (name : String) (r : Results) : (g.put name r).hand = g.hand := by
  unfold put
  split <;> rfl

/-- What a holder holds after it, or another one, is given other results. -/
theorem results_putAt (hz : g.Has z) (r : Results) (x : Holder) :
    (g.putAt r z).results x = if x = z then r else g.results x := by
  cases z with
  | name n =>
    cases x with
    | name m => simp only [putAt, results, get_put, Holder.name.injEq]
    | hand => simp only [putAt, results, put_hand, reduceCtorEq, if_false]
    | group a => simp only [putAt, results, put_store, reduceCtorEq, if_false]
  | hand =>
    cases x with
    | name m => simp only [putAt, results, get, reduceCtorEq, if_false]
    | hand => simp only [putAt, results, if_true]
    | group a => simp only [putAt, results, reduceCtorEq, if_false]
  | group b =>
    cases x with
    | name m => simp only [putAt, results, get, reduceCtorEq, if_false]
    | hand => simp only [putAt, results, reduceCtorEq, if_false]
    | group a =>
      have hb : b < g.store.cells.length := hz
      simp only [putAt, results, Store.cell, Store.replace, List.getElem?_set, Holder.group.injEq]
      by_cases hab : a = b
      · subst hab
        simp [hb]
      · rw [if_neg hab, if_neg (Ne.symm hab)]

theorem length_putAt (g : Registers) (r : Results) (z : Holder) :
    (g.putAt r z).store.cells.length = g.store.cells.length := by
  cases z with
  | name n => rw [putAt, put_store]
  | hand => rfl
  | group a => exact List.length_set

/-! ## What is counted -/

/-- A holder that a root reaches. -/
def Live (g : Registers) (z : Holder) : Prop := ∃ x : Holder, x.IsRoot ∧ g.Reaches x z

theorem Live.of_reaches (h : g.Live x) (hy : g.Reaches x y) : g.Live y := by
  obtain ⟨root, hroot, hx⟩ := h
  exact ⟨root, hroot, hx.trans hy⟩

/-- A root that refers to something is among the roots that are counted. -/
theorem mem_roots (hx : x.IsRoot) (ha : a ∈ addresses (g.results x)) : x ∈ g.roots := by
  cases x with
  | group b => exact hx.elim
  | hand => exact List.mem_cons_self
  | name n =>
    refine List.mem_cons_of_mem _ ?_
    cases hlookup : g.named.lookup n with
    | none =>
      rw [results, get, hlookup] at ha
      cases ha
    | some r =>
      obtain ⟨before, after, hnamed, -⟩ := List.lookup_eq_some_iff.mp hlookup
      exact List.mem_map.mpr ⟨(n, r), by simp [hnamed], rfl⟩

/-- A search of the store finds what can be reached from a group. -/
theorem reaches_follows (h : g.Reaches (.group a) y) :
    ∃ b, y = .group b ∧ Relation.ReflTransGen
      (Follows (fun a => addresses (g.store.cell a)) g.store.cells.length) a b := by
  induction h with
  | refl => exact ⟨a, rfl, .refl⟩
  | tail _ hstep ih =>
    obtain ⟨b, rfl, hb⟩ := ih
    obtain ⟨c, hc, rfl⟩ := hstep
    refine ⟨c, rfl, hb.tail ⟨?_, hc⟩⟩
    -- there is nothing at an address past the end
    by_contra hlt
    rw [results, Store.cell, List.getElem?_eq_none (Nat.not_lt.mp hlt)] at hc
    cases hc

/-- **Whatever a root reaches and refers to something is counted.** -/
theorem mem_holders (hz : g.Live z) (hhas : g.Has z) (ha : a ∈ addresses (g.results z)) : z ∈ g.holders := by
  obtain ⟨x, hx, hreach⟩ := hz
  rcases hreach.cases_head with rfl | ⟨y, ⟨b, hb, rfl⟩, hbz⟩
  · exact List.mem_append_left _ (mem_roots hx ha)
  · obtain ⟨c, rfl, hfollows⟩ := reaches_follows hbz
    refine List.mem_append_right _ (List.mem_map_of_mem (mem_preorder.mpr ⟨hhas, b, ?_, hfollows⟩))
    exact List.mem_flatMap.mpr ⟨x, mem_roots hx hb, hb⟩

/-! ## What the count says -/

theorem references_eq_sum (g : Registers) (a : Nat) :
    g.references a = (g.holders.map fun h => (addresses (g.results h)).count a).sum := by
  rw [references, List.count_flatMap]
  rfl

theorem count_le_references (hx : x ∈ g.holders) : (addresses (g.results x)).count a ≤ g.references a := by
  rw [references_eq_sum]
  exact List.single_le_sum (by simp) _ (List.mem_map_of_mem hx)

/-- A group that is counted once is referred to by one holder. -/
theorem eq_of_references_le_one (h : g.references a ≤ 1) (hx : x ∈ g.holders) (hy : y ∈ g.holders)
    (hxa : a ∈ addresses (g.results x)) (hya : a ∈ addresses (g.results y)) : x = y := by
  by_contra hne
  have hcounts : (addresses (g.results x)).count a + (addresses (g.results y)).count a ≤ g.references a := by
    rw [references_eq_sum, ((List.perm_cons_erase hx).map _).sum_eq, List.map_cons, List.sum_cons]
    have hcount : (addresses (g.results y)).count a ∈
        (g.holders.erase x).map fun h => (addresses (g.results h)).count a :=
      List.mem_map.mpr ⟨y, (List.mem_erase_of_ne (Ne.symm hne)).mpr hy, rfl⟩
    exact Nat.add_le_add_left (List.single_le_sum (by simp) _ hcount) _
  have hx1 := List.count_pos_iff.mpr hxa
  have hy1 := List.count_pos_iff.mpr hya
  omega

end Registers
end Shared
end Packrat
