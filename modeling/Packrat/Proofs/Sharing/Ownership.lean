import Packrat.Proofs.Sharing.Allocation
import Packrat.Proofs.Sharing.Paths

/-!
# `Packrat.Proofs.Sharing.Ownership` — copying on a change makes groups private

Before a group is changed, every group on the path to it is copied that something else refers to as well. The trees do
not change by this, and the group at the end is private.

## Contents

* `Registers.ShowsAs` — registers whose roots show the same;
* `private_of_references_le_one` — a group that is counted once is private;
* `private_copy` — so is a copy;
* `ownToken_private`, `own_private` — **the group at the end of a path that is made its own is private**.
-/

namespace Packrat
namespace Shared
namespace Registers

variable {g g' g'' : Registers} {x y z : Holder} {a b i : Nat} {name : String} {path : List Nat}

/-- Registers whose roots show what those of others do, with the same in hand. -/
structure ShowsAs (g' g : Registers) : Prop where
  sound : g'.Sound
  trees : ∀ x : Holder, x.IsRoot → g'.treeAt x = g.treeAt x
  hand : g'.hand = g.hand

theorem ShowsAs.refl (hs : g.Sound) : g.ShowsAs g := ⟨hs, fun _ _ => rfl, rfl⟩

theorem ShowsAs.trans (h : g''.ShowsAs g') (h' : g'.ShowsAs g) : g''.ShowsAs g :=
  ⟨h.sound, fun x hx => (h.trees x hx).trans (h'.trees x hx), h.hand.trans h'.hand⟩

/-- **A group that a private holder refers to and that is counted once is private.** -/
theorem private_of_references_le_one (hs : g.Sound) (hp : g.Private name path z)
    (htoken : (g.results z).tokens[i]? = some (.group a)) (hone : g.references a ≤ 1) :
    g.Private name (path ++ [i]) (.group a) := by
  have hcounted (y : Holder) (hy : g.Live y) (hya : a ∈ addresses (g.results y)) : y ∈ g.holders := by
    obtain ⟨root, hroot, hreach⟩ := hy
    exact mem_holders ⟨root, hroot, hreach⟩ ((hs root hroot).of_reaches hreach).has hya
  have hza : a ∈ addresses (g.results z) := mem_addresses_of_token htoken
  refine hp.snoc hs htoken (fun y hy hya => ?_) (fun hmem => ?_)
  · exact eq_of_references_le_one hone (hcounted y hy hya.refers) (hcounted z hp.live hza) hya.refers hza
  · have hcount : (addresses (g.results z)).count a ≤ 1 :=
      (count_le_references (hcounted z hp.live hza)).trans hone
    rw [(addresses_perm_without htoken).count_eq, List.count_cons_self] at hcount
    have hpos := List.count_pos_iff.mpr hmem
    omega

/-! ## Copies -/

/-- A copy of a group is added, and takes its place as a token of a holder. -/
def withCopy (g : Registers) (z : Holder) (i a : Nat) : Registers :=
  ({ g with store := (g.store.add (g.store.cell a)).2 } : Registers).putAt
    ((g.results z).setTokens ((g.results z).tokens.set i (.group g.store.cells.length))) z

section Copy

variable (hz : g.Grounded z) (htoken : (g.results z).tokens[i]? = some (.group a))
include hz

theorem results_withCopy (i a : Nat) (x : Holder) :
    (g.withCopy z i a).results x =
      if x = z then (g.results z).setTokens ((g.results z).tokens.set i (.group g.store.cells.length))
      else ({ g with store := (g.store.add (g.store.cell a)).2 } : Registers).results x :=
  results_putAt (hz.extend (List.prefix_append _ _)).grounded.has _ x

theorem updates_add_withCopy (i a : Nat) :
    ({ g with store := (g.store.add (g.store.cell a)).2 } : Registers).Updates (g.withCopy z i a) z :=
  ⟨(length_putAt _ _ z).ge, fun x _ hne => (results_withCopy hz i a x).trans (if_neg hne)⟩

theorem updates_withCopy (i a : Nat) : g.Updates (g.withCopy z i a) z := by
  have holder : g.store.cells <+: (g.store.add (g.store.cell a)).2.cells := List.prefix_append _ _
  refine ⟨holder.length_le.trans (updates_add_withCopy hz i a).length, fun x hx hne => ?_⟩
  rw [results_withCopy hz, if_neg hne]
  cases x with
  | group c => exact Store.cell_of_isPrefix holder hx
  | name n => rfl
  | hand => rfl

theorem ne_copy : Holder.group g.store.cells.length ≠ z := by
  rintro rfl
  exact Nat.lt_irrefl _ hz.has

theorem results_copy (i a : Nat) :
    (g.withCopy z i a).results (.group g.store.cells.length) = g.store.cell a := by
  rw [results_withCopy hz, if_neg (ne_copy hz)]
  exact Store.cell_add _

theorem without_withCopy : ((g.withCopy z i a).results z).without i = (g.results z).without i := by
  rw [results_withCopy hz, if_pos rfl]
  simp only [ResultsOf.without, ResultsOf.setTokens, List.eraseIdx_set_eq]

include htoken

theorem token_withCopy : ((g.withCopy z i a).results z).tokens[i]? = some (.group g.store.cells.length) := by
  obtain ⟨hi, -⟩ := List.getElem?_eq_some_iff.mp htoken
  rw [results_withCopy hz, if_pos rfl]
  exact List.getElem?_set_self hi

/-- The holder refers to the copy, and else to what it referred to. -/
theorem addresses_withCopy {c : Nat} (hc : c ∈ addresses ((g.withCopy z i a).results z)) :
    c = g.store.cells.length ∨ c ∈ addresses (g.results z) := by
  rcases List.mem_cons.mp ((addresses_perm_without (token_withCopy hz htoken)).mem_iff.mp hc) with heq | hc
  · exact Or.inl heq
  · rw [without_withCopy hz] at hc
    exact Or.inr (mem_addresses_of_without htoken hc)

/-- The copy shows what the group does, and is grounded. -/
theorem grounded_copy :
    (g.withCopy z i a).Grounded (.group g.store.cells.length) ∧
      (g.withCopy z i a).treeAt (.group g.store.cells.length) = g.treeAt (.group a) := by
  have hpoints : g.Points z (.group a) := ⟨a, mem_addresses_of_token htoken, rfl⟩
  have ha : g.Grounded (.group a) := hz.of_points hpoints
  obtain ⟨hcopy, htree⟩ := grounded_add (g := g) (r := g.store.cell a) fun c hc => ha.child hc
  -- the copy reaches what the group does, and so not the holder
  have hnot : ¬({ g with store := (g.store.add (g.store.cell a)).2 } : Registers).Reaches
      (.group g.store.cells.length) z := by
    intro hreach
    rcases hreach.cases_head with heq | ⟨y, ⟨c, hc, rfl⟩, hcz⟩
    · exact ne_copy hz heq
    · rw [results, Store.cell_add] at hc
      have hcz' : g.Reaches (.group c) z := (((ha.child hc).extend (List.prefix_append _ _)).reaches z).mp hcz
      exact hz.not_returns hpoints (hcz'.head ⟨c, hc, rfl⟩)
  have hkeeps := (updates_add_withCopy hz i a).keeps hcopy hnot
  exact ⟨hkeeps.grounded, hkeeps.tree.trans htree⟩

/-- The holder stays grounded, and shows what it did. -/
theorem grounded_withCopy : (g.withCopy z i a).Grounded z ∧ (g.withCopy z i a).treeAt z = g.treeAt z := by
  obtain ⟨hcopy, htree⟩ := grounded_copy hz htoken
  have hchild (c : Nat) (hc : c ∈ addresses (g.results z)) : g.Keeps (g.withCopy z i a) (.group c) :=
    (updates_withCopy hz i a).keeps (hz.child hc) (hz.not_returns ⟨c, hc, rfl⟩)
  constructor
  · refine .intro z ((updates_withCopy hz i a).has hz.has) fun c hc => ?_
    rcases addresses_withCopy hz htoken hc with rfl | hc
    · exact hcopy
    · exact (hchild c hc).grounded
  · have hvalue : (g.withCopy z i a).store.value (.group g.store.cells.length) =
        (g.withCopy z i a).store.value (.group a) := by
      have ha := hchild a (mem_addresses_of_token htoken)
      rw [hcopy.value_group, ha.grounded.value_group, htree, ha.tree]
    rw [treeAt, results_withCopy hz, if_pos rfl, Store.tree, ResultsOf.map_set_token htoken hvalue]
    exact tree_congr fun c hc => ⟨hz.child hc, hchild c hc⟩

/-- What is live was grounded before, but for the copy. -/
theorem live_withCopy (hs : g.Sound) (hy : (g.withCopy z i a).Live y) :
    y = .group g.store.cells.length ∨ g.Grounded y := by
  obtain ⟨root, hroot, hreach⟩ := hy
  induction hreach with
  | refl => exact Or.inr (hs root hroot)
  | @tail u w _ hstep ih =>
    obtain ⟨c, hc, rfl⟩ := hstep
    by_cases huz : u = z
    · subst huz
      rcases addresses_withCopy hz htoken hc with rfl | hc
      · exact Or.inl rfl
      · exact Or.inr (hz.child hc)
    · rcases ih with rfl | hu
      · rw [results_copy hz] at hc
        exact Or.inr ((hz.child (mem_addresses_of_token htoken)).child hc)
      · rw [(updates_withCopy hz i a).same u hu.has huz] at hc
        exact Or.inr (hu.child hc)

/-- Nothing that is live refers to the copy but the holder. -/
theorem eq_of_points_copy (hs : g.Sound) (hy : (g.withCopy z i a).Live y)
    (hpoints : (g.withCopy z i a).Points y (.group g.store.cells.length)) : y = z := by
  rcases live_withCopy hz htoken hs hy with rfl | hgrounded
  · exact absurd .refl ((grounded_copy hz htoken).1.not_returns hpoints)
  · by_contra hne
    have hmem := hpoints.refers
    rw [(updates_withCopy hz i a).same y hgrounded.has hne] at hmem
    exact Nat.lt_irrefl _ (hgrounded.child hmem).has

end Copy

/-- **A copy of a group that a private holder refers to is private**, and shows what the group does. -/
theorem private_copy (hs : g.Sound) (hp : g.Private name path z) (hhand : z ≠ .hand)
    (htoken : (g.results z).tokens[i]? = some (.group a)) :
    (g.withCopy z i a).ShowsAs g ∧ (g.withCopy z i a).Private name (path ++ [i]) (.group g.store.cells.length) := by
  have hz : g.Grounded z := hp.grounded hs
  obtain ⟨hz', hztree⟩ := grounded_withCopy hz htoken
  obtain ⟨hs', hp', htrees, hgroup, htop⟩ := hp.update hs (updates_withCopy hz i a) hz'
  have hsame (x : Holder) (hx : x.IsRoot) : (g.withCopy z i a).treeAt x = g.treeAt x := by
    by_cases hne : x = .name name
    · rw [hne, htop, hztree]
      exact ResultsOf.setGroupAt_self hgroup
    · exact htrees x hx hne
  have hhand' : (g.withCopy z i a).hand = g.hand := by
    cases z with
    | hand => exact absurd rfl hhand
    | name n => exact put_hand _ n _
    | group c => rfl
  refine ⟨⟨hs', hsame, hhand'⟩, hp'.snoc hs' (token_withCopy hz htoken) (fun y hy hyb => ?_) fun hmem => ?_⟩
  · exact eq_of_points_copy hz htoken hs hy hyb
  · rw [without_withCopy hz] at hmem
    exact Nat.lt_irrefl _ (hz.child (mem_addresses_of_without htoken hmem)).has

/-! ## Making groups on a path private -/

/-- A group token is made its own by copying the group, or as it is. -/
theorem ownToken_group (htoken : (g.results z).tokens[i]? = some (.group a)) :
    g.ownToken z i =
      if 1 < g.references a then some (g.store.cells.length, g.withCopy z i a) else some (a, g) := by
  simp only [ownToken, htoken, Store.add, withCopy]

theorem ownToken_none (htoken : ∀ a, (g.results z).tokens[i]? ≠ some (.group a)) : g.ownToken z i = none := by
  unfold ownToken
  dsimp only
  split
  · rename_i a ha
    exact absurd ha (htoken a)
  · rfl

/-- **A group token of a private holder that is made its own is private**, and the roots show what they did. -/
theorem ownToken_private (hs : g.Sound) (hp : g.Private name path z) (hhand : z ≠ .hand)
    (htoken : (g.results z).tokens[i]? = some (.group a)) :
    ∃ b g', g.ownToken z i = some (b, g') ∧ g'.ShowsAs g ∧ g'.Private name (path ++ [i]) (.group b) ∧
      g'.treeAt (.group b) = g.treeAt (.group a) := by
  rw [ownToken_group htoken]
  by_cases hcount : 1 < g.references a
  · rw [if_pos hcount]
    obtain ⟨hsame, hp'⟩ := private_copy hs hp hhand htoken
    exact ⟨_, _, rfl, hsame, hp', (grounded_copy (hp.grounded hs) htoken).2⟩
  · rw [if_neg hcount]
    exact ⟨a, g, rfl, .refl hs, private_of_references_le_one hs hp htoken (Nat.not_lt.mp hcount), rfl⟩

/-- A token of what a holder shows is a group only where the token that it holds is one. -/
theorem token_treeAt_ne_group (htoken : ∀ a, (g.results z).tokens[i]? ≠ some (.group a)) (inner : Packrat.Results) :
    (g.treeAt z).tokens[i]? ≠ some (.group inner) := by
  rw [treeAt, Store.tree, ResultsOf.map, List.getElem?_map]
  cases htoken' : (g.results z).tokens[i]? with
  | none => simp
  | some v =>
    cases v with
    | leaf l => simp [value_leaf]
    | group a => exact absurd htoken' (htoken a)

/-- **The group at the end of a path that is made its own is private**, and the roots show what they did. -/
theorem own_private (hs : g.Sound) (hp : g.Private name path z) (hhand : z ≠ .hand) (further : List Nat) :
    (g.own z further).2.ShowsAs g ∧
      match (g.own z further).1 with
      | some z' => (g.own z further).2.Private name (path ++ further) z' ∧ z' ≠ .hand ∧
          (g.treeAt z).groupAt? further = some ((g.own z further).2.treeAt z')
      | none => (g.treeAt z).groupAt? further = none := by
  induction further generalizing g z path with
  | nil =>
    rw [own, List.append_nil]
    exact ⟨.refl hs, hp, hhand, rfl⟩
  | cons i further ih =>
    rw [own]
    by_cases hgroup : ∃ a, (g.results z).tokens[i]? = some (.group a)
    · obtain ⟨a, htoken⟩ := hgroup
      obtain ⟨b, g', hown, hsame, hp', htree⟩ := ownToken_private hs hp hhand htoken
      obtain ⟨hsame', hend⟩ := ih hsame.sound hp' (by simp)
      rw [hown, ResultsOf.groupAt?, token_treeAt_group (hp.grounded hs) htoken, ← htree]
      rw [List.append_assoc] at hend
      exact ⟨hsame'.trans hsame, hend⟩
    · have htoken : ∀ a, (g.results z).tokens[i]? ≠ some (.group a) := not_exists.mp hgroup
      rw [ownToken_none htoken]
      exact ⟨.refl hs, ResultsOf.groupAt?_of_ne_group (token_treeAt_ne_group htoken)⟩

end Registers
end Shared
end Packrat
