import Packrat.Proofs.Sharing.Ownership

/-!
# `Packrat.Proofs.Sharing.Operations` — operations on shared groups are operations on trees

Each operation on registers does to what the names show what it would do to trees: the groups that it changes in place
are private by then.

## Contents

* `Trees` and its operations — results by name, with nothing shared;
* `Registers.Shows` — registers whose names show given trees;
* `Shows.put`, `assign`, `copy`, `append`, `pushGroup` — operations that replace the results of a name;
* `Shows.editAt` — **an edit at the end of a path changes the tree of the name there**, and answers as it does on
  trees.
-/

namespace Packrat
namespace Shared

/-- Results by name, as trees. -/
abbrev Trees := String → Packrat.Results

namespace Trees

/-- The value at a place; an empty string where there is none. -/
def pick (t : Trees) : Place → Value
  | .token name i => ((t name).tokens[i]?).getD (.str "")
  | .field name label => ((t name).get? label).getD (.str "")

/-- A change with its values. -/
def load (t : Trees) : Change → Edit Value
  | .made e => e
  | .held e => e.map t.pick

/-- Edits the results of a name, or the group at the end of a path of token indices. -/
def editAt (t : Trees) (name : String) (path : List Nat) (c : Change) : Reply × Trees :=
  match (t name).groupAt? path with
  | none => (.noGroup, t)
  | some r =>
    match (t.load c).apply r with
    | none => (.refused, t)
    | some (taken, r) => (.taken taken, Function.update t name ((t name).setGroupAt path r))

end Trees

namespace Registers

variable {g g' : Registers} {s : Store} {t : Trees} {x y z : Holder} {a b : Nat} {name : String} {path : List Nat}
  {r : Results}

/-- Registers whose names show given trees. -/
structure Shows (g : Registers) (t : Trees) : Prop where
  sound : g.Sound
  tree_eq : g.tree = t

theorem Sound.shows (h : g.Sound) : g.Shows g.tree := ⟨h, rfl⟩

theorem Shows.treeAt_name (h : g.Shows t) (n : String) : g.treeAt (.name n) = t n := congrFun h.tree_eq n

/-- What a name holds is grounded. -/
theorem Sound.grounded_get (h : g.Sound) (name : String) (ha : a ∈ addresses (g.get name)) : g.Grounded (.group a) :=
  (h (.name name) trivial).child ha

/-! ## Results in place of others -/

/-- Further groups change nothing that names show. -/
theorem Shows.extend (h : g.Shows t) (hs : g.store.cells <+: s.cells) :
    ({ g with store := s } : Registers).Shows t := by
  refine ⟨fun x hx => ((h.sound x hx).extend hs).grounded, ?_⟩
  funext n
  exact ((h.sound (.name n) trivial).extend hs).tree.trans (h.treeAt_name n)

theorem updates_putAt (hz : g.Has z) (r : Results) : g.Updates (g.putAt r z) z :=
  ⟨(length_putAt g r z).ge, fun x _ hne => (results_putAt hz r x).trans (if_neg hne)⟩

/-- **A private holder that is given other results shows these at the end of its path**, and nothing else changes. -/
theorem Shows.putAt (h : g.Shows t) (hp : g.Private name path z)
    (hr : ∀ a ∈ addresses r, g.Grounded (.group a) ∧ ¬g.Reaches (.group a) z) :
    (g.putAt r z).Shows (Function.update t name ((t name).setGroupAt path (g.store.tree r))) := by
  have hhas : g.Has z := (hp.grounded h.sound).has
  have hu : g.Updates (g.putAt r z) z := updates_putAt hhas r
  have hresults : (g.putAt r z).results z = r := (results_putAt hhas r z).trans (if_pos rfl)
  have hnew (a : Nat) (ha : a ∈ addresses r) : g.Keeps (g.putAt r z) (.group a) := hu.keeps (hr a ha).1 (hr a ha).2
  have hz : (g.putAt r z).Grounded z := by
    refine .intro z (hu.has hhas) fun a ha => ?_
    rw [hresults] at ha
    exact (hnew a ha).grounded
  have htree : (g.putAt r z).treeAt z = g.store.tree r := by
    rw [treeAt, hresults]
    exact tree_congr fun a ha => ⟨(hr a ha).1, hnew a ha⟩
  obtain ⟨hs', -, htrees, -, htop⟩ := hp.update h.sound hu hz
  refine ⟨hs', ?_⟩
  funext n
  by_cases hn : n = name
  · subst hn
    rw [Function.update_self, ← h.treeAt_name n, ← htree]
    exact htop
  · rw [Function.update_of_ne hn, ← h.treeAt_name n]
    exact htrees (.name n) trivial (by simpa using hn)

/-- A name that is given other results shows these, and the others show what they did. -/
theorem Shows.put (h : g.Shows t) (name : String) {r : Results} (hr : ∀ a ∈ addresses r, g.Grounded (.group a)) :
    (g.put name r).Shows (Function.update t name (g.store.tree r)) :=
  h.putAt (private_name g name) fun a ha => ⟨hr a ha, not_reaches_root trivial (by simp)⟩

/-- A name that is given results made from a tree shows the tree. -/
theorem Shows.assign (h : g.Shows t) (name : String) (r : Packrat.Results) :
    (g.assign name r).Shows (Function.update t name r) := by
  obtain ⟨hbrings, htree⟩ := g.store.allocateResults_brings r
  have hput := (h.extend hbrings.grows.older).put name (r := (g.store.allocateResults r).1) fun a ha => by
    obtain ⟨hle, hlt⟩ := hbrings.fresh a (mem_addresses.mp ha)
    exact (hbrings.grows.grounded (g := { g with store := (g.store.allocateResults r).2 }) hle hlt).1
  rwa [htree] at hput

/-- A name that is given results made from a tree reaches new groups only, and the others what they did. -/
theorem Shows.reaches_assign (h : g.Shows t) (name : String) (r : Packrat.Results) :
    (∀ a, (g.assign name r).Reaches (.name name) (.group a) → g.store.cells.length ≤ a) ∧
      ∀ other a, other ≠ name → (g.assign name r).Reaches (.name other) (.group a) →
        g.Reaches (.name other) (.group a) := by
  obtain ⟨hbrings, -⟩ := g.store.allocateResults_brings r
  let g₁ : Registers := { g with store := (g.store.allocateResults r).2 }
  have hu : g₁.Updates (g.assign name r) (.name name) := updates_putAt (z := .name name) trivial _
  have hget : (g.assign name r).results (.name name) = (g.store.allocateResults r).1 :=
    (get_put g₁ name name _).trans (if_pos rfl)
  constructor
  · intro a hreach
    rcases hreach.cases_head with heq | ⟨y, ⟨b, hb, rfl⟩, hba⟩
    · cases heq
    · rw [hget] at hb
      obtain ⟨hle, hlt⟩ := hbrings.fresh b (mem_addresses.mp hb)
      obtain ⟨hgrounded, hnew⟩ := hbrings.grows.grounded (g := g₁) hle hlt
      exact hnew a (((hu.keeps hgrounded (not_reaches_root trivial (by simp))).reaches _).mp hba)
  · intro other a hne hreach
    have hkeeps : g.Keeps g₁ (.name other) := (h.sound (.name other) trivial).extend hbrings.grows.older
    have hnot : ¬g₁.Reaches (.name other) (.name name) := not_reaches_root trivial (by simpa using hne)
    exact (hkeeps.reaches _).mp (((hu.keeps hkeeps.grounded hnot).reaches _).mp hreach)

theorem Shows.copy (h : g.Shows t) (name source : String) :
    (g.copy name source).Shows (Function.update t name (t source)) := by
  rw [← h.treeAt_name source]
  exact h.put name fun a ha => h.sound.grounded_get source ha

theorem Shows.deepCopy (h : g.Shows t) (name source : String) :
    (g.deepCopy name source).Shows (Function.update t name (t source)) := by
  rw [← h.treeAt_name source]
  exact h.assign name (g.tree source)

theorem Shows.append (h : g.Shows t) (name other : String) :
    (g.append name other).Shows (Function.update t name ((t name).extend (t other))) := by
  have hvalues := Edit.apply_values (r := g.get name) (e := .extend (g.get other)) rfl
  have hput := h.put name (r := (g.get name).extend (g.get other)) fun a ha => by
    rcases hvalues.1 _ (mem_addresses.mp ha) with hmem | hmem
    · exact h.sound.grounded_get name (mem_addresses.mpr hmem)
    · exact h.sound.grounded_get other (mem_addresses.mpr hmem)
  rw [Store.tree, ResultsOf.map_extend] at hput
  rw [← h.treeAt_name name, ← h.treeAt_name other]
  exact hput

theorem Shows.pushGroup (h : g.Shows t) (name other : String) :
    (g.pushGroup name other).Shows (Function.update t name ((t name).push (.group (t other)))) := by
  let g₁ : Registers := { g with store := (g.store.add (g.get other)).2 }
  have h₁ : g₁.Shows t := h.extend (List.prefix_append _ _)
  obtain ⟨hcopy, htree⟩ := grounded_add (g := g) (r := g.get other) fun a ha => h.sound.grounded_get other ha
  have hvalues := Edit.apply_values (r := g.get name) (e := .push (.group g.store.cells.length)) rfl
  have hput := h₁.put name (r := (g.get name).push (.group g.store.cells.length)) fun a ha => by
    rcases hvalues.1 _ (mem_addresses.mp ha) with hmem | hmem
    · exact h₁.sound.grounded_get name (mem_addresses.mpr hmem)
    · cases List.mem_singleton.mp hmem
      exact hcopy
  have hname : (g.get name).map g₁.store.value = t name := h₁.treeAt_name name
  rw [Store.tree, ResultsOf.map_push, hname, hcopy.value_group, htree] at hput
  rw [← h.treeAt_name other]
  exact hput

/-! ## Edits -/

/-- Registers with other values in hand show what they did. -/
theorem Shows.withHand (h : g.Shows t) (hr : ∀ a ∈ addresses r, g.Grounded (.group a)) :
    ({ g with hand := r } : Registers).Shows t := by
  have hu : g.Updates { g with hand := r } .hand := updates_putAt (z := .hand) trivial r
  have hname (n : String) : g.Keeps { g with hand := r } (.name n) :=
    hu.keeps (h.sound (.name n) trivial) (not_reaches_root trivial (by simp))
  refine ⟨fun x hx => ?_, ?_⟩
  · cases x with
    | name n => exact (hname n).grounded
    | hand => exact .intro _ trivial fun a ha => (hu.keeps (hr a ha) (not_reaches_root trivial (by simp))).grounded
    | group a => exact hx.elim
  · funext n
    exact (hname n).tree.trans (h.treeAt_name n)

/-- Registers with nothing in hand show what they did. -/
theorem Shows.emptyHand (h : g.Shows t) : ({ g with hand := {} } : Registers).Shows t :=
  h.withHand fun a ha => by cases ha

/-- The value at a place of registers shows the one at the place in the trees. -/
theorem Shows.value_pick (h : g.Shows t) (p : Place) :
    g.store.value (g.pick p) = t.pick p ∧ ∀ a, g.pick p = .group a → g.Grounded (.group a) := by
  cases p with
  | token n i =>
    have hshown : (t n).tokens[i]? = ((g.get n).tokens[i]?).map g.store.value := by
      rw [← h.treeAt_name n]
      exact List.getElem?_map
    simp only [pick, Trees.pick, hshown]
    cases htoken : (g.get n).tokens[i]? with
    | none => exact ⟨value_leaf _ _, by simp⟩
    | some v =>
      refine ⟨rfl, fun a ha => h.sound.grounded_get n (mem_addresses_of_token (i := i) ?_)⟩
      rw [htoken, ← ha]
      rfl
  | field n label =>
    have hshown : (t n).get? label = ((g.get n).get? label).map g.store.value := by
      rw [← h.treeAt_name n]
      exact ResultsOf.get?_map _ _ _
    simp only [pick, Trees.pick, hshown]
    cases hfield : (g.get n).get? label with
    | none => exact ⟨value_leaf _ _, by simp⟩
    | some v =>
      refine ⟨rfl, fun a ha => h.sound.grounded_get n (mem_addresses.mpr ?_)⟩
      rw [← show v = .group a from ha]
      exact ResultsOf.mem_values_of_get? hfield

/-- A change that is loaded shows the change on trees, and the values that it brings in are grounded. -/
theorem Shows.load (h : g.Shows t) (c : Change) :
    g.store.cells <+: (g.load c).2.cells ∧ (g.load c).1.map (g.load c).2.value = t.load c ∧
      ∀ a, .group a ∈ (g.load c).1.values → ({ g with store := (g.load c).2 } : Registers).Grounded (.group a) := by
  cases c with
  | made e =>
    obtain ⟨hbrings, hmap⟩ := g.store.allocateEdit_brings e
    refine ⟨hbrings.grows.older, hmap, fun a ha => ?_⟩
    obtain ⟨hle, hlt⟩ := hbrings.fresh a ha
    exact (hbrings.grows.grounded (g := { g with store := (g.load (.made e)).2 }) hle hlt).1
  | held e =>
    refine ⟨List.prefix_refl _, ?_, fun a ha => ?_⟩
    · show (e.map g.pick).map g.store.value = e.map t.pick
      rw [Edit.map_map]
      exact Edit.map_congr fun p _ => (h.value_pick p).1
    · obtain ⟨p, -, hp⟩ := List.mem_map.mp ((Edit.values_map g.pick e) ▸ ha)
      exact (h.value_pick p).2 a hp

/-- An edit of a private holder does to the tree at the end of the path what it does there. -/
theorem Shows.apply (h : g.Shows t) (hp : g.Private name path z) {e : Edit Ref}
    (he : ∀ a, .group a ∈ e.values → g.Grounded (.group a) ∧ ¬g.Reaches (.group a) z) :
    match e.apply (g.results z) with
    | none => (e.map g.store.value).apply (g.treeAt z) = none
    | some (taken, r) =>
      (e.map g.store.value).apply (g.treeAt z) = some (taken.map g.store.value, g.store.tree r) ∧
        (g.putAt r z).Shows (Function.update t name ((t name).setGroupAt path (g.store.tree r))) := by
  have happly : (e.map g.store.value).apply (g.treeAt z) =
      (e.apply (g.results z)).map fun (taken, r) => (taken.map g.store.value, g.store.tree r) :=
    Edit.apply_map g.store.value (g.results z) e
  rw [happly]
  cases hedit : e.apply (g.results z) with
  | none => rfl
  | some edited =>
    obtain ⟨taken, r⟩ := edited
    refine ⟨rfl, h.putAt hp fun a ha => ?_⟩
    have hz : g.Grounded z := hp.grounded h.sound
    rcases (Edit.apply_values hedit).1 _ (mem_addresses.mp ha) with hmem | hmem
    · exact ⟨hz.child (mem_addresses.mpr hmem), hz.not_returns ⟨a, mem_addresses.mpr hmem, rfl⟩⟩
    · exact he a hmem

/-- **An edit at the end of a path changes the tree of the name there**, and answers as it does on trees. -/
theorem Shows.editAt (h : g.Shows t) (name : String) (path : List Nat) (c : Change) :
    (g.editAt name path c).1 = (t.editAt name path c).1 ∧
      (g.editAt name path c).2.Shows (t.editAt name path c).2 := by
  obtain ⟨hold, hload, hbrought⟩ := h.load c
  let g₁ : Registers := { g with store := (g.load c).2, hand := .ofTokens (g.load c).1.values }
  have hinhand (a : Nat) : a ∈ addresses g₁.hand ↔ .group a ∈ (g.load c).1.values := by
    rw [mem_addresses]
    simp [ResultsOf.values, ResultsOf.ofTokens, g₁]
  -- what the change brings in is in hand, and counts from there on
  have h₁ : g₁.Shows t := (h.extend hold).withHand fun a ha => hbrought a ((hinhand a).mp ha)
  obtain ⟨hsame, hend⟩ := own_private h₁.sound (private_name g₁ name) (by simp) path
  rw [h₁.treeAt_name name] at hend
  unfold Registers.editAt Trees.editAt
  simp only
  rcases hown : g₁.own (.name name) path with ⟨z, g₂⟩
  rw [hown] at hsame hend
  have h₂ : g₂.Shows t :=
    ⟨hsame.sound, funext fun n => (hsame.trees (.name n) trivial).trans (h₁.treeAt_name n)⟩
  cases z with
  | none =>
    simp only at hend
    rw [hend]
    exact ⟨rfl, h₂.emptyHand⟩
  | some z =>
    obtain ⟨hp, hz, hgroup⟩ := hend
    have hbrings (a : Nat) (ha : .group a ∈ (g.load c).1.values) :
        g₂.Grounded (.group a) ∧ ¬g₂.Reaches (.group a) z := by
      have hmem : a ∈ addresses (g₂.results .hand) := by
        rw [results, hsame.hand]
        exact (hinhand a).mpr ha
      refine ⟨(h₂.sound .hand trivial).child hmem, fun hreach => ?_⟩
      exact hp.others .hand trivial (by simp) (hreach.head ⟨a, hmem, rfl⟩)
    have hvalues : (g.load c).1.map g₂.store.value = t.load c := by
      rw [← hload]
      have hshown : g₂.store.tree g₂.hand = g₁.store.tree g₁.hand := hsame.trees .hand trivial
      rw [show g₂.hand = g₁.hand from hsame.hand] at hshown
      exact Edit.map_congr (List.map_inj_left.mp (ResultsOf.mk.inj hshown).1)
    have hedit := h₂.apply hp hbrings
    rw [hvalues] at hedit
    rw [hgroup]
    simp only
    cases happly : (g.load c).1.apply (g₂.results z) with
    | none =>
      rw [happly] at hedit
      simp only at hedit ⊢
      rw [hedit]
      exact ⟨rfl, h₂.emptyHand⟩
    | some edited =>
      obtain ⟨taken, r⟩ := edited
      rw [happly] at hedit
      obtain ⟨htrees, hshows⟩ := hedit
      simp only
      rw [htrees]
      exact ⟨rfl, hshows.emptyHand⟩

end Registers
end Shared
end Packrat
