import Packrat.Proofs.Sharing.Counting

/-!
# `Packrat.Proofs.Sharing.Paths` — groups to which a single way leads

An edit goes down a path of tokens to a group. It is safe to change the group in place when the path is the only way
to it: then the tree of the name that the path starts from changes at the end of the path, and no other tree does.

## Contents

* `ResultsOf.groupAt?`, `setGroupAt` — the group at the end of a path in a tree;
* `Registers.Along`, `Registers.Private` — the only way to a holder is along a path of a name;
* `Registers.Updates`, `Private.update` — **changing a private holder changes one tree, at the end of the path**;
* `Private.snoc` — a token of a private holder that nothing else refers to is private.
-/

namespace Packrat

/-! ## Paths in trees -/

namespace ResultsOf

/-- The group at the end of a path of token indices, if all on the way are groups. -/
def groupAt? (r : Results) : (path : List Nat) → Option Results
  | [] => some r
  | i :: path =>
    match r.tokens[i]? with
    | some (.group inner) => inner.groupAt? path
    | _ => none

/-- Results with another group at the end of a path. -/
def setGroupAt (r : Results) (path : List Nat) (new : Results) : Results :=
  match path with
  | [] => new
  | i :: path =>
    match r.tokens[i]? with
    | some (.group inner) => r.setTokens (r.tokens.set i (.group (inner.setGroupAt path new)))
    | _ => r

/-- There is no group at the end of a path that starts with a token that is none. -/
theorem groupAt?_of_ne_group {r : Results} {i : Nat} {path : List Nat}
    (h : ∀ inner, r.tokens[i]? ≠ some (.group inner)) : r.groupAt? (i :: path) = none := by
  unfold groupAt?
  split
  · rename_i inner hinner
    exact absurd hinner (h inner)
  · rfl

/-- A group in place of itself changes nothing. -/
theorem setGroupAt_self {r old : Results} {path : List Nat} (h : r.groupAt? path = some old) :
    r.setGroupAt path old = r := by
  induction path generalizing r with
  | nil =>
    cases h
    rfl
  | cons i path ih =>
    rw [groupAt?] at h
    rw [setGroupAt]
    split at h
    · rename_i inner htoken
      rw [ih h]
      obtain ⟨hi, hget⟩ := List.getElem?_eq_some_iff.mp htoken
      rw [← hget, List.set_getElem_self]
      rfl
    · cases h

/-- Results without the token at an index. -/
def without {α : Type} (r : ResultsOf α) (i : Nat) : ResultsOf α := r.setTokens (r.tokens.eraseIdx i)

variable {α β : Type} {r : ResultsOf α} {i : Nat} {v : α}

theorem values_perm_without (h : r.tokens[i]? = some v) : r.values.Perm (v :: (r.without i).values) := by
  obtain ⟨hi, rfl⟩ := List.getElem?_eq_some_iff.mp h
  exact ((List.getElem_cons_eraseIdx_perm hi).append_right _).symm

/-- A token in place of another for which a map has the same changes nothing that the map shows. -/
theorem map_set_token {f : α → β} {w : α} (h : r.tokens[i]? = some v) (hvw : f w = f v) :
    (r.setTokens (r.tokens.set i w)).map f = r.map f := by
  obtain ⟨hi, rfl⟩ := List.getElem?_eq_some_iff.mp h
  rw [map_setTokens, List.map_set, hvw, ← List.map_set, List.set_getElem_self]
  rfl

/-- Maps that agree but for one token change the results alike but for that token. -/
theorem map_set_of_without {f f' : α → β} (h : r.tokens[i]? = some v)
    (hrest : ∀ w ∈ (r.without i).values, f' w = f w) :
    r.map f' = (r.map f).setTokens ((r.map f).tokens.set i (f' v)) := by
  have hfields : (r.map f').fields = (r.map f).fields := by
    have hbare : (r.setTokens []).map f' = (r.setTokens []).map f :=
      map_congr fun w hw => hrest w (List.mem_append_right _ hw)
    exact (ResultsOf.mk.inj hbare).2.1
  have htokens : (r.map f').tokens = (r.map f).tokens.set i (f' v) := by
    refine List.ext_getElem? fun j => ?_
    rw [List.getElem?_set]
    simp only [ResultsOf.map, List.getElem?_map, List.length_map]
    by_cases hij : i = j
    · subst hij
      obtain ⟨hi, -⟩ := List.getElem?_eq_some_iff.mp h
      rw [if_pos rfl, if_pos hi, h, Option.map_some]
    · rw [if_neg hij]
      cases hj : r.tokens[j]? with
      | none => rfl
      | some w =>
        have hw : w ∈ (r.without i).values :=
          List.mem_append_left _ (List.mem_eraseIdx_iff_getElem?.mpr ⟨j, Ne.symm hij, hj⟩)
        rw [Option.map_some, Option.map_some, hrest w hw]
  calc r.map f' = ⟨(r.map f').tokens, (r.map f').fields, r.origin⟩ := rfl
    _ = _ := by rw [htokens, hfields]; rfl

end ResultsOf

namespace Shared

variable {g g' : Registers} {x y z : Holder} {a b i : Nat} {name : String} {path : List Nat}

theorem addresses_perm_without {r : Results} (h : r.tokens[i]? = some (.group a)) :
    (addresses r).Perm (a :: addresses (r.without i)) :=
  (ResultsOf.values_perm_without h).filterMap _

theorem mem_addresses_of_without {r : Results} (h : r.tokens[i]? = some (.group a))
    (hb : b ∈ addresses (r.without i)) : b ∈ addresses r :=
  (addresses_perm_without h).mem_iff.mpr (List.mem_cons_of_mem _ hb)

theorem mem_addresses_of_token {r : Results} (h : r.tokens[i]? = some (.group a)) : a ∈ addresses r :=
  (addresses_perm_without h).mem_iff.mpr List.mem_cons_self

namespace Registers

/-- A group token of what a holder shows is what the group shows. -/
theorem token_treeAt_group (hx : g.Grounded x) (htoken : (g.results x).tokens[i]? = some (.group a)) :
    (g.treeAt x).tokens[i]? = some (.group (g.treeAt (.group a))) := by
  rw [treeAt, Store.tree, ResultsOf.map, List.getElem?_map, htoken, Option.map_some,
    (hx.child (mem_addresses_of_token htoken)).value_group]

/-! ## Single ways -/

/-- A path of tokens leads from a holder to `z`, and nothing beside it does. -/
inductive Along (g : Registers) (z : Holder) : Holder → List Nat → Prop
  | here : Along g z z []
  | token {x : Holder} {i a : Nat} {path : List Nat} (token : (g.results x).tokens[i]? = some (.group a))
      (rest : ∀ b ∈ addresses ((g.results x).without i), ¬g.Reaches (.group b) z)
      (further : Along g z (.group a) path) : Along g z x (i :: path)

/-- Following references from every root ends. -/
def Sound (g : Registers) : Prop := ∀ x : Holder, x.IsRoot → g.Grounded x

/-- The only way to a holder is along a path of a name. -/
structure Private (g : Registers) (name : String) (path : List Nat) (z : Holder) : Prop where
  along : g.Along z (.name name) path
  others : ∀ x : Holder, x.IsRoot → x ≠ .name name → ¬g.Reaches x z

theorem Along.reaches (h : g.Along z x path) : g.Reaches x z := by
  induction h with
  | here => exact .refl
  | token htoken _ _ ih => exact ih.head ⟨_, mem_addresses_of_token htoken, rfl⟩

theorem Private.grounded (h : g.Private name path z) (hs : g.Sound) : g.Grounded z :=
  (hs (.name name) trivial).of_reaches h.along.reaches

theorem Private.live (h : g.Private name path z) : g.Live z := ⟨.name name, trivial, h.along.reaches⟩

/-- A name is at the end of the empty path, and nothing refers to it. -/
theorem private_name (g : Registers) (name : String) : g.Private name [] (.name name) :=
  ⟨.here, fun _ _ hne => not_reaches_root trivial hne⟩

/-! ## Updates -/

/-- Registers that differ at one holder, and by further groups. -/
structure Updates (g g' : Registers) (z : Holder) : Prop where
  length : g.store.cells.length ≤ g'.store.cells.length
  same : ∀ x, g.Has x → x ≠ z → g'.results x = g.results x

/-- What does not reach the holder of an update is left alone by it. -/
theorem Updates.keeps (hu : g.Updates g' z) (hx : g.Grounded x) (hz : ¬g.Reaches x z) : g.Keeps g' x := by
  refine hx.keeps hu.length fun y hy => hu.same y (hx.of_reaches hy).has ?_
  rintro rfl
  exact hz hy

theorem Updates.has (hu : g.Updates g' z) (hx : g.Has x) : g'.Has x := by
  cases x with
  | group a => exact Nat.lt_of_lt_of_le hx hu.length
  | name n => trivial
  | hand => trivial

/-- On the way to the holder of an update, the tree changes at the end of the way. -/
theorem Along.update (h : g.Along z x path) (hx : g.Grounded x) (hu : g.Updates g' z) (hz : g'.Grounded z) :
    g'.Along z x path ∧ g'.Grounded x ∧ (g.treeAt x).groupAt? path = some (g.treeAt z) ∧
      g'.treeAt x = (g.treeAt x).setGroupAt path (g'.treeAt z) := by
  induction h with
  | here => exact ⟨.here, hz, rfl, rfl⟩
  | @token x i a path htoken hrest hfurther ih =>
    have hpoints : g.Points x (.group a) := ⟨a, mem_addresses_of_token htoken, rfl⟩
    have hxz : x ≠ z := by
      rintro rfl
      exact hx.not_returns hpoints hfurther.reaches
    have hresults : g'.results x = g.results x := hu.same x hx.has hxz
    obtain ⟨halong, hgrounded, hgroup, htree⟩ := ih (hx.of_points hpoints)
    have hkeeps (b : Nat) (hb : b ∈ addresses ((g.results x).without i)) : g.Keeps g' (.group b) :=
      hu.keeps (hx.child (mem_addresses_of_without htoken hb)) (hrest b hb)
    have hvalue : (g.treeAt x).tokens[i]? = some (.group (g.treeAt (.group a))) := token_treeAt_group hx htoken
    refine ⟨.token (by rwa [hresults]) ?_ halong, .intro x (hu.has hx.has) ?_, ?_, ?_⟩
    · intro b hb
      rw [hresults] at hb
      exact fun hbz => hrest b hb (((hkeeps b hb).reaches z).mp hbz)
    · intro b hb
      rw [hresults] at hb
      rcases List.mem_cons.mp ((addresses_perm_without htoken).mem_iff.mp hb) with rfl | hb
      · exact hgrounded
      · exact (hkeeps b hb).grounded
    · rw [ResultsOf.groupAt?, hvalue]
      exact hgroup
    · rw [ResultsOf.setGroupAt, hvalue]
      simp only
      rw [← htree, ← hgrounded.value_group, treeAt, treeAt, hresults]
      refine ResultsOf.map_set_of_without htoken fun w hw => ?_
      cases w with
      | leaf l => rw [value_leaf, value_leaf]
      | group b =>
        have hb : b ∈ addresses ((g.results x).without i) := mem_addresses.mpr hw
        rw [(hkeeps b hb).grounded.value_group, (hkeeps b hb).tree,
          (hx.child (mem_addresses_of_without htoken hb)).value_group]

/-- **Changing a private holder changes the tree of the name that the path starts from, at the end of the path**, and
no other tree of a root. -/
theorem Private.update (h : g.Private name path z) (hs : g.Sound) (hu : g.Updates g' z) (hz : g'.Grounded z) :
    g'.Sound ∧ g'.Private name path z ∧ (∀ x : Holder, x.IsRoot → x ≠ .name name → g'.treeAt x = g.treeAt x) ∧
      (g.treeAt (.name name)).groupAt? path = some (g.treeAt z) ∧
      g'.treeAt (.name name) = (g.treeAt (.name name)).setGroupAt path (g'.treeAt z) := by
  obtain ⟨halong, hgrounded, hgroup, htree⟩ := h.along.update (hs _ trivial) hu hz
  have hkeeps (x : Holder) (hx : x.IsRoot) (hne : x ≠ .name name) : g.Keeps g' x :=
    hu.keeps (hs x hx) (h.others x hx hne)
  refine ⟨fun x hx => ?_, ⟨halong, fun x hx hne hreach => ?_⟩, fun x hx hne => (hkeeps x hx hne).tree, hgroup, htree⟩
  · by_cases hne : x = .name name
    · rw [hne]
      exact hgrounded
    · exact (hkeeps x hx hne).grounded
  · exact h.others x hx hne (((hkeeps x hx hne).reaches z).mp hreach)

/-! ## Longer paths -/

/-- A way to a holder goes on to a group that only the holder refers to, by one token. -/
theorem Along.snoc (h : g.Along z x path) (hx : g.Grounded x) (hlive : g.Live x)
    (htoken : (g.results z).tokens[i]? = some (.group a))
    (honly : ∀ y, g.Live y → g.Points y (.group a) → y = z) (honce : a ∉ addresses ((g.results z).without i)) :
    g.Along (.group a) x (path ++ [i]) := by
  induction h with
  | here =>
    refine .token htoken (fun b hb hreach => ?_) .here
    have hpoints : g.Points z (.group b) := ⟨b, mem_addresses_of_without htoken hb, rfl⟩
    rcases hreach.cases_tail with heq | ⟨y, hby, hya⟩
    · cases heq
      exact honce hb
    · rw [honly y (hlive.of_reaches (hby.head hpoints)) hya] at hby
      exact hx.not_returns hpoints hby
  | @token x j c path htoken' hrest hfurther ih =>
    have hpoints : g.Points x (.group c) := ⟨c, mem_addresses_of_token htoken', rfl⟩
    refine .token htoken' (fun b hb hreach => ?_) (ih (hx.of_points hpoints) (hlive.of_reaches (.single hpoints)))
    have hpointsb : g.Points x (.group b) := ⟨b, mem_addresses_of_without htoken' hb, rfl⟩
    rcases hreach.cases_tail with heq | ⟨y, hby, hya⟩
    · cases heq
      rw [← honly x hlive hpointsb] at hfurther
      exact hx.not_returns hpoints hfurther.reaches
    · rw [honly y (hlive.of_reaches (hby.head hpointsb)) hya] at hby
      exact hrest b hb hby

/-- **A group that only a private holder refers to, by one token, is private.** -/
theorem Private.snoc (h : g.Private name path z) (hs : g.Sound)
    (htoken : (g.results z).tokens[i]? = some (.group a))
    (honly : ∀ y, g.Live y → g.Points y (.group a) → y = z) (honce : a ∉ addresses ((g.results z).without i)) :
    g.Private name (path ++ [i]) (.group a) := by
  refine ⟨h.along.snoc (hs _ trivial) ⟨.name name, trivial, .refl⟩ htoken honly honce, fun x hx hne hreach => ?_⟩
  rcases hreach.cases_tail with rfl | ⟨y, hxy, hya⟩
  · exact hx
  · rw [honly y ⟨x, hx, hxy⟩ hya] at hxy
    exact h.others x hx hne hxy

end Registers
end Shared
end Packrat
