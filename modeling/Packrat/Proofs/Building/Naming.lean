import Packrat.Proofs.Analysis.Cycles

/-!
# `Packrat.Proofs.Building.Naming` — when building comes to an end

The loops of building end for any nodes: searches look at each node once, and saturated sets only grow. The default
names do not: the name of a node is made of the names of children, without a guard, and ends only where no node is
part of its own name. Forwards are called by their labels and nodes with a name of their own by that, so a builder
that refers to nodes already made has no such circle. The checks do not exclude the others: they let a reference to a
later node pass.

## Contents

* `Node.nameParts`, `isSome_nameAt?_succ` — the nodes that the name of a node is made of;
* `isSome_nameOf?_iff` — **the depth of naming is enough**: a name that is not found by then is found at no depth;
* `nameOf?_eq`, `nameOf?_passDown` — names are made of names, whatever is ignored;
* `Builder.NamesEnd`, `build_returns_iff` — **building comes to an end when no name contains itself**;
* `Builder.Made.namesEnd` — **names of builders that use only what they made end**.
-/

namespace Packrat

/-! ## What names are made of -/

/-- The children whose names make up the default name of an expression. -/
def NodeKind.nameParts : NodeKind → List ExprId
  | .sequence cs | .orderedChoice cs | .longestChoice cs | .each cs => cs
  | .repetition c _ _ _ | .optional c _ | .lookahead c | .notAhead c | .precededBy c _ | .transform c _ | .named c _ _
  | .group c | .dict c | .suppress c | .combine c _ | .originalText c | .skipTo c _ _ => [c]
  | .forward _ _ | .literal _ _ | .keyword _ _ _ | .word _ _ _ _ | .charsNotIn _ _ _ | .pattern _ _ | .empty
  | .noMatch | .stringStart | .stringEnd | .lineStart | .lineEnd | .wordStart _ | .wordEnd _ | .commit => []

/-- The nodes whose names make up the name of a node; none when it has a name of its own. -/
def Node.nameParts (n : Node) : List ExprId :=
  match n.customName with
  | some _ => []
  | none => n.kind.nameParts

/-- The nodes whose names make up the name of the node at an index. -/
def nameEdges (nodes : Array Node) (i : ExprId) : List ExprId := edgesOf nodes Node.nameParts i

/-- Names are put together from children. -/
theorem NodeKind.nameParts_subset (k : NodeKind) : k.nameParts ⊆ k.children := by
  cases k with
  | forward => exact List.nil_subset _
  | repetition | skipTo => exact List.cons_subset_cons _ (List.nil_subset _)
  | _ => exact List.Subset.refl _

theorem isSome_mapM_iff {α β : Type} {f : α → Option β} {as : List α} :
    (as.mapM f).isSome ↔ ∀ a ∈ as, (f a).isSome := by
  induction as with
  | nil => simp
  | cons a as ih =>
    rw [List.mapM_cons, List.forall_mem_cons, ← ih]
    cases f a <;> cases as.mapM f <;> simp

/-- A default name is there when all its parts are. -/
theorem NodeKind.isSome_defaultName?_iff {name? : ExprId → Option Text} (k : NodeKind) :
    (k.defaultName? name?).isSome ↔ ∀ j ∈ k.nameParts, (name? j).isSome := by
  cases k with
  | sequence cs | orderedChoice cs | longestChoice cs | each cs =>
    simp only [defaultName?, nameParts, Option.isSome_map, isSome_mapM_iff]
  | _ => simp [defaultName?, nameParts]

/-- A default name depends on the names of its parts only. -/
theorem NodeKind.defaultName?_congr {name? name?' : ExprId → Option Text} (k : NodeKind)
    (h : ∀ j ∈ k.nameParts, name? j = name?' j) : k.defaultName? name? = k.defaultName? name?' := by
  have hrow {cs : List ExprId} (hcs : ∀ j ∈ cs, name? j = name?' j) : cs.mapM name? = cs.mapM name?' := by
    induction cs with
    | nil => rfl
    | cons c cs ih =>
      rw [List.forall_mem_cons] at hcs
      rw [List.mapM_cons, List.mapM_cons, hcs.1, ih hcs.2]
  cases k with
  | sequence cs | orderedChoice cs | longestChoice cs | each cs => exact congrArg (Option.map _) (hrow h)
  | _ => simp_all [defaultName?, nameParts]

section Depth

variable {nodes : Array Node} {i : ExprId} {depth : Nat}

/-- **One step of naming**: a name is there when those it is made of are there one level less deep. -/
theorem isSome_nameAt?_succ :
    (nameAt? nodes (depth + 1) i).isSome ↔ ∀ j ∈ nameEdges nodes i, (nameAt? nodes depth j).isSome := by
  unfold nameEdges edgesOf
  rw [nameAt?]
  cases nodes[i]? with
  | none => simp
  | some n =>
    cases hname : n.customName with
    | some name => simp [Node.nameParts, hname]
    | none => simp [Node.nameParts, hname, NodeKind.isSome_defaultName?_iff]

theorem isSome_nameAt?_mono {depth' : Nat} (hle : depth ≤ depth') (h : (nameAt? nodes depth i).isSome) :
    (nameAt? nodes depth' i).isSome := by
  induction depth generalizing depth' i with
  | zero => exact absurd h (by simp [nameAt?])
  | succ depth ih =>
    cases depth' with
    | zero => omega
    | succ depth' =>
      rw [isSome_nameAt?_succ] at h ⊢
      exact fun j hj => ih (Nat.le_of_succ_le_succ hle) (h j hj)

/-- A name that is found is the one that is found at any greater depth. -/
theorem nameAt?_of_le {depth' : Nat} {t : Text} (hle : depth ≤ depth') (h : nameAt? nodes depth i = some t) :
    nameAt? nodes depth' i = some t := by
  induction depth generalizing depth' i t with
  | zero => exact absurd h (by simp [nameAt?])
  | succ depth ih =>
    cases depth' with
    | zero => omega
    | succ depth' =>
      have hparts := isSome_nameAt?_succ.mp (Option.isSome_of_eq_some h)
      rw [nameAt?] at h ⊢
      cases hn : nodes[i]? with
      | none => rwa [hn] at h
      | some n =>
        rw [hn] at h
        cases hname : n.customName with
        | some name => simpa only [hname] using h
        | none =>
          simp only [hname] at h ⊢
          rw [← h]
          refine (n.kind.defaultName?_congr fun j hj => ?_).symm
          have hj : j ∈ nameEdges nodes i := by rwa [nameEdges, edgesOf_of_getElem? hn, Node.nameParts, hname]
          obtain ⟨s, hs⟩ := Option.isSome_iff_exists.mp (hparts j hj)
          rw [hs, ih (Nat.le_of_succ_le_succ hle) hs]

/-- **Names are made of names**: one that is found is the default name given the names of all nodes. -/
theorem nameOf?_eq {n : Node} (hn : nodes[i]? = some n) (hname : n.customName = none) (h : (nameOf? nodes i).isSome) :
    nameOf? nodes i = n.kind.defaultName? (nameOf? nodes) := by
  obtain ⟨t, ht⟩ := Option.isSome_iff_exists.mp h
  have hdeeper := nameAt?_of_le (Nat.le_succ _) ht
  rw [nameAt?, hn] at hdeeper
  simp only [hname] at hdeeper
  exact ht.trans hdeeper.symm

theorem nameEdges_eq_nil (h : nodes.size ≤ i) : nameEdges nodes i = [] := by
  rw [nameEdges, edgesOf, Array.getElem?_eq_none_iff.mpr h]
  rfl

theorem follows_nameEdges {j : ExprId} (hj : j ∈ nameEdges nodes i) :
    Follows (nameEdges nodes) nodes.size i j := by
  refine ⟨Nat.lt_of_not_le fun hle => ?_, hj⟩
  rw [nameEdges_eq_nil hle] at hj
  exact List.not_mem_nil hj

/-- A node that is part of its own name has a name at no depth: its part on the circle has none one level less
deep. -/
theorem nameAt?_of_cycle (h : Relation.TransGen (Follows (nameEdges nodes) nodes.size) i i) (depth : Nat) :
    ¬ (nameAt? nodes depth i).isSome := by
  induction depth generalizing i with
  | zero => simp [nameAt?]
  | succ depth ih =>
    rw [isSome_nameAt?_succ]
    intro hall
    obtain ⟨j, hij, hji⟩ := Relation.TransGen.head'_iff.mp h
    exact ih (Relation.TransGen.tail' hji hij) (hall j hij.2)

/-- The parts of names lead away from a node as often as there are nodes below it; then its name is complete. -/
theorem isSome_nameAt?_below {P : ExprId → Prop} (hclosed : ∀ i, P i → ∀ j ∈ nameEdges nodes i, P j)
    (hcycle : ∀ i, P i → ¬ Relation.TransGen (Follows (nameEdges nodes) nodes.size) i i) (hi : P i) :
    (nameAt? nodes (below (nameEdges nodes) nodes.size i + 2) i).isSome := by
  induction h : below (nameEdges nodes) nodes.size i using Nat.strong_induction_on generalizing i with
  | _ count ih =>
    rw [isSome_nameAt?_succ]
    intro j hj
    by_cases hlt : j < nodes.size
    · have hless : below (nameEdges nodes) nodes.size j < count := by
        rw [← h]
        exact below_lt (hcycle j (hclosed i hi j hj)) hlt (Relation.TransGen.single (follows_nameEdges hj))
      exact isSome_nameAt?_mono (by omega) (ih _ hless (hclosed i hi j hj) rfl)
    · -- what is no node is called `?` at once
      rw [isSome_nameAt?_succ, nameEdges_eq_nil (Nat.le_of_not_lt hlt)]
      exact fun k hk => absurd hk List.not_mem_nil

theorem isSome_nameOf?_of_closed {P : ExprId → Prop} (hclosed : ∀ i, P i → ∀ j ∈ nameEdges nodes i, P j)
    (hcycle : ∀ i, P i → ¬ Relation.TransGen (Follows (nameEdges nodes) nodes.size) i i) (hi : P i)
    (hlt : i < nodes.size) : (nameOf? nodes i).isSome := by
  refine isSome_nameAt?_mono ?_ (isSome_nameAt?_below hclosed hcycle hi)
  -- the node itself is not below it
  have hless := card_nodesWith_lt (P := fun k => Relation.TransGen (Follows (nameEdges nodes) nodes.size) i k)
    (Q := fun _ => True) (fun _ _ => trivial) hlt trivial (hcycle i hi)
  have hall := card_nodesWith_le nodes.size fun _ => True
  unfold below
  omega

/-- **The depth of naming is enough**: a name that is found at any depth is found at that of the number of nodes. -/
theorem isSome_nameOf?_iff (hlt : i < nodes.size) :
    (nameOf? nodes i).isSome ↔ ∃ depth, (nameAt? nodes depth i).isSome := by
  refine ⟨fun h => ⟨_, h⟩, fun h => ?_⟩
  refine isSome_nameOf?_of_closed (P := fun i => ∃ depth, (nameAt? nodes depth i).isSome) ?_ ?_ h hlt
  · rintro i ⟨depth, hdepth⟩ j hj
    exact ⟨depth, isSome_nameAt?_succ.mp (isSome_nameAt?_mono (Nat.le_succ depth) hdepth) j hj⟩
  · rintro i ⟨depth, hdepth⟩ hcycle
    exact nameAt?_of_cycle hcycle depth hdepth

/-- **All names are found when no node is part of its own name.** -/
theorem forall_isSome_nameOf?_iff : (∀ i < nodes.size, (nameOf? nodes i).isSome) ↔
    ∀ i, ¬ Relation.TransGen (Follows (nameEdges nodes) nodes.size) i i := by
  constructor
  · intro h i hcycle
    obtain ⟨j, hij, -⟩ := Relation.TransGen.head'_iff.mp hcycle
    exact nameAt?_of_cycle hcycle _ (h i hij.1)
  · intro h i hlt
    exact isSome_nameOf?_of_closed (P := fun _ => True) (fun _ _ _ _ => trivial) (fun i _ => h i) trivial hlt

end Depth

/-! ## Passing ignorables down -/

section PassDown

variable {nodes out : Array Node}

/-- A node without its ignorables. -/
def Node.bare (n : Node) : Node := { n with ignores := [] }

/-- Two arenas that differ in ignorables only. -/
def SameBare (nodes out : Array Node) : Prop := ∀ i : ExprId, out[i]?.map Node.bare = nodes[i]?.map Node.bare

/-- Passing ignorables down changes nothing but ignorables. -/
theorem sameBare_passDown (nodes : Array Node) : SameBare nodes (passDown nodes) := by
  intro i
  have hdown := handedDown_passDown nodes
  cases hn : nodes[i]? with
  | none =>
    rw [Array.getElem?_eq_none_iff.mpr (hdown.size ▸ Array.getElem?_eq_none_iff.mp hn)]
  | some n =>
    obtain ⟨n', hn', added, rfl, -⟩ := hdown.takes hn
    rw [hn']
    rfl

/-- Names are made of the same parts before ignorables are passed down and after. -/
theorem nameEdges_passDown (nodes : Array Node) : nameEdges (passDown nodes) = nameEdges nodes := by
  have hparts : Node.nameParts = Node.nameParts ∘ Node.bare := rfl
  funext i
  rw [nameEdges, nameEdges, edgesOf, edgesOf, hparts, ← Option.map_map, ← Option.map_map, sameBare_passDown nodes i]

/-- Names are the same before ignorables are passed down and after. -/
theorem nameAt?_passDown (nodes : Array Node) (depth : Nat) : nameAt? (passDown nodes) depth = nameAt? nodes depth := by
  induction depth with
  | zero => rfl
  | succ depth ih =>
    funext i
    have hbare := sameBare_passDown nodes i
    rw [nameAt?, nameAt?, ih]
    cases hn : nodes[i]? with
    | none =>
      rw [hn, Option.map_none, Option.map_eq_none_iff] at hbare
      rw [hbare]
    | some n =>
      rw [hn] at hbare
      obtain ⟨n', hn', hsame⟩ := Option.map_eq_some_iff.mp hbare
      have hname : n'.customName = n.customName := (congrArg Node.customName hsame :)
      have hkind : n'.kind = n.kind := (congrArg Node.kind hsame :)
      simp only [hn', hname, hkind]

theorem nameOf?_passDown (nodes : Array Node) (i : ExprId) : nameOf? (passDown nodes) i = nameOf? nodes i := by
  rw [nameOf?, nameOf?, (inherits_passDown nodes).size, nameAt?_passDown]

end PassDown

/-- Building changes nothing of a node but its ignorables. -/
theorem Builder.Builds.bare_eq {b : Builder} {root : ExprId} {g : Grammar} (h : b.Builds root g) {i : ExprId} {n : Node}
    (hn : b.nodes[i]? = some n) : (g.rule i).toNode.bare = n.bare := by
  have hbare := sameBare_passDown b.nodes i
  rw [hn] at hbare
  obtain ⟨n', hn', hsame⟩ := Option.map_eq_some_iff.mp hbare
  rw [h.rule hn', hsame]

/-! ## Building -/

/-- A list of computations gives a value when each of them does, and else the error of one of them. -/
theorem mapM_cases {α β ε : Type} (f : α → Except ε β) (as : List α) :
    (∃ bs, as.mapM f = .ok bs ∧ ∀ a ∈ as, ∃ b, f a = .ok b) ∨ ∃ a ∈ as, ∃ e, f a = .error e ∧ as.mapM f = .error e := by
  induction as with
  | nil => exact Or.inl ⟨[], rfl, by simp⟩
  | cons a as ih =>
    rw [List.mapM_cons]
    cases ha : f a with
    | error e => exact Or.inr ⟨a, List.mem_cons_self, e, ha, rfl⟩
    | ok b =>
      rcases ih with ⟨bs, hbs, hall⟩ | ⟨c, hc, e, hfc, he⟩
      · exact Or.inl ⟨b :: bs, by rw [hbs]; rfl, List.forall_mem_cons.mpr ⟨⟨b, ha⟩, hall⟩⟩
      · exact Or.inr ⟨c, List.mem_cons_of_mem _ hc, e, hfc, by rw [he]; rfl⟩

/-- The values of a list of computations are theirs, in order. -/
theorem exists_of_mapM {α β ε : Type} {f : α → Except ε β} {as : List α} {bs : List β} (h : as.mapM f = .ok bs) {k : Nat}
    {a : α} (ha : as[k]? = some a) : ∃ b, f a = .ok b ∧ bs[k]? = some b := by
  induction as generalizing bs k with
  | nil => exact absurd ha (by simp)
  | cons a' as ih =>
    rw [List.mapM_cons] at h
    cases hfirst : f a' with
    | error e =>
      rw [hfirst] at h
      cases h
    | ok b =>
      cases hrest : as.mapM f with
      | error e =>
        rw [hfirst, hrest] at h
        cases h
      | ok bs' =>
        rw [hfirst, hrest] at h
        obtain rfl := Except.ok.inj h
        cases k with
        | zero =>
          obtain rfl : a' = a := by simpa using ha
          exact ⟨b, hfirst, rfl⟩
        | succ k => exact ih hrest ha

/-- The names of all nodes are found, or one of them has none. -/
theorem assignNames_cases (nodes : Array Node) :
    (∃ names, assignNames nodes = .ok names ∧ ∀ i < nodes.size, (nameOf? nodes i).isSome) ∨
      ∃ i < nodes.size, assignNames nodes = .error (.endlessName i) ∧ ¬ (nameOf? nodes i).isSome := by
  unfold assignNames
  rcases mapM_cases _ _ with ⟨names, hnames, hall⟩ | ⟨i, hi, e, he, hnames⟩
  · refine Or.inl ⟨names, hnames, fun i hi => ?_⟩
    obtain ⟨name, hname⟩ := hall i (List.mem_range.mpr hi)
    split at hname
    · next t ht => simp [ht]
    · exact absurd hname (by simp)
  · refine Or.inr ⟨i, List.mem_range.mp hi, ?_⟩
    split at he
    · exact absurd he (by simp)
    · next hnone =>
      obtain rfl := Except.error.inj he
      exact ⟨hnames, by simp [hnone]⟩

/-- A check accepts the nodes, or ends with an error that is not about names. -/
def Passes (m : Except BuildError Unit) : Prop := ∀ e, m = .error e → ∀ i, e ≠ .endlessName i

theorem passes_checkReferences (nodes : Array Node) : Passes (checkReferences nodes) := by
  intro e he i
  unfold checkReferences at he
  split at he <;> cases he
  exact BuildError.noConfusion

theorem passes_checkForwards (nodes : Array Node) (root : ExprId) : Passes (checkForwards nodes root) := by
  intro e he i
  unfold checkForwards at he
  split at he <;> cases he
  exact BuildError.noConfusion

theorem passes_checkCommits (nodes : Array Node) (root : ExprId) : Passes (checkCommits nodes root) := by
  intro e he i
  unfold checkCommits at he
  split at he
  · cases he
    exact BuildError.noConfusion
  · dsimp only at he
    split at he <;> cases he
    exact BuildError.noConfusion

namespace Builder

/-- The checks of building accept the nodes and the root. -/
structure Accepts (b : Builder) (root : ExprId) : Prop where
  root_lt : root < b.size
  references : checkReferences b.nodes = .ok ()
  forwards : checkForwards b.nodes root = .ok ()
  commits : checkCommits b.nodes root = .ok ()

/-- No node is part of its own name. -/
def NamesEnd (b : Builder) : Prop := ∀ i, ¬ Relation.TransGen (Follows (nameEdges b.nodes) b.size) i i

variable {b : Builder} {root : ExprId}

/-- Once the checks have accepted the nodes, building ends as the naming of all nodes does. -/
theorem Accepts.build_eq (h : b.Accepts root) : b.build root = (assignNames (passDown b.nodes)).map fun names =>
    { rules := finish (passDown b.nodes) names.toArray
      root
      defaultWhitespace := b.defaultWhitespace
      leftRecursive := Packrat.leftRecursive (passDown b.nodes) } := by
  unfold build
  rw [if_neg (Nat.not_le_of_lt h.root_lt), h.references, h.forwards, h.commits]
  dsimp only [Bind.bind, Except.bind]
  cases assignNames (passDown b.nodes) <;> rfl

/-- Naming comes last: its error means that the checks have accepted the nodes. -/
theorem accepts_of_endlessName {i : ExprId} (h : b.build root = .error (.endlessName i)) : b.Accepts root := by
  unfold build at h
  by_cases hroot : b.size ≤ root
  · rw [if_pos hroot] at h
    cases h
  rw [if_neg hroot] at h
  cases hreferences : checkReferences b.nodes with
  | error e =>
    rw [hreferences] at h
    exact absurd (Except.error.inj h) (passes_checkReferences _ e hreferences i)
  | ok _ =>
  cases hforwards : checkForwards b.nodes root with
  | error e =>
    rw [hreferences, hforwards] at h
    exact absurd (Except.error.inj h) (passes_checkForwards _ _ e hforwards i)
  | ok _ =>
  cases hcommits : checkCommits b.nodes root with
  | error e =>
    rw [hreferences, hforwards, hcommits] at h
    exact absurd (Except.error.inj h) (passes_checkCommits _ _ e hcommits i)
  | ok _ => exact ⟨Nat.lt_of_not_le hroot, hreferences, hforwards, hcommits⟩

/-- The names of accepted nodes are found when the names are made of the same parts before ignorables are passed
down. -/
theorem forall_isSome_nameOf?_passDown_iff :
    (∀ i < b.size, (nameOf? (passDown b.nodes) i).isSome) ↔ b.NamesEnd := by
  have h := @forall_isSome_nameOf?_iff (passDown b.nodes)
  rw [(inherits_passDown b.nodes).size, nameEdges_passDown] at h
  exact h

/-- **Naming is what keeps building from its end**: the checks accept the nodes, and one is part of its own name. -/
theorem exists_endlessName_iff : (∃ i, b.build root = .error (.endlessName i)) ↔ b.Accepts root ∧ ¬ b.NamesEnd := by
  rw [← forall_isSome_nameOf?_passDown_iff]
  rcases assignNames_cases (passDown b.nodes) with ⟨names, hnames, hall⟩ | ⟨i, hi, hnames, hnone⟩
  · rw [(inherits_passDown b.nodes).size] at hall
    refine ⟨fun ⟨i, h⟩ => ?_, fun h => absurd hall h.2⟩
    rw [(accepts_of_endlessName h).build_eq, hnames] at h
    cases h
  · rw [(inherits_passDown b.nodes).size] at hi
    refine ⟨fun ⟨j, h⟩ => ⟨accepts_of_endlessName h, fun hall => hnone (hall i hi)⟩, fun ⟨haccepts, _⟩ => ⟨i, ?_⟩⟩
    rw [haccepts.build_eq, hnames]
    rfl

/-- **Building comes to an end when no name contains itself**: it does not report an endless name exactly if the
names of all nodes that it accepts are found at some depth, and that is so exactly if no node is part of its own
name. -/
theorem build_returns_iff (b : Builder) (root : ExprId) :
    [∀ i, b.build root ≠ .error (.endlessName i),
      b.Accepts root → ∀ i < b.size, ∃ depth name, nameAt? (passDown b.nodes) depth i = some name,
      b.Accepts root → b.NamesEnd].TFAE := by
  tfae_have 1 ↔ 3 := by
    rw [← not_exists, exists_endlessName_iff]
    tauto
  tfae_have 2 ↔ 3 := by
    refine imp_congr_right fun _ => ?_
    rw [← forall_isSome_nameOf?_passDown_iff]
    refine forall₂_congr fun i hi => ?_
    rw [isSome_nameOf?_iff (by rwa [(inherits_passDown b.nodes).size])]
    simp only [Option.isSome_iff_exists]
  tfae_finish

/-- Two sequences, each with the other as its only child. -/
def mutualSequences : Builder := .ofCalls [.sequence [1], .sequence [0]]

/-- The checks accept them, and no depth of recursion gives either a name. -/
theorem not_build_returns_mutualSequences :
    mutualSequences.Accepts 0 ∧ mutualSequences.build 0 = .error (.endlessName 0) ∧
      ∀ depth, nameAt? (passDown mutualSequences.nodes) depth 0 = none := by
  have haccepts : mutualSequences.Accepts 0 := ⟨by decide, by decide, by decide, by decide⟩
  refine ⟨haccepts, ?_, ?_⟩
  · rw [haccepts.build_eq]
    rfl
  · have hcycle : Relation.TransGen (Follows (nameEdges mutualSequences.nodes) mutualSequences.size) 0 0 :=
      .tail (.single (b := 1) ⟨by decide, by decide⟩) ⟨by decide, by decide⟩
    rw [← nameEdges_passDown, Builder.size, ← (inherits_passDown mutualSequences.nodes).size] at hcycle
    exact fun depth => Option.not_isSome_iff_eq_none.mp (nameAt?_of_cycle hcycle depth)

/-- Names are made of those of earlier nodes. -/
theorem Orderly.namePart_lt (h : b.Orderly) {i j : ExprId} {n : Node} (hn : b.nodes[i]? = some n)
    (hj : j ∈ n.kind.nameParts) : j < i := by
  refine h.backward hn ?_ j (n.kind.nameParts_subset hj)
  intro label target hk
  rw [hk] at hj
  exact absurd hj List.not_mem_nil

/-- **Names of builders that use only what they made end**: they are made of earlier nodes. -/
theorem Made.namesEnd (h : b.Made) : b.NamesEnd := by
  have hless {i j : ExprId} (hij : Follows (nameEdges b.nodes) b.size i j) : j < i := by
    obtain ⟨n, hn⟩ : ∃ n, b.nodes[i]? = some n := ⟨_, Array.getElem?_eq_getElem hij.1⟩
    have hj : j ∈ n.nameParts := by
      have hj := hij.2
      rwa [nameEdges, edgesOf_of_getElem? hn] at hj
    unfold Node.nameParts at hj
    split at hj
    · exact absurd hj List.not_mem_nil
    · exact h.orderly.namePart_lt hn hj
  intro i hcycle
  have hback {j : ExprId} (hpath : Relation.TransGen (Follows (nameEdges b.nodes) b.size) i j) : j < i := by
    induction hpath with
    | single hij => exact hless hij
    | tail _ hjk ih => exact (hless hjk).trans ih
  exact Nat.lt_irrefl i (hback hcycle)

/-- So building such a builder comes to an end. -/
theorem Made.build_ne_endlessName (h : b.Made) (i : ExprId) : b.build root ≠ .error (.endlessName i) :=
  fun hbuild => (exists_endlessName_iff.mp ⟨i, hbuild⟩).2 h.namesEnd

/-- Once the checks have accepted the nodes of such a builder, a grammar is built. -/
theorem Accepts.exists_build_eq (h : b.Accepts root) (hmade : b.Made) : ∃ g, b.build root = .ok g ∧
    g.defaultWhitespace = b.defaultWhitespace ∧
      ∀ i t, nameOf? (passDown b.nodes) i = some t → i < b.size → (g.rule i).display = String.ofList t := by
  rcases assignNames_cases (passDown b.nodes) with ⟨names, hnames, -⟩ | ⟨i, -, hnames, -⟩
  · refine ⟨_, h.build_eq.trans (congrArg _ hnames), rfl, ?_⟩
    intro i t ht hi
    have hsize : i < (passDown b.nodes).size := by rwa [(inherits_passDown b.nodes).size]
    have hrange : (List.range (passDown b.nodes).size)[i]? = some i := List.getElem?_range hsize
    obtain ⟨name, hname, hget⟩ := exists_of_mapM hnames hrange
    rw [ht] at hname
    obtain rfl := Except.ok.inj hname
    show ((finish (passDown b.nodes) names.toArray)[i]?.getD default).display = String.ofList t
    unfold finish
    rw [Array.getElem?_mapIdx, Array.getElem?_eq_getElem hsize]
    show (names.toArray[i]?.getD "") = String.ofList t
    rw [List.getElem?_toArray, hget]
    rfl
  · exact absurd (h.build_eq.trans (congrArg _ hnames)) (hmade.build_ne_endlessName i)

end Builder

end Packrat
