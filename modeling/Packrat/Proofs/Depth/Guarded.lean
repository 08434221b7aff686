import Packrat.Proofs.Analysis.Cycles
import Packrat.Proofs.Depth.Runs

/-!
# `Packrat.Proofs.Depth.Guarded` — without seeds, the analysis bounds the nesting

Where no forward is left-recursive, a plain parse nests only finitely deep, as long as the analysis sees every way in
which a node can come back to its own place. It does not see ignorables, nor what is attempted further back in the
text, nor patterns that match without consuming text though they do not match the empty text. A grammar is *guarded*
when none of these leads back.

From one attempt to one nested in it, one of three falls, in this order: what the node leads to without being led
back, the text that is left, and what the node leads to at its own place.

## Contents

* `Grammar.Guarded`, `Grammar.Grounded` — what the analysis leaves to be asked, and what the measure needs;
* `nesting` — the measure, and how it falls;
* `guarded_same` — **attempts are the same** wherever the room covers the measure;
* `parse_settled_of_guarded` — **a limit that depends on the length and the number of nodes is enough**.
-/

namespace Packrat

/-! ## Guarded grammars -/

/-- Nothing that the search for left-recursive forwards does not follow leads a node back to its own place. -/
structure Grammar.Guarded (g : Grammar) : Prop where
  /-- No ignorable comes back to a node that has it, at the place where it is skipped. -/
  here : ∀ i < g.size, ∀ j ∈ (g.rule i).ignores, i ∉ preorder (placeEdges g.nodes) g.nodes.size [j]
  /-- What is attempted further back in the text does not come back at all. -/
  back : ∀ i < g.size, ∀ j ∈ (g.rule i).attemptsBack, i ∉ g.walk j
  /-- A pattern that somewhere matches without consuming text matches the empty text. -/
  patterns : ∀ i < g.size, ∀ source p, (g.rule i).kind = .pattern source p →
    ∀ t m, p.find? t = some m → m.stop = 0 → p.matchesIn [] = true

namespace Grammar

/-- What a node leads to, through all that it refers to. -/
def Leads (g : Grammar) : ExprId → ExprId → Prop :=
  Relation.ReflTransGen (Follows (edgesOf g.nodes Node.references) g.nodes.size)

/-- What a node leads to at its own place. -/
def LeadsHere (g : Grammar) : ExprId → ExprId → Prop :=
  Relation.TransGen (Follows (placeEdges g.nodes) g.nodes.size)

variable {g : Grammar} {i j k : ExprId}

theorem size_nodes (g : Grammar) : g.nodes.size = g.size := Array.size_map

theorem getElem?_nodes (hi : i < g.size) : g.nodes[i]? = some (g.rule i).toNode := by
  have hrule : g.rules[i]? = some (g.rule i) := by
    rw [rule, Array.getElem?_eq_getElem hi]
    rfl
  rw [nodes, Array.getElem?_map, hrule]
  rfl

theorem lt_size_nodes (hi : i < g.size) : i < g.nodes.size := by rwa [size_nodes]

theorem leads_of_reference (hi : i < g.size) (hj : j ∈ (g.rule i).references) : g.Leads i j := by
  refine Relation.ReflTransGen.single ⟨lt_size_nodes hi, ?_⟩
  rwa [edgesOf_of_getElem? (getElem?_nodes hi)]

theorem leadsHere_of_leftCall (hi : i < g.size)
    (hj : j ∈ (g.rule i).kind.leftCalls (Packrat.nullable g.nodes).contains) : g.LeadsHere i j := by
  refine Relation.TransGen.single ⟨lt_size_nodes hi, ?_⟩
  rw [placeEdges, edgesOf_of_getElem? (getElem?_nodes hi)]
  exact List.mem_append_left _ hj

theorem leadsHere_of_ignores (hi : i < g.size) (hj : j ∈ (g.rule i).ignores) : g.LeadsHere i j := by
  refine Relation.TransGen.single ⟨lt_size_nodes hi, ?_⟩
  rw [placeEdges, edgesOf_of_getElem? (getElem?_nodes hi)]
  exact List.mem_append_right _ hj

/-- What a node leads to at its own place it leads to. -/
theorem LeadsHere.leads (h : g.LeadsHere i j) : g.Leads i j := by
  have hstep {a c : ExprId} (hcall : Follows (placeEdges g.nodes) g.nodes.size a c) :
      Follows (edgesOf g.nodes Node.references) g.nodes.size a c := by
    obtain ⟨ha, hc⟩ := hcall
    have hn : g.nodes[a]? = some g.nodes[a] := Array.getElem?_eq_getElem ha
    rw [placeEdges, edgesOf_of_getElem? hn] at hc
    refine ⟨ha, ?_⟩
    rw [edgesOf_of_getElem? hn]
    rcases List.mem_append.mp hc with hc | hc
    · exact List.mem_append_left _ (NodeKind.leftCalls_subset _ _ hc)
    · exact List.mem_append_right _ hc
  induction h with
  | single hcall => exact Relation.ReflTransGen.single (hstep hcall)
  | tail _ hcall ih => exact ih.tail (hstep hcall)

/-- What is needed for the nesting to be bounded: no node comes back to its own place, what is attempted further back
does not come back at all, and terminals that may be empty are known to be. -/
structure Grounded (g : Grammar) : Prop where
  ordered : g.Ordered
  acyclic : ∀ i, ¬ g.LeadsHere i i
  back : ∀ {i j}, i < g.size → j ∈ (g.rule i).attemptsBack → ¬ g.Leads j i
  consumes : ∀ {i}, i < g.size → ∀ {t start r}, matchToken (g.rule i) t start = .matched start r →
    (Packrat.nullable g.nodes).contains i = true

end Grammar

/-! ## Terminals that consume nothing -/

theorem size_pos_of_ne_nil {t : Text} (h : t ≠ []) : 0 < t.size := by
  cases t with
  | nil => exact absurd rfl h
  | cons c r => exact Nat.add_pos_left (Char.utf8Size_pos c) _

/-- A literal that is spelled by some character consumes some text. -/
theorem matchLiteral?_pos {caseless : Bool} {literal rest : Text} {n : Nat} (hne : literal ≠ [])
    (h : matchLiteral? caseless literal rest = some n) : 0 < n := by
  cases literal with
  | nil => exact absurd rfl hne
  | cons c cs =>
    cases rest with
    | nil => exact absurd h (by simp [matchLiteral?])
    | cons d ds =>
      rw [matchLiteral?] at h
      split at h
      · obtain ⟨m, -, rfl⟩ := Option.map_eq_some_iff.mp h
        exact Nat.add_pos_left (Char.utf8Size_pos d) _
      · exact absurd h (by simp)

theorem wordAt?_ne_nil {init body : CharSet} {min : Nat} {max : Option Nat} {t token : Text}
    (h : wordAt? init body min max t = some token) : token ≠ [] := by
  cases t with
  | nil => exact absurd h (by simp [wordAt?])
  | cons c r =>
    rw [wordAt?] at h
    split at h
    · exact absurd h (by simp)
    · dsimp only at h
      split at h
      · exact absurd h (by simp)
      · obtain rfl := Option.some.inj h
        exact List.cons_ne_nil _ _

theorem excludedAt?_min_le {excluded : CharSet} {min : Nat} {max : Option Nat} {t token : Text}
    (h : excludedAt? excluded min max t = some token) : min ≤ token.length := by
  rw [excludedAt?] at h
  split at h
  · exact absurd h (by simp)
  · next hmin =>
    obtain rfl := Option.some.inj h
    exact Nat.le_of_not_lt hmin

/-- A terminal that matches without consuming text may be empty. -/
theorem isNullable_of_matchToken {rule : Rule} {t : Text} {start : Nat} {r : Results} (hspelled : rule.kind.IsSpelled)
    (hpattern : ∀ source p, rule.kind = .pattern source p →
      ∀ t m, p.find? t = some m → m.stop = 0 → p.matchesIn [] = true)
    (h : matchToken rule t start = .matched start r) (known : ExprId → Bool) : rule.kind.isNullable known = true := by
  have hzero {n : Nat} {r' : Results} (hn : Step.matched (start + n) r' = .matched start r) : n = 0 := by
    have := (Step.matched.inj hn).1
    omega
  have hfail : Step.failAt start rule ≠ .matched start r := by simp [Step.failAt]
  unfold matchToken at h
  cases hk : rule.kind with
  | literal text caseless =>
    rw [hk] at h hspelled
    dsimp only at h
    split at h
    · next n hn => exact absurd (hzero h) (matchLiteral?_pos hspelled hn).ne'
    · exact absurd h hfail
  | keyword text caseless identChars =>
    rw [hk] at h hspelled
    dsimp only at h
    split at h
    · next n hn =>
      split at h
      · exact absurd h hfail
      · exact absurd (hzero h) (matchLiteral?_pos hspelled hn).ne'
    · exact absurd h hfail
  | word init body min max =>
    rw [hk] at h
    dsimp only at h
    cases hw : wordAt? init body min max (t.rest start) with
    | none => rw [hw] at h; exact absurd h hfail
    | some token =>
      rw [hw] at h
      exact absurd (hzero h) (size_pos_of_ne_nil (wordAt?_ne_nil hw)).ne'
  | charsNotIn excluded min max =>
    rw [hk] at h
    dsimp only at h
    cases hw : excludedAt? excluded min max (t.rest start) with
    | none => rw [hw] at h; exact absurd h hfail
    | some token =>
      rw [hw] at h
      have hsize : token.size = 0 := hzero h
      have hnil : token = [] := by
        by_contra hne
        exact (size_pos_of_ne_nil hne).ne' hsize
      have hmin := excludedAt?_min_le hw
      rw [hnil, List.length_nil, Nat.le_zero] at hmin
      simp [NodeKind.isNullable, hmin]
  | pattern source p =>
    rw [hk] at h
    dsimp only at h
    split at h
    · next m hm => exact hpattern source p hk _ m hm (hzero h)
    · exact absurd h hfail
  | _ =>
    rw [hk] at h
    exact absurd h hfail

/-! ## The measure -/

/-- A bound on the nesting of an attempt: by what its node leads to without being led back, by the text that is left,
and by what the node leads to at its own place. -/
noncomputable def nesting (g : Grammar) (size p : Nat) (i : ExprId) : Nat :=
  strictlyBelow (edgesOf g.nodes Node.references) g.nodes.size i * ((size + 1) * (g.size + 1))
    + (size - p) * (g.size + 1) + below (placeEdges g.nodes) g.nodes.size i + 1

section Measure

variable {g : Grammar} {size p q : Nat} {i j : ExprId}

theorem below_le_size (g : Grammar) (i : ExprId) : below (placeEdges g.nodes) g.nodes.size i ≤ g.size :=
  (card_nodesWith_le _ _).trans g.size_nodes.le

/-- At its own place, and further on, what a node leads to there is bounded by less. -/
theorem nesting_lt_of_here (hg : g.Grounded) (h : g.LeadsHere i j) (hj : j < g.size) (hpq : p ≤ q) :
    nesting g size q j < nesting g size p i := by
  have hfar := Nat.mul_le_mul_right ((size + 1) * (g.size + 1)) (strictlyBelow_le h.leads)
  have hleft : (size - q) * (g.size + 1) ≤ (size - p) * (g.size + 1) := Nat.mul_le_mul_right _ (by omega)
  have hnear := below_lt (hg.acyclic j) (Grammar.lt_size_nodes hj) h
  unfold nesting
  omega

/-- Further on in the text, all that a node leads to is bounded by less. -/
theorem nesting_lt_of_lt (h : g.Leads i j) (hpq : p < q) (hq : q ≤ size) :
    nesting g size q j < nesting g size p i := by
  have hfar := Nat.mul_le_mul_right ((size + 1) * (g.size + 1)) (strictlyBelow_le h)
  have hleft : (size - q) * (g.size + 1) + (g.size + 1) ≤ (size - p) * (g.size + 1) := by
    rw [← Nat.succ_mul]
    exact Nat.mul_le_mul_right _ (by omega)
  have hnear := below_le_size g j
  unfold nesting
  omega

/-- Anywhere in the text, what a node leads to without being led back is bounded by less. -/
theorem nesting_lt_of_back (h : g.Leads i j) (hj : j < g.size) (hback : ¬ g.Leads j i) :
    nesting g size q j < nesting g size p i := by
  have hfar : strictlyBelow (edgesOf g.nodes Node.references) g.nodes.size j * ((size + 1) * (g.size + 1))
        + (size + 1) * (g.size + 1)
      ≤ strictlyBelow (edgesOf g.nodes Node.references) g.nodes.size i * ((size + 1) * (g.size + 1)) := by
    rw [← Nat.succ_mul]
    exact Nat.mul_le_mul_right _ (strictlyBelow_lt (Grammar.lt_size_nodes hj) h hback)
  have hleft : (size - q) * (g.size + 1) ≤ size * (g.size + 1) := Nat.mul_le_mul_right _ (by omega)
  have hsplit : (size + 1) * (g.size + 1) = size * (g.size + 1) + (g.size + 1) := Nat.succ_mul _ _
  have hnear := below_le_size g j
  unfold nesting
  omega

/-- The nesting of a whole parse is bounded by the length of the text and the number of nodes. -/
theorem nesting_le (g : Grammar) (size p : Nat) (i : ExprId) :
    nesting g size p i ≤ (g.size + 1) * ((size + 1) * (g.size + 1)) := by
  have hfar : strictlyBelow (edgesOf g.nodes Node.references) g.nodes.size i * ((size + 1) * (g.size + 1))
      ≤ g.size * ((size + 1) * (g.size + 1)) :=
    Nat.mul_le_mul_right _ ((card_nodesWith_le _ _).trans g.size_nodes.le)
  have hleft : (size - p) * (g.size + 1) ≤ size * (g.size + 1) := Nat.mul_le_mul_right _ (by omega)
  have hsplit : (size + 1) * (g.size + 1) = size * (g.size + 1) + (g.size + 1) := Nat.succ_mul _ _
  have hnear := below_le_size g i
  rw [Nat.succ_mul]
  unfold nesting
  omega

end Measure

/-! ## Attempts -/

section Attempts

variable {g : Grammar}

/-- A node that is missing may not be empty. -/
theorem nullable_contains {i : ExprId}
    (h : (g.rule i).kind.isNullable (nullable g.nodes).contains = true) : (nullable g.nodes).contains i = true := by
  by_cases hi : i < g.size
  · refine nullable_closed ?_ h
    rw [kindOf?, Grammar.getElem?_nodes hi]
    rfl
  · have hdefault : g.rule i = default := by
      rw [Grammar.rule, Array.getElem?_eq_none (Nat.le_of_not_lt hi)]
      rfl
    rw [hdefault] at h
    exact absurd h Bool.false_ne_true

/-- Two plain runs. -/
@[reducible] def plainTwin (a₁ a₂ : Attempt) (c₁ c₂ : Context) (hc : c₁.grammar = g) (hpeers : c₁.Peers c₂) :
    Twin g where
  inv s := s.memo = .off
  halts h := h.isTooDeep = false
  first := a₁
  second := a₂
  c₁ := c₁
  c₂ := c₂
  empty := (nullable g.nodes).contains
  grammar := hc
  peers := hpeers
  stable := fun hs ht => ht.memo.trans hs
  ordinary := fun h _ => h
  nullable _ := nullable_contains

/-- Attempts whose nesting is bounded by `k` are the same in both runs. -/
def Twin.MeetsWithin (D : Twin g) (size k : Nat) : Prop :=
  ∀ acts i p, i < g.size → D.c₁.text.IsBoundary p → nesting g size p i ≤ k → D.Meets acts i p

section Serves

variable {size k p q : Nat} {i j : ExprId}

/-- What a node leads to at its own place is attempted alike from there on. -/
theorem Twin.MeetsWithin.here {D : Twin g} (h : D.MeetsWithin size k) (hg : g.Grounded)
    (hk : nesting g size p i ≤ k + 1) (hlead : g.LeadsHere i j) (hj : j < g.size) (acts : Bool) :
    D.MeetsFrom acts p j := by
  intro q hle hq
  have hlt := @nesting_lt_of_here g size p q i j hg hlead hj hle
  exact h acts j q hj hq (Nat.le_of_lt_succ (hlt.trans_le hk))

variable {a₁ a₂ : Attempt} {c₁ c₂ : Context} {hc : c₁.grammar = g} {hpeers : c₁.Peers c₂}

/-- What is looked for behind a place does not come back, so it is attempted alike there. -/
theorem plain_looksBehind (hg : g.Grounded) (hmode : c₁.config.memoization = .disabled) (hi : i < g.size)
    (hk : nesting g size p i ≤ k + 1) {child : ExprId} {retreat : Option Nat}
    (hkind : (g.rule i).kind = .precededBy child retreat)
    (hbehind : (plainTwin a₁ a₂ (c₁.behind q) (c₂.behind q) hc (hpeers.behind q)).MeetsWithin size k) (acts : Bool) :
    (plainTwin a₁ a₂ c₁ c₂ hc hpeers).LooksBehind acts q child := by
  have hback : child ∈ (g.rule i).attemptsBack := by simp [Node.attemptsBack, hkind]
  have hreference : child ∈ (g.rule i).references :=
    List.mem_append_left _ (by simp [Node.children, hkind, NodeKind.children])
  have hchild : child < g.size := hg.ordered.known hi hreference
  refine ⟨fun s => s.memo = .off, ?_, ?_⟩
  · intro s hs
    refine hs.memo.trans ?_
    show Memo.ofStrategy c₁.config.memoization = .off
    rw [hmode]
    rfl
  · intro q' hq'
    have hlt : nesting g size q' child < nesting g size p i :=
      nesting_lt_of_back (Grammar.leads_of_reference hi hreference) hchild (hg.back hi hback)
    have hmeets := hbehind acts child q' hchild hq' (Nat.le_of_lt_succ (hlt.trans_le hk))
    exact Concur.mono (hmeets acts false id) (fun _ _ => trivial) fun _ => id

/-- The attempts that the match of a node can make are bounded by less than its own. -/
theorem plain_serves (hg : g.Grounded) (hmode : c₁.config.memoization = .disabled) (hsize : c₁.text.size ≤ size)
    (hi : i < g.size) (hk : nesting g size p i ≤ k + 1)
    (hmeets : (plainTwin a₁ a₂ c₁ c₂ hc hpeers).MeetsWithin size k)
    (hcombined : (plainTwin a₁ a₂ c₁ c₂ hc hpeers).combined.MeetsWithin size k)
    (hbehind : ∀ q, c₁.text.IsBoundary q →
      (plainTwin a₁ a₂ (c₁.behind q) (c₂.behind q) hc (hpeers.behind q)).MeetsWithin size k)
    (hle : p ≤ q) (hq : c₁.text.IsBoundary q) (acts : Bool) : (plainTwin a₁ a₂ c₁ c₂ hc hpeers).Serves i q acts := by
  have hcall {j : ExprId} (hj : j ∈ (g.rule i).kind.leftCalls (nullable g.nodes).contains) :
      g.LeadsHere i j ∧ j < g.size :=
    ⟨Grammar.leadsHere_of_leftCall hi hj, hg.ordered.child_lt hi (NodeKind.leftCalls_subset _ _ hj)⟩
  have hhere {b : Bool} {j : ExprId} (h : g.LeadsHere i j ∧ j < g.size) :
      (plainTwin a₁ a₂ c₁ c₂ hc hpeers).MeetsFrom b q j :=
    (hmeets.here hg hk h.1 h.2 b).mono hle
  constructor
  · exact fun _ j hj => hhere (hcall hj) q (le_refl q) hq
  · intro j hj q' hlt hq'
    have hlead : g.Leads i j := Grammar.leads_of_reference hi (List.mem_append_left _ hj)
    have hless : nesting g size q' j < nesting g size p i :=
      nesting_lt_of_lt hlead (hle.trans_lt hlt) (hq'.le_size.trans hsize)
    exact hmeets acts j q' (hg.ordered.child_lt hi hj) hq' (Nat.le_of_lt_succ (hless.trans_le hk))
  · -- what is tested for a child is the child, or a child of it
    intro children hkind j hj
    have hj := hcall (j := j) (by simpa [hkind, NodeKind.leftCalls, NodeKind.children] using hj)
    rcases EachItem.test_ofChild j (g.rule j).kind (nullable g.nodes).contains with htest | hinner
    · rw [htest]
      exact hhere hj
    · have hinner_lt := hg.ordered.child_lt hj.2 (NodeKind.leftCalls_subset _ _ hinner)
      exact hhere ⟨hj.1.trans (Grammar.leadsHere_of_leftCall hj.2 hinner), hinner_lt⟩
  · intro j hj
    exact hhere ⟨Grammar.leadsHere_of_ignores hi hj, hg.ordered.known hi (List.mem_append_right _ hj)⟩
  · intro target includes failOn hkind j hj
    have htarget := hcall (j := target) (by simp [hkind, NodeKind.leftCalls, NodeKind.children])
    exact hhere ⟨htarget.1.trans (Grammar.leadsHere_of_ignores htarget.2 hj),
      hg.ordered.known htarget.2 (List.mem_append_right _ hj)⟩
  · -- ignorables from the start of the text do not come back
    intro hkind j hj q' _ hq'
    have hback : j ∈ (g.rule i).attemptsBack := by simpa [Node.attemptsBack, hkind] using hj
    have hreference : j ∈ (g.rule i).references := List.mem_append_right _ hj
    have hj_lt := hg.ordered.known hi hreference
    have hless : nesting g size q' j < nesting g size p i :=
      nesting_lt_of_back (Grammar.leads_of_reference hi hreference) hj_lt (hg.back hi hback)
    exact hmeets false j q' hj_lt hq' (Nat.le_of_lt_succ (hless.trans_le hk))
  · intro child joiner hkind
    have hchild := hcall (j := child) (by simp [hkind, NodeKind.leftCalls, NodeKind.children])
    exact hcombined.here hg hk hchild.1 hchild.2 acts q hle hq
  · exact fun child retreat hkind => plain_looksBehind hg hmode hi hk hkind (hbehind q hq) acts
  · intro label target hkind
    have htarget := hcall (j := target) (by simp [hkind, NodeKind.leftCalls, NodeKind.children])
    have hempty (h : (nullable g.nodes).contains target = true) : (nullable g.nodes).contains i = true :=
      nullable_contains (by rw [hkind]; exact h)
    have hseedless : c₁.config.memoization ≠ .leftRecursion := by
      rw [hmode]
      exact Memoization.noConfusion
    rw [matchNode_forward hseedless hkind, matchNode_forward (hpeers.memoization ▸ hseedless) hkind]
    exact (hhere htarget q (le_refl q) hq acts false id).mono fun step hstep => hstep.weaken hempty
  · exact fun r hr => hg.consumes hi hr

end Serves

/-- **Attempts are the same** wherever the room of both runs covers the measure. -/
theorem guarded_same (hg : g.Grounded) (k : Nat) {n m : Nat} (c₁ c₂ : Context) (hc : c₁.grammar = g)
    (hpeers : c₁.Peers c₂) (hmode : c₁.config.memoization = .disabled) {size : Nat} (hsize : c₁.text.size ≤ size)
    (h₁ : k ≤ c₁.room n) (h₂ : k ≤ c₂.room m) :
    (plainTwin (attemptWithin n) (attemptWithin m) c₁ c₂ hc hpeers).MeetsWithin size k := by
  induction k generalizing n m c₁ c₂ with
  | zero => exact fun acts i p _ _ hk => absurd hk (by unfold nesting; omega)
  | succ k ih =>
    intro acts i p hi hp hk b skips hb
    obtain ⟨k₁, hk₁⟩ : ∃ k₁, c₁.room n = k₁ + 1 := ⟨c₁.room n - 1, by omega⟩
    obtain ⟨k₂, hk₂⟩ : ∃ k₂, c₂.room m = k₂ + 1 := ⟨c₂.room m - 1, by omega⟩
    obtain ⟨n', hn', e₁⟩ := attemptWithin_of_room_succ hk₁
    obtain ⟨m', hm', e₂⟩ := attemptWithin_of_room_succ hk₂
    have hroom₁ : k ≤ c₁.deeper.room n' := by omega
    have hroom₂ : k ≤ c₂.deeper.room m' := by omega
    let D : Twin g := plainTwin (attemptWithin n') (attemptWithin m') c₁.deeper c₂.deeper hc hpeers.deeper
    have hmeets : D.MeetsWithin size k := ih c₁.deeper c₂.deeper hc hpeers.deeper hmode hsize hroom₁ hroom₂
    have hcombined : D.combined.MeetsWithin size k :=
      ih c₁.deeper.combined c₂.deeper.combined hc hpeers.deeper.combined hmode hsize hroom₁ hroom₂
    have hbehind (q : Nat) (hq : c₁.text.IsBoundary q) : (plainTwin (attemptWithin n') (attemptWithin m')
        (c₁.deeper.behind q) (c₂.deeper.behind q) hc (hpeers.deeper.behind q)).MeetsWithin size k := by
      refine ih (c₁.deeper.behind q) (c₂.deeper.behind q) hc (hpeers.deeper.behind q) hmode ?_ hroom₁ hroom₂
      show (c₁.text.before q).size ≤ size
      rw [hq.size_before]
      exact hq.le_size.trans hsize
    have hmode' : c₁.deeper.config.memoization = .disabled := hmode
    have hserves (q : Nat) (hle : p ≤ q) (hq : c₁.deeper.text.IsBoundary q) : D.Serves i q b :=
      plain_serves hg hmode' hsize hi hk hmeets hcombined hbehind hle hq b
    show Concur _ _ _ (attemptWithin n c₁ i p b skips) (attemptWithin m c₂ i p b skips)
    rw [e₁, e₂]
    exact Twin.remember_same (D := D) (fun s hs => hs) (Twin.perform_same hserves hp) skips

/-! ## Parses -/

/-- What is built from nodes of the builder itself and is guarded is grounded, when no forward is left-recursive. -/
theorem grounded_of_guarded {b : Builder} {root : ExprId} (h : b.Builds root g) (hmade : b.Made)
    (hleft : g.leftRecursive = []) (hguarded : g.Guarded) : g.Grounded := by
  have hordered : g.Ordered := h.ordered hmade.orderly
  have hrule {i : ExprId} {k : NodeKind} (hk : kindOf? g.nodes i = some k) : i < g.size ∧ (g.rule i).kind = k := by
    have hi : i < g.size := by
      rw [← g.size_nodes]
      exact lt_size_of_kindOf? hk
    rw [kindOf?, Grammar.getElem?_nodes hi] at hk
    exact ⟨hi, Option.some.inj hk⟩
  have hleft : leftRecursive g.nodes = [] := by rwa [h.nodes_eq, ← h.leftRecursive]
  refine ⟨hordered, not_transGen_placeEdges ?_ hleft ?_, ?_, ?_⟩
  · intro i k hk hforward j hj
    obtain ⟨hi, rfl⟩ := hrule hk
    exact hordered.backward hi hforward hj
  · intro i j hi hj hback
    have hi' : i < g.size := by rwa [← g.size_nodes]
    rw [edgesOf_of_getElem? (Grammar.getElem?_nodes hi')] at hj
    exact hguarded.here i hi' j hj (mem_preorder.mpr ⟨hi, j, List.mem_singleton_self j, hback⟩)
  · intro i j hi hj hback
    exact hguarded.back i hi j hj
      (mem_preorder.mpr ⟨Grammar.lt_size_nodes hi, j, List.mem_singleton_self j, hback⟩)
  · intro i hi t start r hr
    exact nullable_contains (isNullable_of_matchToken (hordered.spelled hi) (hguarded.patterns i hi) hr _)

/-- **A limit that depends on the length and the number of nodes is enough** for plain parses of guarded grammars
without left-recursive forwards. -/
theorem parse_settled_of_guarded {b : Builder} {root : ExprId} (hmade : b.Made) (hbuild : b.build root = .ok g)
    (hleft : g.leftRecursive = []) (hguarded : g.Guarded) {config : Config} (hmode : config.memoization = .disabled)
    (watch : Watch) (t : Text) (all : Bool) :
    Settled g config watch t all ((g.size + 1) * (((viewOf config t).size + 1) * (g.size + 1))) := by
  have hg : g.Grounded := grounded_of_guarded (Builder.builds_of_ok hbuild) hmade hleft hguarded
  let view := viewOf config t
  let top (limit : Nat) : Context := Context.top g (config.limited limit) watch view
  refine settled_of_same (I := fun s => s.memo = .off) ?_ ?_
  · intro s hmemo _
    rw [hmemo, hmode]
    rfl
  · intro limit limit' hlimit hlimit'
    have hpeers : (top limit).Peers (top limit') := ⟨rfl, rfl, rfl, rfl, rfl, rfl⟩
    have hroom (l : Nat) : (top l).room (attemptFuel (top l)) = l := room_top g (config.limited l) watch view
    have hmeets := guarded_same hg _ (top limit) (top limit') rfl hpeers hmode (le_refl view.size)
      (hlimit.trans (hroom limit).ge) (hlimit'.trans (hroom limit').ge)
    have hroot := nesting_le g view.size 0 g.root
    refine Twin.matchRoot_same rfl rfl (hmeets true g.root 0 hg.ordered.root view.isBoundary_zero hroot) ?_ all
    intro j hj
    have hj_lt := hg.ordered.known hg.ordered.root (List.mem_append_right _ hj)
    exact hmeets.here hg (hroot.trans (Nat.le_succ _)) (Grammar.leadsHere_of_ignores hg.ordered.root hj) hj_lt false

end Attempts

/-- Whether an expression is a pattern. -/
def NodeKind.isPattern : NodeKind → Bool
  | .pattern _ _ => true
  | _ => false

/-- Words, each after the first preceded by one, with comments between them that are made of a word too. -/
def precededWords : Builder :=
  .ofCalls [.literal "w" false, .literal "#" false, .sequence [1, 0], .forward "words", .precededBy 0 none,
    .sequence [0, 4, 3], .orderedChoice [5, 0], .bind 3 6, .ignore 6 2]

theorem parse_settled_of_guarded_precededWords : ∃ g, precededWords.build 6 = .ok g ∧ g.leftRecursive = [] ∧
    g.Guarded ∧ Settled g {} default "ww#w w".toList true ((g.size + 1) * ((6 + 1) * (g.size + 1))) := by
  let guarded (g : Grammar) : Bool := g.leftRecursive == []
    && decide (∀ i < g.size, ∀ j ∈ (g.rule i).ignores, i ∉ preorder (placeEdges g.nodes) g.nodes.size [j])
    && decide (∀ i < g.size, ∀ j ∈ (g.rule i).attemptsBack, i ∉ g.walk j)
    && decide (∀ i < g.size, (g.rule i).kind.isPattern = false)
  have h : (precededWords.build 6).toOption.any guarded = true := by decide +kernel
  cases hbuild : precededWords.build 6 with
  | error e =>
    rw [hbuild] at h
    exact absurd h (by simp [Except.toOption])
  | ok g =>
    rw [hbuild] at h
    simp only [Except.toOption, Option.any_some, guarded, Bool.and_eq_true, beq_iff_eq, decide_eq_true_eq] at h
    obtain ⟨⟨⟨hleft, hhere⟩, hback⟩, hkinds⟩ := h
    have hguarded : g.Guarded := by
      refine ⟨hhere, hback, ?_⟩
      intro i hi source p hk
      have hno := hkinds i hi
      rw [hk] at hno
      exact absurd hno Bool.noConfusion
    exact ⟨g, rfl, hleft, hguarded, parse_settled_of_guarded (Builder.made_ofCalls (by decide +kernel)) hbuild hleft
      hguarded rfl default "ww#w w".toList true⟩

/-! ## Necessity -/

/-- A computation that nests too deeply from every state in which nothing is remembered. -/
def Dives {α : Type} (m : MatchM α) : Prop :=
  Keeps (fun s => s.memo = .off) (fun h => h.isTooDeep = true) (fun _ => False) m

section Dives

variable {α β : Type} {m : MatchM α} {f : α → MatchM β} {a : Attempt} {c : Context} {i p : Nat}

theorem Dives.bind (h : Dives m) : Dives (m >>= f) := Keeps.bind h fun _ hfalse => hfalse.elim

/-- What comes before it does not keep a computation from nesting too deeply. -/
theorem dives_bind {P : α → Prop} (hm : Keeps (fun s => s.memo = .off) (fun h => h.isTooDeep = true) P m)
    (hf : ∀ x, P x → Dives (f x)) : Dives (m >>= f) :=
  Keeps.bind hm hf

theorem Dives.recover {m : MatchM Step} (h : Dives m) : Dives (MatchM.recover m) :=
  (Keeps.recover h fun _ hd => absurd hd Bool.false_ne_true).mono (fun _ => id) fun _ hh => hh.1

/-- Where the performance of an attempt nests too deeply with the room there is, so does the attempt. -/
theorem dives_attemptWithin {n : Nat} {acts skips : Bool} (hadjacent : c.adjacent = false)
    (h : Dives (perform (attemptWithin n) c.deeper i p acts skips)) : Dives (attemptWithin (n + 1) c i p acts skips) := by
  have hremember : Dives (remember (attemptWithin n) c.deeper i p acts skips) := by
    intro s hs
    have hskips : (skips && !c.deeper.adjacent) = skips := by
      rw [show c.deeper.adjacent = false from hadjacent]
      exact Bool.and_true skips
    rw [remember_off hs, hskips]
    exact h s.counted (s.counted_sameTables.memo.trans hs)
  rw [attemptWithin]
  split
  · split
    · exact Keeps.halt rfl
    · exact hremember
  · exact hremember

/-- Where an ignorable nests too deeply, so does skipping. -/
theorem dives_skipLeading {rule : Rule} {j : ExprId} (hignores : rule.ignores = [j])
    (h : Dives (a c j p false true)) : Dives (skipLeading a c rule p) := by
  rw [skipLeading, hignores, skipIgnorables]
  refine Dives.bind ?_
  show Dives (skipRounds a c [j] (c.text.size + 1) p)
  rw [skipRounds, skipEach, skipOne]
  exact (Dives.recover h).bind.bind.bind

/-- What is done before an attempt does not keep it from nesting too deeply. -/
theorem dives_after_report {watched : Bool} (h : Dives m) : Dives (reportTry c.watch watched i p >>= fun _ => m) := by
  refine dives_bind (P := fun _ => True) (Keeps.of_unit ?_) fun _ _ => h
  intro s hs
  obtain ⟨s', e, ht⟩ := reportTry_sameTables c.watch watched i p s
  exact ⟨s', e, ht.memo.trans hs⟩

theorem dives_perform_of_skip {acts : Bool} (h : Dives (skipLeading a c (c.rule i) p)) :
    Dives (perform a c i p acts true) :=
  dives_after_report h.bind

theorem dives_perform_of_match {acts skips : Bool} (hignores : (c.rule i).ignores = [])
    (h : ∀ q, Dives (matchNode a c i (c.rule i) q acts)) : Dives (perform a c i p acts skips) := by
  have hskip : Keeps (fun s => s.memo = .off) (fun h => h.isTooDeep = true) (fun _ => True)
      (skipLeading a c (c.rule i) p) := by
    rw [skipLeading, hignores]
    exact Keeps.pure trivial
  cases skips with
  | false => exact dives_after_report (h p).bind
  | true => exact dives_after_report (dives_bind hskip fun q _ => (h q).bind)

end Dives

/-- A choice over a literal that ignores a forward to the choice. -/
def selfIgnored : Builder :=
  .ofCalls [.literal "a" false, .orderedChoice [0], .forward "f", .bind 2 1, .ignore 0 2]

/-- The choice attempts the literal, which skips the forward first, which attempts the choice. -/
theorem dives_selfIgnored {g : Grammar} (hliteral : (g.rule 0).ignores = [2]) (hchoice : (g.rule 1).ignores = [])
    (hkind₁ : (g.rule 1).kind = .orderedChoice [0]) (hforward : (g.rule 2).ignores = []) {label : String}
    (hkind₂ : (g.rule 2).kind = .forward label (some 1)) (n : Nat) (c : Context) (hg : c.grammar = g)
    (hadjacent : c.adjacent = false) (hmode : c.config.memoization ≠ .leftRecursion) (p : Nat) (acts : Bool) :
    Dives (attemptWithin n c 0 p acts true) ∧ (∀ skips, Dives (attemptWithin n c 1 p acts skips)) ∧
      ∀ skips, Dives (attemptWithin n c 2 p acts skips) := by
  induction n generalizing c p acts with
  | zero =>
    have hend {i : ExprId} {skips : Bool} : Dives (attemptWithin 0 c i p acts skips) := Keeps.halt rfl
    exact ⟨hend, fun _ => hend, fun _ => hend⟩
  | succ n ih =>
    have ih (q : Nat) (acts : Bool) := ih c.deeper hg hadjacent hmode q acts
    have hrule (i : ExprId) : c.deeper.rule i = g.rule i := congrArg (Grammar.rule · i) hg
    refine ⟨dives_attemptWithin hadjacent ?_, fun skips => dives_attemptWithin hadjacent ?_,
      fun skips => dives_attemptWithin hadjacent ?_⟩
    · refine dives_perform_of_skip (dives_skipLeading ?_ ((ih p false).2.2 true))
      rw [hrule, hliteral]
    · refine dives_perform_of_match (by rw [hrule, hchoice]) fun q => ?_
      rw [hrule, matchNode, hkind₁]
      show Dives (matchFirst (attemptWithin n) c.deeper (g.rule 1) q acts [0] none)
      rw [matchFirst]
      exact (ih q acts).1.bind
    · refine dives_perform_of_match (by rw [hrule, hforward]) fun q => ?_
      rw [hrule, matchNode_forward (c := c.deeper) hmode hkind₂]
      exact (ih q acts).2.1 false

/-- No forward of it is left-recursive, as the analysis has it, and no limit is enough for any text. -/
theorem not_settled_selfIgnored :
    selfIgnored.Made ∧ ∃ g, selfIgnored.build 1 = .ok g ∧ g.leftRecursive = [] ∧
      ∀ limit, TooDeep (g.parse (Config.limited {} limit) default ['a'] true).outcome := by
  let circular (g : Grammar) : Bool := g.leftRecursive == [] && (g.rule 0).ignores == [2]
    && (g.rule 1).ignores == [] && (g.rule 2).ignores == []
  have h : (selfIgnored.build 1).toOption.any circular = true := by decide +kernel
  refine ⟨Builder.made_ofCalls (by decide +kernel), ?_⟩
  cases hbuild : selfIgnored.build 1 with
  | error e =>
    rw [hbuild] at h
    exact absurd h (by simp [Except.toOption])
  | ok g =>
    rw [hbuild] at h
    simp only [Except.toOption, Option.any_some, circular, Bool.and_eq_true, beq_iff_eq] at h
    obtain ⟨⟨⟨hleft, hliteral⟩, hchoice⟩, hforward⟩ := h
    have hbuilds : selfIgnored.Builds 1 g := Builder.builds_of_ok hbuild
    have hkind₁ : (g.rule 1).kind = .orderedChoice [0] := hbuilds.kind_eq rfl
    have hkind₂ : (g.rule 2).kind = .forward "f" (some 1) := hbuilds.kind_eq rfl
    refine ⟨g, rfl, hleft, fun limit => ?_⟩
    let c : Context := Context.top g (Config.limited {} limit) default (viewOf {} ['a'])
    let s₀ : State := { (State.initial {}).forget with journal := [] }
    have hdives : Dives (matchRoot c true) := by
      have hattempt := (dives_selfIgnored hliteral hchoice hkind₁ hforward hkind₂ (attemptFuel c) c rfl rfl
        Memoization.noConfusion 0 true).2.1 true
      rw [← hbuilds.root_eq] at hattempt
      exact hattempt.bind
    have hend := hdives s₀ rfl
    show TooDeep (resolve (viewOf {} ['a']) (matchRoot c true s₀)).1
    cases hr : matchRoot c true s₀ with
    | ok step s =>
      rw [hr] at hend
      exact hend.1.elim
    | error e s =>
      rw [hr] at hend
      exact tooDeep_toError _ hend.1

/-- Lookbehind may lead back too: what is looked for behind a letter is a letter after which the same is looked for. -/
example :
    let b := Builder.ofCalls [.setDefaultWhitespace ⟨[⟨' ', ' '⟩]⟩, .literal "a" false, .forward "f", .precededBy 1 none,
      .sequence [0, 2], .bind 1 3]
    let circular (g : Grammar) : Bool := g.leftRecursive == [] &&
      match (g.parse (Config.limited {} 20) default ['a'] true).outcome with
      | .error (.recursionLimit _ _) => true
      | _ => false
    (b.build 3).toOption.any circular = true := by decide +kernel

end Packrat
