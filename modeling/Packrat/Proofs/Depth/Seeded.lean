import Packrat.Proofs.Building.Finished
import Packrat.Proofs.Depth.Growth
import Packrat.Proofs.Depth.Runs

/-!
# `Packrat.Proofs.Depth.Seeded` — growing seeds bounds the nesting

Where forwards grow seeds, no attempt nests in itself without end, however the grammar recurses: from one attempt to
one nested in it, the position grows, or a forward has a seed that had none before, or the index of the node falls.
These three, in this order, bound the nesting.

What is known to have a seed is a set of keys. A forward that is attempted with actions takes seeds both with and
without them, so a set in which every forward without actions has its fellow stays one as long as actions run.

## Contents

* `unseeded`, `descent` — the measure, and how it falls;
* `opened`, `Paired` — the keys of the forwards that are open;
* `State.Seeded`, `growth_seeded` — states in which given keys have seeds;
* `SeededWithin`, `seeded_serves` — attempts that the measure bounds, and those that they make;
* `seeded_same` — **attempts are the same** wherever the room covers the measure;
* `parse_settled_of_seeds` — **a limit that depends on the length and the number of nodes is enough**.
-/

namespace Packrat

/-! ## The measure -/

/-- The forwards that are not known to have a seed at a position, counted among all nodes. -/
def unseeded (nodes : Nat) (keys : Finset SeedKey) (p : Nat) : Nat :=
  ((Finset.range nodes).filter fun f => (⟨p, f, false⟩ : SeedKey) ∉ keys).card

/-- A bound on the nesting of an attempt: by the text that is left, the forwards that have no seed, and the index of
the node. -/
def descent (nodes size : Nat) (keys : Finset SeedKey) (p i : Nat) : Nat :=
  (size - p) * (nodes * (nodes + 1)) + unseeded nodes keys p * nodes + i + 1

section Measure

variable {nodes size : Nat} {keys keys' : Finset SeedKey} {p q i j : Nat}

theorem unseeded_le (nodes : Nat) (keys : Finset SeedKey) (p : Nat) : unseeded nodes keys p ≤ nodes :=
  (Finset.card_filter_le _ _).trans (Finset.card_range nodes).le

/-- A forward that gets a seed is one less without. -/
theorem unseeded_lt (hsub : keys ⊆ keys') (hi : i < nodes) (hold : (⟨p, i, false⟩ : SeedKey) ∉ keys)
    (hnew : (⟨p, i, false⟩ : SeedKey) ∈ keys') : unseeded nodes keys' p < unseeded nodes keys p := by
  refine Finset.card_lt_card ⟨?_, ?_⟩
  · intro f hf
    obtain ⟨hmem, hnot⟩ := Finset.mem_filter.mp hf
    exact Finset.mem_filter.mpr ⟨hmem, fun h => hnot (hsub h)⟩
  · intro hback
    have hmem : i ∈ (Finset.range nodes).filter fun f => (⟨p, f, false⟩ : SeedKey) ∉ keys :=
      Finset.mem_filter.mpr ⟨Finset.mem_range.mpr hi, hold⟩
    exact (Finset.mem_filter.mp (hback hmem)).2 hnew

/-- Further on in the text the nesting is bounded by less, whatever has a seed there. -/
theorem descent_lt_of_lt (hpq : p < q) (hq : q ≤ size) (hj : j < nodes) :
    descent nodes size keys' q j < descent nodes size keys p i := by
  have hleft : (size - q) * (nodes * (nodes + 1)) + nodes * (nodes + 1) ≤ (size - p) * (nodes * (nodes + 1)) := by
    rw [← Nat.succ_mul]
    exact Nat.mul_le_mul_right _ (by omega)
  have hseeds : unseeded nodes keys' q * nodes ≤ nodes * nodes := Nat.mul_le_mul_right _ (unseeded_le _ _ _)
  have hsplit : nodes * (nodes + 1) = nodes * nodes + nodes := by ring
  unfold descent
  omega

/-- At one place a node with a smaller index is bounded by less. -/
theorem descent_lt_of_index (hj : j < i) : descent nodes size keys p j < descent nodes size keys p i := by
  unfold descent
  omega

/-- From a place on, nodes with smaller indices are bounded by less. -/
theorem descent_lt_of_le (hpq : p ≤ q) (hq : q ≤ size) (hj : j < i) (hi : i < nodes) :
    descent nodes size keys q j < descent nodes size keys p i := by
  rcases hpq.eq_or_lt with rfl | hlt
  · exact descent_lt_of_index hj
  · exact descent_lt_of_lt hlt hq (hj.trans hi)

/-- Where a forward gets a seed, all nodes are bounded by less than it was. -/
theorem descent_lt_of_opened (hpq : p ≤ q) (hq : q ≤ size)
    (hless : unseeded nodes keys' q < unseeded nodes keys q) (hj : j < nodes) :
    descent nodes size keys' q j < descent nodes size keys p i := by
  rcases hpq.eq_or_lt with rfl | hlt
  · have hseeds : unseeded nodes keys' p * nodes + nodes ≤ unseeded nodes keys p * nodes := by
      rw [← Nat.succ_mul]
      exact Nat.mul_le_mul_right _ hless
    unfold descent
    omega
  · exact descent_lt_of_lt hlt hq hj

/-- The nesting of a whole parse is bounded by the length of the text and the number of nodes. -/
theorem descent_le (hi : i < nodes) : descent nodes size keys p i ≤ (size + 1) * nodes * (nodes + 1) := by
  have hleft : (size - p) * (nodes * (nodes + 1)) ≤ size * (nodes * (nodes + 1)) := Nat.mul_le_mul_right _ (by omega)
  have hseeds : unseeded nodes keys p * nodes ≤ nodes * nodes := Nat.mul_le_mul_right _ (unseeded_le _ _ _)
  have hsplit : (size + 1) * nodes * (nodes + 1) = size * (nodes * (nodes + 1)) + (nodes * nodes + nodes) := by ring
  unfold descent
  omega

end Measure

/-! ## Keys of open forwards -/

/-- Keys with those of a forward that starts to grow. -/
def opened (known : Finset SeedKey) (keys : SeedKeys) (acts : Bool) : Finset SeedKey :=
  insert (keys.key false) (if acts then insert (keys.key true) known else known)

theorem mem_opened {known : Finset SeedKey} {keys : SeedKeys} {acts : Bool} {key : SeedKey} :
    key ∈ opened known keys acts ↔ keys.Owns acts key ∨ key ∈ known := by
  unfold opened SeedKeys.Owns
  cases acts with
  | false => simp
  | true => simp [or_assoc]

/-- As long as actions run, a forward that has a seed without actions has one with them. -/
def Paired (known : Finset SeedKey) (acts : Bool) : Prop :=
  acts = true → ∀ p f, (⟨p, f, false⟩ : SeedKey) ∈ known → (⟨p, f, true⟩ : SeedKey) ∈ known

theorem Paired.opened {known : Finset SeedKey} {keys : SeedKeys} {acts : Bool} (h : Paired known acts) (b : Bool)
    (hb : b = true → acts = true) : Paired (opened known keys acts) b := by
  intro hb' p f hmem
  obtain rfl := hb hb'
  rcases mem_opened.mp hmem with hown | hold
  · refine mem_opened.mpr (Or.inl (Or.inr ⟨rfl, ?_⟩))
    have heq := hown.eq
    cases heq
    rfl
  · exact mem_opened.mpr (Or.inr (h rfl p f hold))

/-! ## States in which keys have seeds -/

/-- Nothing is remembered, every seed ends at a place, and the given keys have seeds. -/
structure State.Seeded (t : Text) (known : Finset SeedKey) (s : State) : Prop where
  off : s.memo = .off
  lands : ∀ key step, s.seeds.get? key = some step → step.Lands t key.position True
  held : ∀ key ∈ known, s.seeds.get? key ≠ none

namespace State.Seeded

variable {t : Text} {known : Finset SeedKey} {s s' : State}

theorem congr (h : s.Seeded t known) (hs : s'.SameTables s) : s'.Seeded t known := by
  refine ⟨hs.memo.trans h.off, ?_, ?_⟩
  · rw [hs.seeds]
    exact h.lands
  · rw [hs.seeds]
    exact h.held

theorem put (h : s.Seeded t known) {key : SeedKey} {step : Step} (hstep : step.Lands t key.position True) :
    (s.withSeeds (·.insert key step)).Seeded t (insert key known) := by
  refine ⟨h.off, ?_, ?_⟩
  · intro key' step' hget
    by_cases hk : key' = key
    · subst hk
      obtain rfl : step = step' := by simpa using hget
      exact hstep
    · rw [State.withSeeds_seeds, Seeds.get?_insert_of_ne _ _ hk] at hget
      exact h.lands key' step' hget
  · intro key' hmem
    by_cases hk : key' = key
    · subst hk
      simp
    · rw [State.withSeeds_seeds, Seeds.get?_insert_of_ne _ _ hk]
      exact h.held key' ((Finset.mem_insert.mp hmem).resolve_left hk)

theorem subset {fewer : Finset SeedKey} (h : s.Seeded t known) (hsub : fewer ⊆ known) : s.Seeded t fewer :=
  ⟨h.off, h.lands, fun key hkey => h.held key (hsub hkey)⟩

end State.Seeded

/-- While the seed of a forward grows that had none, its keys are known besides those known before. -/
theorem growth_seeded {t : Text} {known : Finset SeedKey} {keys : SeedKeys} {acts : Bool} (hp : t.IsBoundary keys.position)
    (hnew : ∀ key, keys.Owns acts key → key ∉ known) :
    Growth (State.Seeded t known) (State.Seeded t (opened known keys acts)) (fun h => h.isTooDeep = false)
      (Step.Lands t keys.position True) t keys acts := by
  have hput {s : State} {step : Step} {b : Bool} {more : Finset SeedKey} (hs : s.Seeded t more)
      (hstep : step.Lands t keys.position True) :
      (s.withSeeds (·.insert (keys.key b) step)).Seeded t (insert (keys.key b) more) :=
    State.Seeded.put hs (show step.Lands t (keys.key b).position True from hstep)
  constructor
  · exact hp.le_size
  · exact fun hstop => ⟨hstop.le, hstop.place.le_size⟩
  · trivial
  · exact fun hs hget => hs.lands _ _ hget
  · intro s hs _
    have hfirst {b : Bool} {more : Finset SeedKey} {s : State} (hs : s.Seeded t more) :
        (s.withSeeds (·.insert (keys.key b) (firstSeed keys.position))).Seeded t (insert (keys.key b) more) :=
      hput hs trivial
    cases acts with
    | false => exact hfirst hs
    | true => exact (hfirst (b := true) (hfirst (b := false) hs)).subset (by simp [opened, Finset.insert_comm])
  · exact fun hs => ⟨hs.off, hs.lands, hs.held⟩
  · exact fun hs hstep hown => (hput hs hstep).subset (Finset.subset_insert _ _)
  · exact fun hs hget => hs.lands _ _ hget
  · exact fun hs => hs.subset fun key hkey => mem_opened.mpr (Or.inr hkey)
  · intro s hs
    refine ⟨hs.off, ?_, ?_⟩
    · intro key step hget
      by_cases hown : keys.Owns acts key
      · rw [State.withSeeds_seeds, SeedKeys.get?_unset_of_owns hown] at hget
        exact absurd hget (by simp)
      · rw [State.withSeeds_seeds, SeedKeys.get?_unset_of_not_owns hown] at hget
        exact hs.lands key step hget
    · intro key hkey
      rw [State.withSeeds_seeds, SeedKeys.get?_unset_of_not_owns fun hown => hnew key hown hkey]
      exact hs.held key (mem_opened.mpr (Or.inr hkey))

/-! ## Attempts -/

/-- Whether an expression looks behind the position. -/
def NodeKind.looksBehind : NodeKind → Bool
  | .precededBy _ _ => true
  | _ => false

/-- A grammar without ignorables and without lookbehind. -/
structure Grammar.Forthright (g : Grammar) : Prop where
  ordered : g.Ordered
  ignores : ∀ i, (g.rule i).ignores = []
  ahead : ∀ i, (g.rule i).kind.looksBehind = false

section Attempts

variable {g : Grammar}

/-- Two runs that grow seeds, in states in which given keys have seeds. -/
@[reducible] def seededTwin (known : Finset SeedKey) (a₁ a₂ : Attempt) (c₁ c₂ : Context) (hc : c₁.grammar = g)
    (hpeers : c₁.Peers c₂) : Twin g where
  inv := State.Seeded c₁.text known
  halts h := h.isTooDeep = false
  first := a₁
  second := a₂
  c₁ := c₁
  c₂ := c₂
  empty _ := true
  grammar := hc
  peers := hpeers
  stable := fun hs ht => hs.congr ht
  ordinary := fun h _ => h
  nullable _ _ := rfl

/-- A forward that is open already is answered by its seed. -/
theorem growSeed_held {t : Text} {known : Finset SeedKey} {a₁ a₂ : Attempt} {c₁ c₂ : Context} {rule : Rule}
    {i target : ExprId} {p : Nat} {acts : Bool} (h : (⟨p, i, acts⟩ : SeedKey) ∈ known) :
    Concur (State.Seeded t known) (fun h => h.isTooDeep = false) (Step.Lands t p True)
      (growSeed a₁ c₁ rule i target p acts) (growSeed a₂ c₂ rule i target p acts) := by
  constructor
  · intro s hs
    obtain ⟨step, hget⟩ := Option.ne_none_iff_exists'.mp (hs.held _ h)
    rw [growSeed_answered hget]
    exact ⟨hs.lands _ step hget, hs⟩
  · intro s hs
    obtain ⟨step, hget⟩ := Option.ne_none_iff_exists'.mp (hs.held _ h)
    rw [growSeed_answered hget, growSeed_answered hget]

/-- A forward is matched alike when its target is attempted alike wherever the forward gets a seed that it had not. -/
theorem forward_same {known : Finset SeedKey} {acts : Bool} (hpaired : Paired known acts) {a₁ a₂ : Attempt}
    {c₁ c₂ : Context} {i target : ExprId} {label : String} (hk : (g.rule i).kind = .forward label (some target))
    (hpeers : c₁.Peers c₂) (hmode : c₁.config.memoization = .leftRecursion) {q : Nat} (hq : c₁.text.IsBoundary q)
    (htarget : (∀ key, (SeedKeys.mk q i).Owns acts key → key ∉ known) → ∀ b, (b = true → acts = true) →
      Concur (State.Seeded c₁.text (opened known ⟨q, i⟩ acts)) (fun h => h.isTooDeep = false)
        (Step.Lands c₁.text q True) (a₁ c₁ target q b false) (a₂ c₂ target q b false)) :
    Concur (State.Seeded c₁.text known) (fun h => h.isTooDeep = false) (Step.Lands c₁.text q True)
      (matchNode a₁ c₁ i (g.rule i) q acts) (matchNode a₂ c₂ i (g.rule i) q acts) := by
  simp only [matchNode, hk, ← hpeers.memoization, hmode, if_true]
  by_cases hheld : (⟨q, i, acts⟩ : SeedKey) ∈ known
  · exact growSeed_held hheld
  · -- the forward has a seed from here on, and had none before
    have hnew : ∀ key, (SeedKeys.mk q i).Owns acts key → key ∉ known := by
      rintro key (rfl | ⟨rfl, rfl⟩) hmem
      · cases acts with
        | false => exact hheld hmem
        | true => exact hheld (hpaired rfl q i hmem)
      · exact hheld hmem
    have hgrowth : Growth (State.Seeded c₁.text known) (State.Seeded c₁.text (opened known ⟨q, i⟩ acts))
        (fun h => h.isTooDeep = false) (Step.Lands c₁.text q True) c₁.text ⟨q, i⟩ acts := growth_seeded hq hnew
    exact growSeed_same hgrowth (htarget hnew) hpeers.text.symm hpeers.growthLimit.symm (Or.inl fun _ _ => rfl)

/-- Attempts whose nesting is bounded by `k` are the same in both runs, whatever has a seed. -/
def SeededWithin (a₁ a₂ : Attempt) (c₁ c₂ : Context) (hc : c₁.grammar = g) (hpeers : c₁.Peers c₂) (k : Nat) : Prop :=
  ∀ ⦃known acts i p⦄, Paired known acts → i < g.size → c₁.text.IsBoundary p →
    descent g.size c₁.text.size known p i ≤ k → (seededTwin known a₁ a₂ c₁ c₂ hc hpeers).Meets acts i p

section Serves

variable {a₁ a₂ : Attempt} {c₁ c₂ : Context} {hc : c₁.grammar = g} {hpeers : c₁.Peers c₂} {k : Nat}
  {known : Finset SeedKey} {acts : Bool} {i : ExprId} {p q : Nat}

/-- The attempts that the match of a node can make are bounded by less than its own. -/
theorem seeded_serves (hg : g.Forthright) (hmode : c₁.config.memoization = .leftRecursion) (hi : i < g.size)
    (hk : descent g.size c₁.text.size known p i ≤ k + 1) (hpaired : Paired known acts)
    (hmeets : SeededWithin a₁ a₂ c₁ c₂ hc hpeers k)
    (hcombined : SeededWithin a₁ a₂ c₁.combined c₂.combined hc hpeers.combined k)
    (hle : p ≤ q) (hq : c₁.text.IsBoundary q) : (seededTwin known a₁ a₂ c₁ c₂ hc hpeers).Serves i q acts := by
  have hless {j : ExprId} {q' : Nat} {keys : Finset SeedKey}
      (h : descent g.size c₁.text.size keys q' j < descent g.size c₁.text.size known p i) :
      descent g.size c₁.text.size keys q' j ≤ k :=
    Nat.le_of_lt_succ (h.trans_le hk)
  have hchild {j : ExprId} {q' : Nat} (hq' : c₁.text.IsBoundary q') (hle' : q ≤ q') (hj : j < i) :
      (seededTwin known a₁ a₂ c₁ c₂ hc hpeers).Meets acts j q' :=
    hmeets hpaired (hj.trans hi) hq' (hless (descent_lt_of_le (hle.trans hle') hq'.le_size hj hi))
  have hnone (k j : ExprId) : j ∉ (g.rule k).ignores := by
    rw [hg.ignores]
    exact List.not_mem_nil
  constructor
  · intro hf j hj
    exact hchild hq (le_refl q) (hg.ordered.backward hi hf (NodeKind.leftCalls_subset _ _ hj))
  · intro j hj q' hlt hq'
    have hj := hg.ordered.child_lt hi hj
    exact hmeets hpaired hj hq' (hless (descent_lt_of_lt (hle.trans_lt hlt) hq'.le_size hj))
  · intro children hk j hj q' hle' hq'
    have hj : j < i := hg.ordered.backward hi (by simp [hk]) (by simpa [hk, NodeKind.children] using hj)
    exact hchild hq' hle' ((hg.ordered.test_le (hj.trans hi)).trans_lt hj)
  · exact fun j hj => absurd hj (hnone i j)
  · exact fun target _ _ _ j hj => absurd hj (hnone target j)
  · exact fun _ j hj => absurd hj (hnone i j)
  · intro child joiner hkind
    have hchild : child < i := hg.ordered.backward hi (by simp [hkind]) (by simp [hkind, NodeKind.children])
    exact hcombined hpaired (hchild.trans hi) hq (hless (descent_lt_of_le hle hq.le_size hchild hi))
  · intro child retreat hkind
    have hahead := hg.ahead i
    rw [hkind] at hahead
    exact absurd hahead (by simp [NodeKind.looksBehind])
  · intro label target hkind
    have htarget : target < g.size := hg.ordered.child_lt hi (by simp [hkind, NodeKind.children])
    refine Concur.mono (forward_same hpaired hkind hpeers hmode hq ?_) (fun step hstep => hstep.weaken fun _ => rfl)
      fun _ => id
    -- the forward has a seed now, so fewer forwards are without one
    intro hnew b hb
    have hfewer : unseeded g.size (opened known ⟨q, i⟩ acts) q < unseeded g.size known q :=
      unseeded_lt (fun key hkey => mem_opened.mpr (Or.inr hkey)) hi (hnew _ (Or.inl rfl))
        (mem_opened.mpr (Or.inl (Or.inl rfl)))
    have hopened : (seededTwin (opened known ⟨q, i⟩ acts) a₁ a₂ c₁ c₂ hc hpeers).Meets b target q :=
      hmeets (hpaired.opened b hb) htarget hq (hless (descent_lt_of_opened hle hq.le_size hfewer htarget))
    exact (hopened b false id).mono fun step hstep => hstep.weaken fun _ => trivial
  · exact fun _ _ => rfl

end Serves

/-- **Attempts are the same** wherever the room of both runs covers the measure. -/
theorem seeded_same (hg : g.Forthright) (k : Nat) {n m : Nat} (c₁ c₂ : Context) (hc : c₁.grammar = g) (hpeers : c₁.Peers c₂)
    (hmode : c₁.config.memoization = .leftRecursion) (h₁ : k ≤ c₁.room n) (h₂ : k ≤ c₂.room m) :
    SeededWithin (attemptWithin n) (attemptWithin m) c₁ c₂ hc hpeers k := by
  induction k generalizing n m c₁ c₂ with
  | zero => exact fun known acts i p _ _ _ hk => absurd hk (by unfold descent; omega)
  | succ k ih =>
    intro known acts i p hpaired hi hp hk b skips hb
    obtain ⟨k₁, hk₁⟩ : ∃ k₁, c₁.room n = k₁ + 1 := ⟨c₁.room n - 1, by omega⟩
    obtain ⟨k₂, hk₂⟩ : ∃ k₂, c₂.room m = k₂ + 1 := ⟨c₂.room m - 1, by omega⟩
    obtain ⟨n', hn', e₁⟩ := attemptWithin_of_room_succ hk₁
    obtain ⟨m', hm', e₂⟩ := attemptWithin_of_room_succ hk₂
    have hroom₁ : k ≤ c₁.deeper.room n' := by omega
    have hroom₂ : k ≤ c₂.deeper.room m' := by omega
    let D : Twin g := seededTwin known (attemptWithin n') (attemptWithin m') c₁.deeper c₂.deeper hc hpeers.deeper
    have hmeets := ih c₁.deeper c₂.deeper hc hpeers.deeper hmode hroom₁ hroom₂
    have hcombined := ih c₁.deeper.combined c₂.deeper.combined hc hpeers.deeper.combined hmode hroom₁ hroom₂
    have hserves (q : Nat) (hle : p ≤ q) (hq : c₁.text.IsBoundary q) : D.Serves i q b :=
      seeded_serves hg hmode hi hk (fun hb' => hpaired (hb hb')) hmeets hcombined hle hq
    show Concur _ _ _ (attemptWithin n c₁ i p b skips) (attemptWithin m c₂ i p b skips)
    rw [e₁, e₂]
    exact Twin.remember_same (D := D) (fun s hs => hs.off) (Twin.perform_same hserves hp) skips

/-! ## Parses -/

/-- A grammar whose builder has no ignorables and does not look behind has neither. -/
theorem forthright_of_builds {b : Builder} {root : ExprId} (h : b.Builds root g) (hmade : b.Made)
    (hplain : ∀ n ∈ b.nodes, n.ignores = [] ∧ n.kind.looksBehind = false) : g.Forthright := by
  have hnone {s : ExprId} : edgesOf b.nodes (·.ignores) s = [] := by
    unfold edgesOf
    cases hn : b.nodes[s]? with
    | none => rfl
    | some n => exact (hplain n (Array.mem_of_getElem? hn)).1
  have hnode (i : ExprId) : (g.rule i).ignores = [] ∧ (g.rule i).kind.looksBehind = false := by
    rcases Nat.lt_or_ge i g.size with hi | hi
    · obtain ⟨n, hn, hinherits⟩ := h.node hi
      obtain ⟨hignores, hahead⟩ := hplain n (Array.mem_of_getElem? hn)
      refine ⟨List.eq_nil_iff_forall_not_mem.mpr fun j hj => ?_, ?_⟩
      · rcases hinherits.ignores j hj with hj | ⟨s, hs, -⟩
        · rw [hignores] at hj
          exact List.not_mem_nil hj
        · rw [hnone] at hs
          exact List.not_mem_nil hs
      · rw [hinherits.kind]
        exact hahead
    · have hrule : g.rule i = default := by
        unfold Grammar.rule
        rw [Array.getElem?_eq_none_iff.mpr hi]
        rfl
      rw [hrule]
      exact ⟨rfl, rfl⟩
  exact ⟨h.ordered hmade.orderly, fun i => (hnode i).1, fun i => (hnode i).2⟩

/-- **A limit that depends on the length of the text and the number of nodes is enough** for every grammar without
ignorables and lookbehind, left-recursive or not, when forwards grow seeds. -/
theorem parse_settled_of_seeds {b : Builder} {root : ExprId} (hmade : b.Made) (hbuild : b.build root = .ok g)
    (hplain : ∀ n ∈ b.nodes, n.ignores = [] ∧ n.kind.looksBehind = false) {config : Config}
    (hmode : config.memoization = .leftRecursion) (watch : Watch) (t : Text) (all : Bool) :
    Settled g config watch t all (((viewOf config t).size + 2) * g.size * (g.size + 1)) := by
  have hg : g.Forthright := forthright_of_builds (Builder.builds_of_ok hbuild) hmade hplain
  let view := viewOf config t
  let top (limit : Nat) : Context := Context.top g (config.limited limit) watch view
  refine settled_of_same (I := State.Seeded view ∅) ?_ ?_
  · intro s hmemo hseeds
    refine ⟨by rw [hmemo, hmode]; rfl, ?_, by simp⟩
    rw [hseeds]
    exact fun key step hget => absurd hget (by simp)
  · intro limit limit' hlimit hlimit'
    have hpeers : (top limit).Peers (top limit') := ⟨rfl, rfl, rfl, rfl, rfl, rfl⟩
    have hroom (l : Nat) : (top l).room (attemptFuel (top l)) = l := room_top g (config.limited l) watch view
    have hbound : descent g.size view.size ∅ 0 g.root ≤ (view.size + 2) * g.size * (g.size + 1) :=
      (descent_le hg.ordered.root).trans (Nat.mul_le_mul_right _ (Nat.mul_le_mul_right _ (by omega)))
    have hwithin := seeded_same hg _ (top limit) (top limit') rfl hpeers hmode
      ((hbound.trans hlimit).trans (hroom limit).ge) ((hbound.trans hlimit').trans (hroom limit').ge)
    have hpaired : Paired ∅ true := by simp [Paired]
    have hmeets := hwithin hpaired hg.ordered.root view.isBoundary_zero (le_refl _)
    refine Twin.matchRoot_same rfl rfl hmeets ?_ all
    intro j hj
    rw [hg.ignores] at hj
    exact absurd hj List.not_mem_nil

end Attempts

/-- Sums by left recursion: a sum with a plus sign and a name after it, or a name. -/
def leftSum : Builder :=
  .ofCalls [.literal "n" false, .literal "+" false, .forward "sum", .sequence [2, 1, 0], .orderedChoice [3, 0], .bind 2 4]

theorem parse_settled_of_seeds_leftSum : ∃ g, leftSum.build 2 = .ok g ∧
    Settled g .leftRecursion default "n+n".toList true ((3 + 2) * g.size * (g.size + 1)) := by
  have hok : (leftSum.build 2).isOk = true := by decide +kernel
  cases hbuild : leftSum.build 2 with
  | error e =>
    rw [hbuild] at hok
    exact absurd hok Bool.false_ne_true
  | ok g =>
    refine ⟨g, rfl, ?_⟩
    exact parse_settled_of_seeds (Builder.made_ofCalls (by decide +kernel)) hbuild (by decide +kernel) rfl default
      "n+n".toList true

end Packrat
