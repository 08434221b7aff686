import Packrat.Parser
import Packrat.Proofs.Coupling.Runs
import Packrat.Proofs.Placement.Boundary
import Packrat.Proofs.Seeds.Ledger

/-!
# `Packrat.Proofs.Seeds.IndirectCycle` — a rule that recurs through others

A forward `r` stands for `s x | y`, where `s` leads back to `r` through one forward or several. While `r` is
attempted for the first time each of these fails, and its failure stays behind as its seed. In the next round
`s` is answered by that seed and not attempted again: `r` never grows beyond `y`.

## Contents

* `IndirectCycle` — the shape of such grammars, and `cyclic` — one for every number of forwards;
* `link_ends` — the forwards fail one after the other;
* `choice_ends`, `root_ends` — every round comes to `y`;
* `IndirectCycle.resolves_iff` — **the cycle is resolved** only for a text without `x`.
-/

namespace Packrat

/-! ## The shape -/

/-- A string that starts with a character outside a set. -/
def Text.StartsOutside (set : CharSet) (t : Text) : Prop := ∃ c ∈ t.head?, set.contains c = false

theorem Text.StartsOutside.head {set : CharSet} {t : Text} (h : t.StartsOutside set) (rest : Text) :
    ∀ c ∈ (t ++ rest).head?, set.contains c = false := by
  obtain ⟨d, hd, hout⟩ := h
  cases t with
  | nil => exact absurd hd (by simp)
  | cons e r =>
    intro c hc
    obtain rfl : e = d := by simpa using hd
    obtain rfl : e = c := by simpa using hc
    exact hout

/-- The last link is a forward for the choice between a recursion and the literal `y`; the recursion is a sequence
of the first link and the literal `x`; and each other link is a forward for the next one. -/
structure IndirectCycle (g : Grammar) (k : Nat) (x y : String) where
  link : Nat → ExprId
  choice : ExprId
  recursion : ExprId
  base : ExprId
  tail : ExprId
  positive : 0 < k
  root : g.root = link k
  link_kind : ∀ j < k, ∃ label, (g.rule (link j)).kind = .forward label (some (link (j + 1)))
  last_kind : ∃ label, (g.rule (link k)).kind = .forward label (some choice)
  choice_kind : (g.rule choice).kind = .orderedChoice [recursion, base]
  recursion_kind : (g.rule recursion).kind = .sequence [link 0, tail]
  base_kind : (g.rule base).kind = .literal y false
  tail_kind : (g.rule tail).kind = .literal x false
  ignores : ∀ i, (g.rule i).ignores = []
  whitespace : ∀ i ∈ [link k, recursion, base, tail], (g.rule i).whitespace = g.defaultWhitespace
  base_starts : Text.StartsOutside g.defaultWhitespace y.toList
  tail_starts : Text.StartsOutside g.defaultWhitespace x.toList

/-! ## Literals -/

theorem matchLiteral?_append (l r : Text) : matchLiteral? false l (l ++ r) = some l.size := by
  induction l with
  | nil => cases r <;> rfl
  | cons c l ih => simp [matchLiteral?, ih]

/-- Nothing is skipped where a character outside the set stands. -/
theorem Text.skip_eq_self {set : Char → Bool} {t : Text} {p : Nat} (h : ∀ c ∈ t.charAt? p, set c = false) :
    t.skip set p = p := by
  unfold Text.charAt? at h
  unfold Text.skip
  cases hr : t.rest p with
  | nil => rfl
  | cons c r =>
    rw [hr] at h
    rw [List.takeWhile_cons_of_neg (by simp [h c rfl])]
    rfl

namespace IndirectCycle

variable {g : Grammar} {k : Nat} {x y : String} (D : IndirectCycle g k x y)

/-! ## The links -/

/-- No other link is the last one. -/
theorem link_ne_last {j : Nat} (hj : j < k) : D.link j ≠ D.link k := by
  intro h
  obtain ⟨label, hlast⟩ := D.last_kind
  obtain ⟨label', hk⟩ := D.link_kind j hj
  rw [h, hlast] at hk
  have hchoice : D.choice = D.link (j + 1) := by simpa using (NodeKind.forward.inj hk).2
  -- the next link is a forward, the choice is none
  have hforward : ∃ label target, (g.rule (D.link (j + 1))).kind = .forward label target := by
    rcases Nat.lt_or_ge (j + 1) k with hlt | hge
    · obtain ⟨label, h⟩ := D.link_kind (j + 1) hlt
      exact ⟨label, _, h⟩
    · obtain rfl : j + 1 = k := by omega
      exact ⟨label, _, hlast⟩
  obtain ⟨label, target, hforward⟩ := hforward
  rw [← hchoice, D.choice_kind] at hforward
  exact absurd hforward (by simp)

/-- All links are different. -/
theorem link_injOn : Set.InjOn D.link (Set.Iic k) := by
  have hlt {i j : Nat} (hij : i < j) (hj : j ≤ k) : D.link i ≠ D.link j := by
    obtain ⟨d, hd⟩ : ∃ d, j + d = k := ⟨k - j, by omega⟩
    induction d generalizing i j with
    | zero =>
      obtain rfl : j = k := hd
      exact D.link_ne_last hij
    | succ d ih =>
      intro h
      obtain ⟨label, hi⟩ := D.link_kind i (by omega)
      obtain ⟨label', hj'⟩ := D.link_kind j (by omega)
      rw [h, hj'] at hi
      -- equal links are forwards for equal links, and so on to the last one
      have hnext : D.link (i + 1) = D.link (j + 1) := by simpa using (NodeKind.forward.inj hi).2.symm
      exact ih (i := i + 1) (j := j + 1) (by omega) (by omega) (by omega) hnext
  intro i hi j hj h
  rcases Nat.lt_trichotomy i j with hij | rfl | hij
  · exact absurd h (hlt hij hj)
  · rfl
  · exact absurd h.symm (hlt hij hi)

include D in
/-- A grammar has more nodes than a cycle in it has links to pass. -/
theorem lt_size : k < g.size := by
  have hmem (j : Nat) (hj : j ≤ k) : D.link j < g.size := by
    obtain ⟨label, target, hk⟩ : ∃ label target, (g.rule (D.link j)).kind = .forward label target := by
      rcases Nat.lt_or_ge j k with hlt | hge
      · obtain ⟨label, h⟩ := D.link_kind j hlt
        exact ⟨label, _, h⟩
      · obtain rfl : j = k := by omega
        obtain ⟨label, h⟩ := D.last_kind
        exact ⟨label, _, h⟩
    by_contra hge
    have hnone : g.rules[D.link j]? = none := Array.getElem?_eq_none (Nat.not_lt.mp hge)
    rw [Grammar.rule, hnone] at hk
    have hdefault : (default : Rule).kind = .literal "" false := rfl
    rw [Option.getD_none, hdefault] at hk
    exact absurd hk (by simp)
  have hcard := Finset.card_le_card_of_injOn (s := Finset.Iic k) (t := Finset.range g.size) D.link
    (fun j hj => by simpa using hmem j (by simpa using hj)) (by simpa using D.link_injOn)
  simpa using hcard

/-- Seeds are only added. -/
def Extends (l l' : Ledger) : Prop := ∀ key step, l.seeds.get? key = some step → l'.seeds.get? key = some step

/-- All seeds of links but the last one are the first one, or the failure they came to from it. -/
def Stale (l : Ledger) : Prop :=
  ∀ j < k, ∀ b step, l.seeds.get? ⟨0, D.link j, b⟩ = some step → step = firstSeed 0

/-- What the attempt of a link comes to: its seed is the first one now. -/
structure Failed (l : Ledger) (j : Nat) (b : Bool) (step : Step) (l' : Ledger) : Prop where
  step : step = firstSeed 0
  stale : D.Stale l'
  kept : Extends l l'
  seed : l'.seeds.get? ⟨0, D.link j, b⟩ = some (firstSeed 0)

variable {D}

theorem Stale.set {l : Ledger} (h : D.Stale l) (f : ExprId) (b : Bool) :
    D.Stale (l.withSeeds (SeedKeys.set ⟨0, f⟩ b (firstSeed 0))) := by
  intro j hj b' step hget
  by_cases hown : (SeedKeys.mk 0 f).Owns b ⟨0, D.link j, b'⟩
  · rw [Ledger.withSeeds, SeedKeys.get?_set_of_owns hown] at hget
    exact (Option.some.inj hget).symm
  · rw [Ledger.withSeeds, SeedKeys.get?_set_of_not_owns hown] at hget
    exact h j hj b' step hget

theorem Stale.extends_set {l : Ledger} (h : D.Stale l) {j : Nat} (hj : j < k) (b : Bool) :
    Extends l (l.withSeeds (SeedKeys.set ⟨0, D.link j⟩ b (firstSeed 0))) := by
  intro key step hget
  by_cases hown : (SeedKeys.mk 0 (D.link j)).Owns b key
  · have hstep : step = firstSeed 0 := by
      rw [hown.eq] at hget
      exact h j hj _ step hget
    rw [Ledger.withSeeds, SeedKeys.get?_set_of_owns hown, hstep]
  · rw [Ledger.withSeeds, SeedKeys.get?_set_of_not_owns hown]
    exact hget

theorem Extends.trans {l₁ l₂ l₃ : Ledger} (h : Extends l₁ l₂) (h' : Extends l₂ l₃) : Extends l₁ l₃ :=
  fun key step hget => h' key step (h key step hget)

variable (D)

/-- **Every link fails**, as long as the last one has its first seed: from its own seed, or because the next link
does. -/
theorem link_ends {t : Text} {limit : Option Nat} {c : Context} (hc : c.Seeding g t limit) {n j : Nat} (hj : j ≤ k)
    (hroom : k - j < c.room n) {b : Bool} (hb : j = k → b = false) {l : Ledger} (hstale : D.Stale l)
    (hlast : l.seeds.get? ⟨0, D.link k, false⟩ = some (firstSeed 0)) :
    Ends (fun _ => False) l (attemptWithin n c (D.link j) 0 b false) (D.Failed l j b) := by
  obtain ⟨d, hd⟩ : ∃ d, j + d = k := ⟨k - j, by omega⟩
  induction d generalizing j n c b l with
  | zero =>
    obtain rfl : j = k := hd
    obtain rfl := hb rfl
    obtain ⟨label, hkind⟩ := D.last_kind
    -- the last link is open: it is answered by the seed it starts with
    refine hc.attempt_ends (D.ignores _) (fun h => absurd h (by omega)) ?_
    intro m hm
    exact hc.deeper.forward_ends_of_seed hkind hlast ⟨rfl, hstale, fun _ _ h => h, hlast⟩
  | succ d ih =>
    have hlt : j < k := by omega
    obtain ⟨label, hkind⟩ := D.link_kind j hlt
    refine hc.attempt_ends (D.ignores _) (fun h => absurd h (by omega)) ?_
    intro m hm
    rw [Rule.lead_false]
    cases hget : l.seeds.get? ⟨0, D.link j, b⟩ with
    | some step =>
      obtain rfl := hstale j hlt b step hget
      exact hc.deeper.forward_ends_of_seed hkind hget ⟨rfl, hstale, fun _ _ h => h, hget⟩
    | none =>
      have hset := hstale.extends_set hlt b
      -- the link is opened and fails with the next one, and that failure stays
      refine hc.deeper.forward_ends_of_failure hkind (d := baseless 0) hget ?_
      refine (ih hc.deeper (by omega) (by omega) (b := false) (by simp) (hstale.set _ b) (hset _ _ hlast)
        (by omega)).mono fun step l' h => ⟨h.step, rfl, h.stale.set _ b, ?_, ?_⟩
      · exact (hset.trans h.kept).trans (h.stale.extends_set hlt b)
      · exact SeedKeys.get?_set_of_owns (SeedKeys.owns_key_self ⟨0, D.link j⟩ b) _ _

/-! ## Rounds -/

/-- The match of the literal `y` by the choice. -/
def baseMatch : Step :=
  .matched (Text.size y.toList) (((ResultsOf.single (Value.str y)).withOrigin D.base).withOrigin D.choice)

section Rounds

variable {rest : Text} {limit : Option Nat} {c : Context} (hc : c.Seeding g (y.toList ++ rest) limit)
include hc

omit hc in
/-- Nothing is skipped before `y`. -/
theorem lead_zero {i : ExprId} (hi : i ∈ [D.link k, D.recursion, D.base, D.tail]) (skips : Bool) :
    (g.rule i).lead (y.toList ++ rest) skips 0 = 0 := by
  unfold Rule.lead
  split
  · rw [D.whitespace i hi]
    refine Text.skip_eq_self ?_
    intro c hc
    rw [Text.charAt?, Text.rest_zero] at hc
    exact D.base_starts.head rest c hc
  · rfl

/-- When the first link fails, so does the recursion. -/
theorem recursion_ends {n : Nat} (hroom : 0 < c.room n) {b : Bool} {l : Ledger} {P : Ledger → Prop}
    (hlink : ∀ m, c.deeper.room m + 1 = c.room n →
      Ends (fun _ => False) l (attemptWithin m c.deeper (D.link 0) 0 b false)
        fun step l' => step = firstSeed 0 ∧ P l') :
    Ends (fun _ => False) l (attemptWithin n c D.recursion 0 b true) fun step l' => step = firstSeed 0 ∧ P l' := by
  obtain ⟨label, hkind⟩ := D.link_kind 0 D.positive
  refine hc.attempt_ends (D.ignores _) (fun h => absurd h (by omega)) ?_
  intro m hm
  have hcommit : (c.deeper.rule (D.link 0)).kind.isCommit = false := by rw [hc.deeper.rule, hkind]; rfl
  rw [D.lead_zero (by simp)]
  simp only [matchNode, D.recursion_kind, matchSequence, hcommit, Bool.false_eq_true, if_false, Bool.not_true]
  refine (hlink m hm).bind ?_
  intro step l' h
  obtain ⟨rfl, hP⟩ := h
  exact Ends.pure ⟨rfl, hP⟩

/-- When the first link fails, the choice comes to `y`. -/
theorem choice_ends {n : Nat} (hroom : 1 < c.room n) {b : Bool} {l : Ledger} {P : Ledger → Prop}
    (hlink : ∀ c' m, c'.Seeding g (y.toList ++ rest) limit → c'.room m + 2 = c.room n →
      Ends (fun _ => False) l (attemptWithin m c' (D.link 0) 0 b false) fun step l' => step = firstSeed 0 ∧ P l') :
    Ends (fun _ => False) l (attemptWithin n c D.choice 0 b false) fun step l' => step = D.baseMatch ∧ P l' := by
  refine hc.attempt_ends (D.ignores _) (fun h => absurd h (by omega)) ?_
  intro m hm
  rw [Rule.lead_false]
  simp only [matchNode, D.choice_kind, matchFirst]
  refine (D.recursion_ends hc.deeper (by omega) fun m' hm' => hlink _ m' hc.deeper.deeper (by omega)).bind ?_
  intro step l' h
  obtain ⟨rfl, hP⟩ := h
  refine Ends.bind (Q := fun step l'' => step = .matched (Text.size y.toList)
    ((ResultsOf.single (Value.str y)).withOrigin D.base) ∧ l'' = l') ?_ ?_
  · refine hc.deeper.attempt_ends (D.ignores _) (fun h => absurd h (by omega)) ?_
    intro m' hm'
    have hliteral : matchToken (g.rule D.base) (y.toList ++ rest) 0
        = .matched (Text.size y.toList) (ResultsOf.single (Value.str y)) := by
      simp only [matchToken, D.base_kind, Text.rest_zero, matchLiteral?_append, Nat.zero_add]
    rw [D.lead_zero (by simp)]
    simp only [matchNode, D.base_kind, hc.deeper.deeper.text, hliteral]
    exact Ends.pure ⟨rfl, rfl⟩
  · intro step l'' h
    obtain ⟨rfl, rfl⟩ := h
    exact Ends.pure ⟨rfl, hP⟩

/-- While the last link has its first seed, the choice comes to `y` and the first link has failed. -/
theorem choice_ends_of_stale {n : Nat} (hroom : k + 2 < c.room n) (b : Bool) {l : Ledger} (hstale : D.Stale l)
    (hlast : l.seeds.get? ⟨0, D.link k, false⟩ = some (firstSeed 0)) :
    Ends (fun _ => False) l (attemptWithin n c D.choice 0 b false) fun step l' =>
      step = D.baseMatch ∧ D.Failed l 0 b (firstSeed 0) l' := by
  refine D.choice_ends hc (by omega) ?_
  intro c' m hc' hm
  have hb : 0 = k → b = false := fun h => absurd D.positive (by omega)
  exact (D.link_ends hc' (Nat.zero_le k) (by omega) hb hstale hlast).mono fun step l' h =>
    ⟨h.step, rfl, h.stale, h.kept, h.seed⟩

/-- Once the first link has failed it is answered by its seed, and the choice comes to `y` again. -/
theorem choice_ends_of_seed {n : Nat} (hroom : k + 2 < c.room n) (b : Bool) {l : Ledger}
    (hseed : l.seeds.get? ⟨0, D.link 0, b⟩ = some (firstSeed 0)) :
    Ends (fun _ => False) l (attemptWithin n c D.choice 0 b false) fun step l' =>
      step = D.baseMatch ∧ l' = l := by
  obtain ⟨label, hkind⟩ := D.link_kind 0 D.positive
  refine D.choice_ends hc (by omega) ?_
  intro c' m hc' hm
  refine hc'.attempt_ends (D.ignores _) (fun h => absurd h (by omega)) ?_
  intro m' _
  exact hc'.deeper.forward_ends_of_seed hkind hseed ⟨rfl, rfl⟩

/-- **The cycle comes to `y`**: in the first round the links fail, and in the second the first of them is answered by
the seed it has from there. -/
theorem root_ends {n : Nat} (hroom : k + 2 < c.room n) {l : Ledger} (hempty : ∀ key, l.seeds.get? key = none)
    (hgrowth : limit = none) :
    Ends (fun _ => False) l (matchNode (attemptWithin n) c (D.link k) (g.rule (D.link k)) 0 true)
      fun step _ => step = D.baseMatch := by
  obtain ⟨label, hkind⟩ := D.last_kind
  have hne : D.link 0 ≠ D.link k := D.link_ne_last D.positive
  have hlimit : growthBound c 0 = c.text.size + 1 := by rw [growthBound, hc.limit, hgrowth]; rfl
  rw [hc.matchNode_forward hkind]
  intro s hs
  rw [growSeed_opens (by rw [hs.seeds]; exact hempty _), hlimit]
  -- the first round, without actions
  let keys : SeedKeys := ⟨0, D.link k⟩
  have hstale : D.Stale l := fun j _ b step h => absurd h (by simp [hempty])
  have hseed : (l.withSeeds (keys.set true (firstSeed 0))).seeds.get? ⟨0, D.link k, false⟩ = some (firstSeed 0) :=
    SeedKeys.get?_set_key false _ _
  obtain ⟨_, s₁, l₁, h₁, hs₁, rfl, hfailed₁⟩ := (D.choice_ends_of_stale hc hroom false (hstale.set _ true)
    hseed).exists_ok (hs.withSeeds _)
  -- the first round, with actions
  obtain ⟨_, s₂, l₂, h₂, hs₂, rfl, hfailed₂⟩ := (D.choice_ends_of_stale hc hroom true (l := l₁.grown)
    hfailed₁.stale (hfailed₁.kept _ _ hseed)).exists_ok hs₁.grown
  have hadvance : advanceSeed (attemptWithin n) c keys D.choice true D.baseMatch s₁.grown
      = .ok none (s₂.withSeeds (keys.advance D.baseMatch D.baseMatch)) := advanceSeed_true _ h₂
  -- the second round
  have hseed₂ : (l₂.withSeeds (keys.advance D.baseMatch D.baseMatch)).seeds.get? ⟨0, D.link 0, false⟩
      = some (firstSeed 0) := by
    have hother : ¬ keys.Owns true ⟨0, D.link 0, false⟩ := by
      intro h
      exact hne (congrArg SeedKey.forward h.eq)
    exact (SeedKeys.get?_advance_of_not_owns hother _ _ _).trans (hfailed₂.kept _ _ hfailed₁.seed)
  obtain ⟨_, s₃, l₃, h₃, hs₃, rfl, rfl⟩ := (D.choice_ends_of_seed hc hroom false hseed₂).exists_ok (hs₂.withSeeds _)
  have hround : growRounds (attemptWithin n) c (g.rule (D.link k)) keys D.choice (c.text.size + 1) true
      (c.text.size + 1) 1 ⟨some (Text.size y.toList), D.baseMatch⟩
      (s₂.withSeeds (keys.advance D.baseMatch D.baseMatch))
        = .ok D.baseMatch (s₃.withSeeds (keys.unset true)) := by
    have hend : furtherEnd (some (Text.size y.toList))
        ((Seed.mk (some (Text.size y.toList)) D.baseMatch).after D.baseMatch).stop = false := by
      simp [furtherEnd, Seed.after, baseMatch]
    rw [growRounds_release h₃ (Or.inl rfl) hend, release_eq, if_pos rfl, hs₃.seeds, Ledger.withSeeds,
      SeedKeys.get?_advance_true]
    rfl
  have hrun : growRounds (attemptWithin n) c (g.rule (D.link k)) keys D.choice (c.text.size + 1) true
      (c.text.size + 2) 0 ⟨none, firstSeed 0⟩ (s.withSeeds (keys.set true (firstSeed 0)))
        = .ok D.baseMatch (s₃.withSeeds (keys.unset true)) := by
    rw [growRounds_grow h₁ rfl (by omega)]
    exact (bind_ok hadvance).trans hround
  rw [hrun]
  exact ⟨_, hs₃.withSeeds _, rfl⟩

/-- What a parse of the whole text comes to: `y`, if nothing follows it. -/
theorem matchRoot_ends (hroom : k + 4 ≤ c.room (attemptFuel c)) {l : Ledger}
    (hempty : ∀ key, l.seeds.get? key = none) (hgrowth : limit = none) (hrest : ∀ ch ∈ rest.head?, g.defaultWhitespace.contains ch = false) :
    Ends (fun _ => False) l (matchRoot c true) fun step _ =>
      step = if rest = [] then D.baseMatch.mapResults (ResultsOf.withOrigin (D.link k))
        else .failed ⟨Text.size y.toList, "Expected end of text"⟩ := by
  have hstays : Text.skip g.defaultWhitespace.contains (y.toList ++ rest) (Text.size y.toList)
      = Text.size y.toList := by
    refine Text.skip_eq_self ?_
    intro ch hch
    refine hrest ch ?_
    rwa [Text.charAt?, Text.rest_append] at hch
  have hlead : (g.rule (D.link k)).lead (y.toList ++ rest) true (Text.size y.toList) = Text.size y.toList := by
    unfold Rule.lead
    split
    · rw [D.whitespace _ (by simp), hstays]
    · rfl
  simp only [matchRoot, hc.grammar, D.root, hc.text]
  refine Ends.bind (Q := fun step _ => step = D.baseMatch.mapResults (ResultsOf.withOrigin (D.link k))) ?_ ?_
  · refine hc.attempt_ends (D.ignores _) (fun h => absurd h (by omega)) ?_
    intro m hm
    rw [D.lead_zero (by simp)]
    exact (D.root_ends hc.deeper (by omega) hempty hgrowth).mono fun step _ h => by rw [h]
  · intro step l' h
    subst h
    simp only [baseMatch, Step.mapResults_matched, Bool.not_true, Bool.false_eq_true, if_false]
    rw [skipLeading_eq (D.ignores _), hc.text, hlead, pure_bind, hstays]
    cases rest with
    | nil =>
      rw [if_neg (by simp), if_pos rfl]
      exact Ends.pure rfl
    | cons ch rest =>
      have hsize : Text.size y.toList < Text.size (y.toList ++ ch :: rest) := by
        have := ch.utf8Size_pos
        rw [Text.size_append, Text.size_cons]
        omega
      rw [if_pos hsize, if_neg (by simp)]
      exact Ends.pure rfl

end Rounds

include D in
/-- There is room for the cycle, unless a limit is too small for it. -/
theorem le_room (config : Config) (hlimit : ∀ limit ∈ config.recursionLimit, k + 4 ≤ limit) (watch : Watch)
    (t : Text) :
    k + 4 ≤ (Context.top g config watch t).room (attemptFuel (Context.top g config watch t)) := by
  rw [room_top]
  cases hl : config.recursionLimit with
  | some limit => exact hlimit limit (by rw [hl]; rfl)
  | none =>
    have hsize := D.lt_size
    have hpositive := D.positive
    show k + 4 ≤ (8 * g.size * (t.size + 1) * (t.size + 1) + 1) * (2 * g.size * (t.size + 1) + 2)
    -- the second factor alone is enough, for the cycle has fewer links than the grammar nodes
    have h₁ : 1 ≤ 8 * g.size * (t.size + 1) * (t.size + 1) + 1 := by omega
    have h₂ : k + 4 ≤ 2 * g.size * (t.size + 1) + 2 := by nlinarith
    nlinarith

include D in
/-- **The cycle is resolved only for a text without `x`.** The text `y x … x` is matched as a whole exactly when it
is `y`; otherwise the parse ends after `y`. -/
theorem resolves_iff (config : Config) (hmode : config.memoization = .leftRecursion)
    (hgrowth : config.growthLimit = none) (hlimit : ∀ limit ∈ config.recursionLimit, k + 4 ≤ limit) (watch : Watch)
    (t : Text) (n : Nat) (hview : viewOf config t = y.toList ++ (List.replicate n x.toList).flatten) :
    ((∃ r, (g.parse config watch t true).outcome = .ok r ∧ r.tokens = .str y :: List.replicate n (.str x)) ↔ n = 0) ∧
      (0 < n → (g.parse config watch t true).outcome
        = .error (.mismatch (Report.of (viewOf config t) ⟨Text.size y.toList, "Expected end of text"⟩))) := by
  have hhead : ∀ ch ∈ ((List.replicate n x.toList).flatten).head?, g.defaultWhitespace.contains ch = false := by
    cases n with
    | zero => simp
    | succ n =>
      rw [List.replicate_succ, List.flatten_cons]
      exact D.tail_starts.head _
  have hc : (Context.top g config watch (viewOf config t)).Seeding g
      (y.toList ++ (List.replicate n x.toList).flatten) none :=
    ⟨rfl, hview, hmode, hgrowth, rfl⟩
  have hof : Ledger.Of ⟨.empty, 0⟩ { (State.initial config).forget with journal := [] } := by
    refine ⟨?_, rfl, rfl⟩
    show (Memo.ofStrategy config.memoization).clear = .off
    rw [hmode]
    rfl
  obtain ⟨step, s', l', hrun, -, hstep⟩ := (D.matchRoot_ends hc (D.le_room config hlimit watch _) (fun _ => rfl) rfl
    hhead).exists_ok hof
  have houtcome : (g.parse config watch t true).outcome = (resolve (viewOf config t) (.ok step s')).1 :=
    congrArg (fun res => (resolve (viewOf config t) res).1) hrun
  rw [houtcome, hstep]
  cases n with
  | zero => exact ⟨⟨fun _ => rfl, fun _ => ⟨_, rfl, rfl⟩⟩, fun h => absurd h (by simp)⟩
  | succ n =>
    have hne : (List.replicate (n + 1) x.toList).flatten ≠ [] := by
      obtain ⟨ch, hch, -⟩ := D.tail_starts
      intro h
      rw [List.replicate_succ, List.flatten_cons, List.append_eq_nil_iff] at h
      rw [h.1] at hch
      exact absurd hch (by simp)
    rw [if_neg hne]
    refine ⟨⟨fun ⟨r, hr, _⟩ => absurd hr (by simp [resolve]), fun h => absurd h (by simp)⟩, fun _ => rfl⟩

end IndirectCycle

/-! ## One for every number of forwards -/

/-- The expressions of a cycle through some forwards and a last one. -/
def cyclicKinds (k : Nat) (x y : String) : List NodeKind :=
  [.literal x false, .literal y false, .sequence [4, 0], .orderedChoice [2, 1]]
    ++ ((List.range k).map (fun j => .forward "s" (some (4 + (j + 1)))) ++ [.forward "r" (some 3)])

/-- A cycle through some forwards and a last one. -/
def cyclic (k : Nat) (x y : String) : Grammar := Grammar.ofKinds (cyclicKinds k x y) (4 + k)

theorem cyclicKinds_link {k j : Nat} (x y : String) (hj : j < k) :
    (cyclicKinds k x y)[4 + j]? = some (.forward "s" (some (4 + (j + 1)))) := by
  rw [cyclicKinds, List.getElem?_append_right (by simp), List.getElem?_append_left (by simpa using hj)]
  simp [hj]

theorem cyclicKinds_last (k : Nat) (x y : String) : (cyclicKinds k x y)[4 + k]? = some (.forward "r" (some 3)) := by
  rw [cyclicKinds, List.getElem?_append_right (by simp), List.getElem?_append_right (by simp)]
  simp

/-- Cycles have the shape. -/
def cyclic_indirectCycle {k : Nat} (hk : 0 < k) {x y : String}
    (hx : Text.StartsOutside ⟨[⟨' ', ' '⟩]⟩ x.toList) (hy : Text.StartsOutside ⟨[⟨' ', ' '⟩]⟩ y.toList) :
    IndirectCycle (cyclic k x y) k x y where
  link j := 4 + j
  choice := 3
  recursion := 2
  base := 1
  tail := 0
  positive := hk
  root := rfl
  link_kind j hj := ⟨"s", by rw [cyclic, Grammar.rule_ofKinds _ _ _ (cyclicKinds_link x y hj)]⟩
  last_kind := ⟨"r", by rw [cyclic, Grammar.rule_ofKinds _ _ _ (cyclicKinds_last k x y)]⟩
  choice_kind := rfl
  recursion_kind := rfl
  base_kind := rfl
  tail_kind := rfl
  ignores i := Grammar.ignores_ofKinds _ _ i
  whitespace := by
    intro i hi
    simp only [List.mem_cons, List.not_mem_nil, or_false] at hi
    rcases hi with rfl | rfl | rfl | rfl
    · rw [cyclic, Grammar.rule_ofKinds _ _ _ (cyclicKinds_last k x y)]
      rfl
    · rfl
    · rfl
    · rfl
  base_starts := hy
  tail_starts := hx

theorem resolves_iff_cyclic :
    let outcome := ((cyclic 2 "x" "y").parse { memoization := .leftRecursion } default ['y', 'x', 'x'] true).outcome
    viewOf { memoization := .leftRecursion } ['y', 'x', 'x']
        = "y".toList ++ (List.replicate 2 "x".toList).flatten ∧
      ((∃ r, outcome = .ok r ∧ r.tokens = .str "y" :: List.replicate 2 (.str "x")) ↔ 2 = 0) ∧
      (0 < 2 → outcome = .error (.mismatch (Report.of (viewOf { memoization := .leftRecursion } ['y', 'x', 'x'])
        ⟨1, "Expected end of text"⟩))) := by
  have hx : Text.StartsOutside ⟨[⟨' ', ' '⟩]⟩ "x".toList := ⟨'x', by decide, by decide +kernel⟩
  have hy : Text.StartsOutside ⟨[⟨' ', ' '⟩]⟩ "y".toList := ⟨'y', by decide, by decide +kernel⟩
  have hview : viewOf { memoization := .leftRecursion } ['y', 'x', 'x']
      = "y".toList ++ (List.replicate 2 "x".toList).flatten := by decide +kernel
  exact ⟨hview, (cyclic_indirectCycle (by decide) hx hy).resolves_iff { memoization := .leftRecursion } rfl rfl
    (by decide) default _ 2 hview⟩

/-- One forward in between and one `x` are enough for the text not to match as a whole. -/
theorem not_resolves_cyclic :
    ¬ ∃ r, ((cyclic 1 "x" "y").parse { memoization := .leftRecursion } default ['y', 'x'] true).outcome = .ok r ∧
      r.tokens = [.str "y", .str "x"] := by
  have h : ((cyclic 1 "x" "y").parse { memoization := .leftRecursion } default ['y', 'x'] true).outcome.isOk
      = false := by decide +kernel
  rintro ⟨r, hr, -⟩
  rw [hr] at h
  exact absurd h (by simp [Except.isOk, Except.toBool])

end Packrat
