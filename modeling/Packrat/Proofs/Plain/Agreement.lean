import Packrat.Proofs.Plain.Nesting

/-!
# `Packrat.Proofs.Plain.Agreement` — plain attempts side by side

Without memory and without seeds an attempt depends on nothing but its node, its place and its flags: neither
on the state nor, as long as there is enough of it, on the room for nesting. Where no action refuses a match it
does not even depend on whether actions run, up to the results.

## Contents

* `Grammar.Closed` — sets of nodes closed under references;
* `Coupling.plain` — two plain runs, the second with at least as much room;
* `Coupling.plain_agrees` — **plain runs agree**.
-/

namespace Packrat

/-! ## Closed sets of nodes -/

/-- A set of nodes that holds everything its nodes refer to. -/
def Grammar.Closed (g : Grammar) (N : ExprId → Prop) : Prop :=
  ∀ ⦃i j⦄, N i → j ∈ (g.rule i).references → N j

theorem Grammar.Closed.all (g : Grammar) : g.Closed fun _ => True := fun _ _ _ _ => trivial

theorem NodeKind.within_subset (k : NodeKind) : k.within ⊆ k.children := by
  cases k <;> simp [NodeKind.within]

theorem NodeKind.recovering_subset (k : NodeKind) : k.recovering ⊆ k.children := by
  intro j hj
  cases k <;> simp_all [NodeKind.recovering, NodeKind.children]

theorem Grammar.Closed.child {g : Grammar} {N : ExprId → Prop} (h : g.Closed N) {i j : ExprId} (hi : N i)
    (hj : j ∈ (g.rule i).kind.children) : N j :=
  h hi (List.mem_append_left _ hj)

theorem Grammar.Closed.within {g : Grammar} {N : ExprId → Prop} (h : g.Closed N) {i j : ExprId} (hi : N i)
    (hj : j ∈ (g.rule i).kind.within) : N j :=
  h.child hi (NodeKind.within_subset _ hj)

theorem Grammar.Closed.combined {g : Grammar} {N : ExprId → Prop} (h : g.Closed N) {i j : ExprId}
    {joiner : String} (hi : N i) (hk : (g.rule i).kind = .combine j joiner) : N j :=
  h.child hi (by simp [hk, NodeKind.children])

theorem Grammar.Closed.behind {g : Grammar} {N : ExprId → Prop} (h : g.Closed N) {i j : ExprId}
    {retreat : Option Nat} (hi : N i) (hk : (g.rule i).kind = .precededBy j retreat) : N j :=
  h.child hi (by simp [hk, NodeKind.children])

theorem Grammar.Closed.recovering {g : Grammar} {N : ExprId → Prop} (h : g.Closed N) {i j : ExprId} (hi : N i)
    (hj : j ∈ (g.rule i).kind.recovering ++ (g.rule i).ignores) : N j := by
  rcases List.mem_append.mp hj with hj | hj
  · exact h.child hi (NodeKind.recovering_subset _ hj)
  · exact h hi (List.mem_append_right _ hj)

/-- A configuration without memory. -/
def Config.plain (config : Config) : Config := { config with memoization := .disabled }

/-- A context in which nothing is remembered and forwards grow no seeds. -/
def Context.IsPlain (c : Context) : Prop := c.config.memoization = .disabled

theorem Context.IsPlain.seedless {c : Context} (hc : c.IsPlain) : c.config.memoization ≠ .leftRecursion := by
  intro h
  rw [IsPlain, h] at hc
  exact Memoization.noConfusion hc

/-- A plain run starts without a table. -/
theorem Context.IsPlain.initial_off {c : Context} (hc : c.IsPlain) : (State.initial c.config).memo = .off := by
  rw [State.initial, show c.config.memoization = .disabled from hc, Memo.ofStrategy]

/-- No action of a set of nodes refuses a match. -/
def Grammar.Accepting (g : Grammar) (N : ExprId → Prop) : Prop :=
  ∀ ⦃i child action⦄, N i → (g.rule i).kind = .transform child action → action.Accepts

namespace Coupling

/-! ## Plain runs -/

/-- Two plain contexts on one text, the second with at least the room `k` and the first with at most that. -/
structure PlainPair (g : Grammar) (n m k : Nat) (c₁ c₂ : Context) : Prop where
  alike : Context.Alike g c₁ c₂
  plain₁ : c₁.IsPlain
  plain₂ : c₂.IsPlain
  room₁ : c₁.room n ≤ k
  room₂ : k ≤ c₂.room m

/-- Two plain runs on a closed set of nodes, the second with at least as much room. -/
@[reducible] def plain (g : Grammar) (exact : Bool) (N : ExprId → Prop) (hN : g.Closed N) (n m k : Nat) :
    Coupling g where
  World := Unit
  exact := exact
  state _ s₁ s₂ := s₁.memo = .off ∧ s₂.memo = .off
  contexts _ := PlainPair g n m k
  nodes _ _ i := N i
  state_congr := fun hs h₁ h₂ => ⟨h₁.memo.trans hs.1, h₂.memo.trans hs.2⟩
  alike := fun hc => hc.alike
  combined := fun hc => ⟨⟨hc.alike.1, hc.alike.2, hc.alike.3, rfl⟩, hc.2, hc.3, hc.4, hc.5⟩
  behind := by
    intro _ c₁ c₂ hc p
    refine ⟨(), ⟨⟨hc.alike.1, hc.alike.2, ?_, rfl⟩, hc.2, hc.3, hc.4, hc.5⟩, ?_, ?_⟩
    · exact congrArg (Text.before · p) hc.alike.text
    · rw [State.initial, hc.plain₁, Memo.ofStrategy]
    · rw [State.initial, hc.plain₂, Memo.ofStrategy]
  nodes_within := hN.within
  nodes_recovering := hN.recovering
  nodes_combined := hN.combined
  nodes_behind := hN.behind

/-! ## The longest match, up to results -/

/-- Values that linked runs give come from related states. -/
theorem Linked.traced {g : Grammar} {K : Coupling g} {w : K.World} {r : Bool} {α β : Type} {V : α → β → Prop}
    {m₁ : MatchM α} {m₂ : MatchM β} (hm : K.Linked w r V m₁ m₂) :
    K.Linked w r (fun a b => V a b ∧ ∃ s₁ s₂ s₁' s₂', K.state w s₁ s₂ ∧ m₁ s₁ = .ok a s₁' ∧ m₂ s₂ = .ok b s₂')
      m₁ m₂ := by
  intro s₁ s₂ hs
  rcases (hm s₁ s₂ hs).cases_all with
    ⟨e, s₁', he, h₁⟩ | ⟨e, s₂', he, h₂⟩ | ⟨e, s₁', s₂', h₁, h₂, hstate⟩ | ⟨a, b, s₁', s₂', h₁, h₂, hab, hs'⟩
  · rw [h₁]
    exact agree_of_deep₁ he
  · rw [h₂]
    exact agree_of_deep₂ he
  · rw [h₁, h₂]
    exact Or.inr (Or.inr ⟨rfl, hstate⟩)
  · rw [h₁, h₂]
    exact ⟨⟨hab, s₁, s₂, s₁', s₂', hs, h₁, h₂⟩, hs'⟩

/-- What decides the order of candidates, and which of them is run. -/
def candidateKey (x : Candidate) : Nat × ExprId := (x.stop, x.child)

/-- Two runs that are compared up to results and remember nothing; the second is not excused. -/
structure Forgetful {g : Grammar} (K : Coupling g) : Prop where
  exact : K.exact = false
  deep₂ : K.deep₂ = false
  off : ∀ {w s₁ s₂}, K.state w s₁ s₂ ↔ s₁.memo = .off ∧ s₂.memo = .off

section Longest

variable {g : Grammar} {K : Coupling g} {w : K.World} {r : Bool} {a₁ a₂ : Attempt} {c₁ c₂ : Context} {start : Nat}

/-- A candidate was found by both runs: its child matches up to its end. -/
structure FoundAt (K : Coupling g) (a₁ a₂ : Attempt) (c₁ c₂ : Context) (r : Bool) (start : Nat)
    (key : Nat × ExprId) : Prop where
  node : K.nodes c₁.adjacent r key.2
  found₁ : ∃ s p s', s.memo = .off ∧ a₁ c₁ key.2 start false true s = .ok (.matched key.1 p) s'
  found₂ : ∃ s p s', s.memo = .off ∧ a₂ c₂ key.2 start false true s = .ok (.matched key.1 p) s'

/-- A candidate that matches with actions as far as it did without them is the longest match. -/
theorem matchCandidates_of_matched {a : Attempt} {c : Context} {rule : Rule} {x : Candidate} {p : Results}
    {s s' : State} (h : a c x.child start true true s = .ok (.matched x.stop p) s') (xs : List Candidate)
    (best : Option Diagnostic) :
    matchCandidates a c rule start (x :: xs) none best s = .ok (.matched x.stop p) s' := by
  have hbind : matchCandidates a c rule start (x :: xs) none best s
      = EStateM.bind (a c x.child start true true) _ s := rfl
  rw [hbind, EStateM.bind, h]
  simp only [le_refl, if_true]
  rfl

theorem matchCandidates_of_error {a : Attempt} {c : Context} {rule : Rule} {x : Candidate} {e : Halt}
    {s s' : State} (h : a c x.child start true true s = .error e s') (xs : List Candidate)
    (best : Option Diagnostic) :
    matchCandidates a c rule start (x :: xs) none best s = .error e s' := by
  have hbind : matchCandidates a c rule start (x :: xs) none best s
      = EStateM.bind (a c x.child start true true) _ s := rfl
  rw [hbind, EStateM.bind, h]

variable (hK : K.Forgetful) (ha : K.Agrees a₁ a₂) (hc : K.contexts w c₁ c₂)
include hK ha hc

theorem findCandidates_linked {children : List ExprId} (hi : ∀ i ∈ children, K.nodes c₁.adjacent r i)
    {found₁ found₂ : List Candidate} (hkeys : found₁.map candidateKey = found₂.map candidateKey)
    (hf : ∀ x ∈ found₁, FoundAt K a₁ a₂ c₁ c₂ r start (candidateKey x)) (best : Option Diagnostic) :
    K.Linked w r
      (fun x y => x.1.map candidateKey = y.1.map candidateKey
        ∧ (∀ z ∈ x.1, FoundAt K a₁ a₂ c₁ c₂ r start (candidateKey z)) ∧ x.2 = y.2)
      (findCandidates a₁ c₁ start children found₁ best) (findCandidates a₂ c₂ start children found₂ best) := by
  induction children generalizing found₁ found₂ best with
  | nil =>
    refine Linked.pure ⟨?_, fun z hz => hf z (List.mem_reverse.mp hz), rfl⟩
    rw [List.map_reverse, List.map_reverse, hkeys]
  | cons i children ih =>
    rw [findCandidates, findCandidates]
    refine (Linked.traced (ha (r := r) hc (hi i (by simp)) fun _ => rfl)).bind ?_
    rintro a b ⟨hab, s₁, s₂, s₁', s₂', hs, e₁, e₂⟩
    obtain ⟨hoff₁, hoff₂⟩ := hK.off.mp hs
    rcases hab.cases with ⟨stop, p₁, p₂, rfl, rfl, -⟩ | ⟨d, rfl, rfl⟩
    -- both runs found the child, and leave states to confirm it from
    · refine ih (fun j hj => hi j (by simp [hj])) (by simp [candidateKey, hkeys]) ?_ best
      intro z hz
      rcases List.mem_cons.mp hz with rfl | hz
      · exact ⟨hi i (by simp), ⟨s₁, p₁, s₁', hoff₁, e₁⟩, s₂, p₂, s₂', hoff₂, e₂⟩
      · exact hf z hz
    · exact ih (fun j hj => hi j (by simp [hj])) hkeys hf (furthestOf best d)

/-- The first run confirms a candidate with actions, unless it nests too deeply. -/
theorem confirm₁ {key : Nat × ExprId} (hkey : FoundAt K a₁ a₂ c₁ c₂ r start key) {s : State}
    (hs : s.memo = .off) :
    (∃ e s', K.Deep₁ e ∧ a₁ c₁ key.2 start true true s = .error e s') ∨
      ∃ p s', a₁ c₁ key.2 start true true s = .ok (.matched key.1 p) s' ∧ s'.memo = .off := by
  obtain ⟨u, q, u', hu, hfound⟩ := hkey.found₂
  have hlinked : K.Linked w r (Step.Alike K.exact) (a₁ c₁ key.2 start true true) (a₂ c₂ key.2 start false true) :=
    ha hc hkey.node (by simp [hK.exact])
  rcases (hlinked s u (hK.off.mpr ⟨hs, hu⟩)).cases_all with
    ⟨e, s', he, h₁⟩ | ⟨e, s', he, -⟩ | ⟨e, s', u'', h₁, h₂, -⟩ | ⟨step, step', s', u'', h₁, h₂, halike, hstate⟩
  · exact Or.inl ⟨e, s', he, h₁⟩
  · exact absurd he.1 (by simp [hK.deep₂])
  · exact absurd (hfound.symm.trans h₂) (by simp)
  · obtain ⟨rfl, -⟩ : _ = step' ∧ u' = u'' := by simpa [hfound] using h₂
    cases step with
    | failed d => exact absurd halike id
    | matched stop p =>
      obtain ⟨rfl, -⟩ := halike
      exact Or.inr ⟨p, s', h₁, (hK.off.mp hstate).1⟩

/-- The second run, with at least as much room, confirms a candidate with actions. -/
theorem confirm₂ {key : Nat × ExprId} (hkey : FoundAt K a₁ a₂ c₁ c₂ r start key) {s : State}
    (hs : s.memo = .off) :
    ∃ p s', a₂ c₂ key.2 start true true s = .ok (.matched key.1 p) s' ∧ s'.memo = .off := by
  obtain ⟨u, q, u', hu, hfound⟩ := hkey.found₁
  have hlinked : K.Linked w r (Step.Alike K.exact) (a₁ c₁ key.2 start false true) (a₂ c₂ key.2 start true true) :=
    ha hc hkey.node (by simp [hK.exact])
  rcases (hlinked u s (hK.off.mpr ⟨hu, hs⟩)).cases hK.deep₂ with
    ⟨e, u'', -, h₁⟩ | ⟨e, u'', s', h₁, -, -⟩ | ⟨step', step, u'', s', h₁, h₂, halike, hstate⟩
  · exact absurd (hfound.symm.trans h₁) (by simp)
  · exact absurd (hfound.symm.trans h₁) (by simp)
  · obtain ⟨rfl, -⟩ : _ = step' ∧ u' = u'' := by simpa [hfound] using h₁
    cases step with
    | failed d => exact absurd halike id
    | matched stop p =>
      obtain ⟨rfl, -⟩ := halike
      exact ⟨p, s', h₂, (hK.off.mp hstate).2⟩

/-- With actions or without, the first run ends where its first candidate does, unless it nests too deeply. -/
theorem first_ends₁ {x : Candidate} (hx : FoundAt K a₁ a₂ c₁ c₂ r start (candidateKey x)) (rule : Rule)
    (xs : List Candidate) (best : Option Diagnostic) (acts : Bool) {s : State} (hs : s.memo = .off) :
    (∃ e s', K.Deep₁ e ∧
      (if acts = true then matchCandidates a₁ c₁ rule start (x :: xs) none best
        else pure (Step.matched x.stop x.results)) s = .error e s') ∨
      ∃ p s', (if acts = true then matchCandidates a₁ c₁ rule start (x :: xs) none best
        else pure (Step.matched x.stop x.results)) s = .ok (.matched x.stop p) s' ∧ s'.memo = .off := by
  cases acts with
  | false => exact Or.inr ⟨x.results, s, rfl, hs⟩
  | true =>
    rcases confirm₁ hK ha hc hx hs with ⟨e, s', he, h⟩ | ⟨p, s', h, hoff⟩
    · exact Or.inl ⟨e, s', he, matchCandidates_of_error h xs best⟩
    · exact Or.inr ⟨p, s', matchCandidates_of_matched h xs best, hoff⟩

/-- The second run, with at least as much room, ends where its first candidate does. -/
theorem first_ends₂ {x : Candidate} (hx : FoundAt K a₁ a₂ c₁ c₂ r start (candidateKey x)) (rule : Rule)
    (xs : List Candidate) (best : Option Diagnostic) (acts : Bool) {s : State} (hs : s.memo = .off) :
    ∃ p s', (if acts = true then matchCandidates a₂ c₂ rule start (x :: xs) none best
      else pure (Step.matched x.stop x.results)) s = .ok (.matched x.stop p) s' ∧ s'.memo = .off := by
  cases acts with
  | false => exact ⟨x.results, s, rfl, hs⟩
  | true =>
    obtain ⟨p, s', h, hoff⟩ := confirm₂ hK ha hc hx hs
    exact ⟨p, s', matchCandidates_of_matched h xs best, hoff⟩

/-- Whether actions run makes no difference to which child matches most: a candidate matches as far with them
as without. -/
theorem matchLongest_forgetful {children : List ExprId} (hi : ∀ i ∈ children, K.nodes c₁.adjacent r i)
    (rule : Rule) (acts₁ acts₂ : Bool) :
    K.Linked w r (Step.Alike false) (matchLongest a₁ c₁ rule children start acts₁)
      (matchLongest a₂ c₂ rule children start acts₂) := by
  rw [matchLongest, matchLongest]
  refine (findCandidates_linked hK ha hc hi rfl (by simp) none).bind ?_
  rintro ⟨x, best₁⟩ ⟨y, best₂⟩ ⟨hkeys, hfound, hbest⟩
  dsimp only at hkeys hfound hbest ⊢
  subst hbest
  -- sorting looks at the ends only
  have hsort (l : List Candidate) : (l.mergeSort fun a b => decide (b.stop ≤ a.stop)).map candidateKey
      = (l.map candidateKey).mergeSort fun a b => decide (b.1 ≤ a.1) :=
    List.map_mergeSort fun _ _ _ _ => rfl
  have hsorted : (x.mergeSort fun a b => decide (b.stop ≤ a.stop)).map candidateKey
      = (y.mergeSort fun a b => decide (b.stop ≤ a.stop)).map candidateKey := by
    rw [hsort, hsort, hkeys]
  have hmem : ∀ z ∈ x.mergeSort fun a b => decide (b.stop ≤ a.stop),
      FoundAt K a₁ a₂ c₁ c₂ r start (candidateKey z) := fun z hz => hfound z (List.mem_mergeSort.mp hz)
  generalize x.mergeSort _ = xs at hsorted hmem ⊢
  generalize y.mergeSort _ = ys at hsorted ⊢
  cases xs with
  | nil =>
    obtain rfl : ys = [] := by simpa using hsorted.symm
    cases acts₁ <;> cases acts₂ <;> exact Linked.pure (Step.Alike.refl _ _)
  | cons b xs =>
    cases ys with
    | nil => simp at hsorted
    | cons b' ys =>
      simp only [List.map_cons, List.cons.injEq] at hsorted
      have hkey : candidateKey b = candidateKey b' := hsorted.1
      have hstop : b.stop = b'.stop := congrArg Prod.fst hkey
      have hb : FoundAt K a₁ a₂ c₁ c₂ r start (candidateKey b) := hmem b (by simp)
      have hb' : FoundAt K a₁ a₂ c₁ c₂ r start (candidateKey b') := hkey ▸ hb
      intro s₁ s₂ hs
      obtain ⟨hoff₁, hoff₂⟩ := hK.off.mp hs
      -- each run ends where its first candidate does, and that is the same place
      obtain ⟨p₂, s₂', e₂, hoff₂'⟩ := first_ends₂ hK ha hc hb' rule ys best₁ acts₂ hoff₂
      dsimp only
      rw [e₂]
      rcases first_ends₁ hK ha hc hb rule xs best₁ acts₁ hoff₁ with ⟨e, s', he, e₁⟩ | ⟨p₁, s₁', e₁, hoff₁'⟩
      · rw [e₁]
        exact agree_of_deep₁ he
      · rw [e₁]
        exact ⟨⟨hstop, by simp⟩, hK.off.mpr ⟨hoff₁', hoff₂'⟩⟩

end Longest

/-- Plain runs remember nothing. -/
theorem forgetful_plain {g : Grammar} {N : ExprId → Prop} (hN : g.Closed N) (n m k : Nat) :
    (plain g false N hN n m k).Forgetful :=
  ⟨rfl, rfl, Iff.rfl⟩

/-! ## Plain runs agree -/

/-- **Plain runs agree**, whatever the states and whatever the room, unless the first nests too deeply. Where no
action refuses a match they agree up to results even if actions run in only one of them. -/
theorem plain_agrees {g : Grammar} {exact : Bool} {N : ExprId → Prop} (hN : g.Closed N)
    (haccepting : exact = false → g.Accepting N) (n m k : Nat) :
    (plain g exact N hN n m k).Agrees (attemptWithin n) (attemptWithin m) := by
  induction k using Nat.strong_induction_on generalizing n m with
  | _ k ih =>
    intro w c₁ c₂ r i p acts₁ acts₂ skips hc hi hacts
    refine linked_of_room hc.room₁ hc.room₂ fun {n' m' k'} hk h₁ h₂ e₁ => ?_
    subst hk
    rw [e₁]
    have hdeep : PlainPair g n' m' k' c₁.deeper c₂.deeper := ⟨hc.alike.deeper, hc.plain₁, hc.plain₂, h₁, h₂⟩
    have ha := ih k' (Nat.lt_succ_self k') n' m'
    refine remember_linked (K := plain g exact N hN n' m' k') (w := ()) (fun _ _ hs => hs) hdeep skips ?_
    intro skips'
    -- left are the longest match and actions where results are not compared
    apply perform_linked_of_seedless ha hdeep hdeep.plain₁.seedless hdeep.plain₂.seedless hi hacts p skips'
    · intro he children hk start
      subst he
      exact matchLongest_forgetful (forgetful_plain hN n' m' k') ha hdeep
        (fun j hj => hN.child hi (by simp [hk, NodeKind.children, hj])) _ _ _
    · exact fun he child action hk => haccepting he hi hk

end Coupling
end Packrat
