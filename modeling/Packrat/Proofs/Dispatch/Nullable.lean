import Packrat.Proofs.Analysis.Nullable
import Packrat.Proofs.Depth.Guarded
import Packrat.Proofs.Dispatch.Basic

/-!
# `Packrat.Proofs.Dispatch.Nullable` — what matches without consuming text is known to

The analysis knows the nodes that may be empty from their expressions alone. A run finds out by matching, from where it
answers out of tables and grows seeds. That the first knows all that the second finds out is told of whole runs: any
other way of matching may be put in place of a match that consumes nothing, where the node is not known to be able to,
and the run stays what it is.

## Contents

* `State.Recalls` — tables in which every outcome is one that its node may have;
* `Grammar.Covers` — sets of nodes that are closed under what the analysis goes by;
* `NodeMatcher.unlessKnown` — the usual way of matching, but where nodes consume nothing and are not known to;
* `unlessKnown_attemptWithin` — **attempts find out only what is known**;
* `nullable_sound` — **the analysis is sound**, and the least solution, reached by finitely many rounds.
-/

namespace Packrat

/-! ## Tables -/

/-- Every outcome in the tables of a state is one that its node may have at its position. -/
structure State.Recalls (P : ExprId → Nat → Step → Prop) (s : State) : Prop where
  memo : ∀ key step, s.memo.Holds key step → P key.id key.position step
  seeds : ∀ key step, s.seeds.get? key = some step → P key.forward key.position step

namespace State.Recalls

variable {P : ExprId → Nat → Step → Prop} {s s' : State}

theorem congr (h : s.Recalls P) (hs : s'.SameTables s) : s'.Recalls P := by
  refine ⟨fun key step hstep => h.memo key step ?_, fun key step hstep => h.seeds key step ?_⟩
  · rwa [← hs.memo]
  · rwa [← hs.seeds]

theorem initial (P : ExprId → Nat → Step → Prop) (config : Config) : (State.initial config).Recalls P :=
  ⟨fun key step h => absurd h (Memo.not_holds_ofStrategy _ key step),
    fun key step h => absurd h (by simp [State.initial])⟩

/-- A parse begins without remembered outcomes. -/
theorem forget (P : ExprId → Nat → Step → Prop) (s : State) (journal : List Event) :
    ({ s.forget with journal } : State).Recalls P :=
  ⟨fun key step h => absurd h (Memo.not_holds_clear _ key step),
    fun key step h => absurd h (by simp [State.forget])⟩

theorem insertSeed (h : s.Recalls P) (key : SeedKey) {step : Step} (hstep : P key.forward key.position step) :
    (s.withSeeds (·.insert key step)).Recalls P := by
  refine ⟨h.memo, fun key' step' h' => ?_⟩
  rw [State.withSeeds_seeds] at h'
  by_cases hk : key' = key
  · subst hk
    obtain rfl : step = step' := by simpa using h'
    exact hstep
  · rw [Seeds.get?_insert_of_ne _ _ hk] at h'
    exact h.seeds key' step' h'

theorem eraseSeed (h : s.Recalls P) (key : SeedKey) : (s.withSeeds (·.erase key)).Recalls P := by
  refine ⟨h.memo, fun key' step' h' => ?_⟩
  rw [State.withSeeds_seeds] at h'
  by_cases hk : key' = key
  · subst hk
    exact absurd h' (by simp)
  · rw [Seeds.get?_erase_of_ne _ hk] at h'
    exact h.seeds key' step' h'

/-- While a seed grows, all that is remembered stays what its node may have. -/
theorem growth {t : Text} {keys : SeedKeys} (hp : t.IsBoundary keys.position) (acts : Bool)
    (hfirst : P keys.forward keys.position (firstSeed keys.position))
    (hends : ∀ {stop r}, P keys.forward keys.position (.matched stop r) → keys.position ≤ stop ∧ stop ≤ t.size) :
    Growth (State.Recalls P) (State.Recalls P) (fun _ => True) (P keys.forward keys.position) t keys acts where
  start := hp.le_size
  ends := hends
  first := hfirst
  answered hs hget := hs.seeds _ _ hget
  opens hs _ := by
    cases acts with
    | false => exact hs.insertSeed (keys.key false) hfirst
    | true => exact (hs.insertSeed (keys.key false) hfirst).insertSeed (keys.key true) hfirst
  grown hs := ⟨hs.memo, hs.seeds⟩
  put hs hstep _ := hs.insertSeed _ hstep
  held hs hget := hs.seeds _ _ hget
  leaves hs := hs
  closes hs := by
    cases acts with
    | false => exact hs.eraseSeed (keys.key false)
    | true => exact (hs.eraseSeed (keys.key false)).eraseSeed (keys.key true)

theorem consult {H : Halt → Prop} (key : MemoKey) :
    Keeps (State.Recalls P) H (fun x => ∀ step ∈ x, P key.id key.position step) (Packrat.consult key) :=
  fun _ hs => ⟨fun step hstep => hs.memo key step (Memo.holds_of_find? hstep),
    fun key' step hstep => hs.memo key' step (Memo.holds_of_holds_find? hstep), hs.seeds⟩

theorem store {H : Halt → Prop} {key : MemoKey} {step : Step} (hstep : P key.id key.position step) :
    Keeps (State.Recalls P) H (fun _ => True) (Packrat.store key step) := by
  refine Keeps.of_unit fun s hs => ⟨_, rfl, ⟨fun key' step' hk => ?_, hs.seeds⟩⟩
  rcases Memo.holds_insert hk with ⟨rfl, rfl⟩ | hold
  · exact hstep
  · exact hs.memo key' step' hold

end State.Recalls

/-! ## What is known -/

/-- A set that holds every node whose expression may be empty, given the set, and every terminal that matches somewhere
without consuming text. References lead to nodes, so others are never attempted. -/
structure Grammar.Covers (g : Grammar) (empty : ExprId → Bool) : Prop where
  root : g.root < g.size
  known : g.Closed (· < g.size)
  closed : ∀ i, (g.rule i).kind.isNullable empty = true → empty i = true
  consumes : ∀ {i}, i < g.size → ∀ {t start r}, matchToken (g.rule i) t start = .matched start r → empty i = true

/-- A step from a position that ends at a place from there on, and past it unless the node may be empty. -/
def Step.LandsBy (empty : ExprId → Bool) (t : Text) (i : ExprId) (p : Nat) (step : Step) : Prop :=
  step.Lands t p (empty i = true)

/-- The usual way of matching, but for nodes that match without consuming text and are not known to be able to: there it
is another one. -/
def NodeMatcher.unlessKnown (empty : ExprId → Bool) (instead : NodeMatcher) : NodeMatcher :=
  fun attempt c i rule start acts => do
    match ← matchNode attempt c i rule start acts with
    | .failed d => return .failed d
    | .matched stop r =>
      if stop = start && !empty i then instead attempt c i rule start acts else return .matched stop r

/-- Attempts that are the same from tables that hold only what nodes may have, and come to nothing else. -/
def SameKnowing (g : Grammar) (empty : ExprId → Bool) (a₁ a₂ : Attempt) : Prop :=
  ∀ ⦃c i p acts skips⦄, c.grammar = g → i < g.size → c.text.IsBoundary p →
    Concur (State.Recalls (Step.LandsBy empty c.text)) (fun _ => True) (Step.LandsBy empty c.text i p)
      (a₁ c i p acts skips) (a₂ c i p acts skips)

section Attempts

variable {g : Grammar} {empty : ExprId → Bool} (hk : g.Covers empty) (instead : NodeMatcher)

/-- Two runs in one context, from tables that hold only what nodes may have. -/
@[reducible] def knowingTwin (a₁ a₂ : Attempt) (c : Context) (hc : c.grammar = g) : Twin g where
  inv := State.Recalls (Step.LandsBy empty c.text)
  halts _ := True
  first := a₁
  second := a₂
  c₁ := c
  c₂ := c
  empty := empty
  grammar := hc
  peers := .refl c
  stable := fun hs ht => hs.congr ht
  ordinary _ _ := trivial
  nullable := hk.closed

variable {a₁ a₂ : Attempt} (ha : SameKnowing g empty a₁ a₂) {c : Context} (hg : c.grammar = g) {p : Nat}
include ha

theorem SameKnowing.meets (acts : Bool) {q : Nat} {j : ExprId} (hj : j < g.size) (hq : c.text.IsBoundary q) :
    (knowingTwin hk a₁ a₂ c hg).Meets acts j q := fun _ _ _ => ha hg hj hq

/-- Every attempt that the match of a node can make is the same. -/
theorem SameKnowing.serves {i : ExprId} (hi : i < g.size) (hp : c.text.IsBoundary p) (acts : Bool) :
    (knowingTwin hk a₁ a₂ c hg).Serves i p acts := by
  apply Twin.Serves.of_within hk.known hi (fun b q j hj hq => ha.meets hk hg b hj hq) hp
    fun r hr => hk.consumes hi hr
  · exact fun child hchild => SameKnowing.meets hk ha (c := c.combined) hg acts hchild hp
  · intro child hchild
    refine ⟨State.Recalls (Step.LandsBy empty (c.behind p).text), ?_, ?_⟩
    · exact fun s hs => (State.Recalls.initial _ c.config).congr hs
    · exact fun q hq => (ha (c := c.behind p) hg hchild hq).mono (fun _ _ => trivial) fun _ => id
  · intro label target hkind htarget
    have hempty (h : empty target = true) : empty i = true := hk.closed i (by rw [hkind]; exact h)
    by_cases hmode : c.config.memoization = .leftRecursion
    · -- seeds are steps of the target, so they may be empty only where the forward may
      simp only [matchNode, hkind, hmode, if_true]
      have hround (b : Bool) : Concur (State.Recalls (Step.LandsBy empty c.text)) (fun _ => True)
          (Step.LandsBy empty c.text i p) (a₁ c target p b false) (a₂ c target p b false) :=
        (ha hg htarget hp).mono (fun _ hstep => Step.Lands.weaken hstep hempty) fun _ => id
      have hgrowth := @State.Recalls.growth (Step.LandsBy empty c.text) c.text ⟨p, i⟩ hp acts trivial
        fun h => ⟨Advance.le h, (Advance.place h).le_size⟩
      exact growSeed_same hgrowth (fun b _ => hround b) rfl rfl (Or.inl fun _ _ => trivial)
    · rw [matchNode_forward hmode hkind, matchNode_forward hmode hkind]
      exact (ha.meets hk hg acts htarget hp acts false id).mono fun _ hstep => hstep.weaken hempty

include hk hg

/-- Where nodes are attempted alike, another way of matching is never taken. -/
theorem SameKnowing.unlessKnown_same {i : ExprId} (hi : i < g.size) (hp : c.text.IsBoundary p) (acts : Bool) :
    Concur (State.Recalls (Step.LandsBy empty c.text)) (fun _ => True) (Step.LandsBy empty c.text i p)
      (NodeMatcher.unlessKnown empty instead a₁ c i (g.rule i) p acts) (matchNode a₂ c i (g.rule i) p acts) := by
  have hnode : Concur (State.Recalls (Step.LandsBy empty c.text)) (fun _ => True) (Step.LandsBy empty c.text i p)
      (matchNode a₁ c i (g.rule i) p acts) (matchNode a₂ c i (g.rule i) p acts) :=
    Twin.matchNode_same (D := knowingTwin hk a₁ a₂ c hg) (ha.serves hk hg hi hp acts) hp
  rw [← bind_pure (matchNode a₂ c i (g.rule i) p acts)]
  refine hnode.bind fun step hstep => ?_
  cases step with
  | failed d => exact Concur.pure trivial
  | matched stop r =>
    have hknown : ¬ (decide (stop = p) && !empty i) = true := by
      simp only [Bool.and_eq_true, decide_eq_true_eq, Bool.not_eq_true', not_and, Bool.not_eq_false]
      exact Advance.empty hstep
    simp only [if_neg hknown]
    exact Concur.pure hstep

theorem SameKnowing.skipLeading_same {i : ExprId} (hi : i < g.size) (hp : c.text.IsBoundary p) :
    Concur (State.Recalls (Step.LandsBy empty c.text)) (fun _ => True) (Advance c.text p True)
      (skipLeading a₁ c (g.rule i) p) (skipLeading a₂ c (g.rule i) p) :=
  Twin.skipLeading_same (D := knowingTwin hk a₁ a₂ c hg) (ha.serves hk hg hi hp false).skipped hp

theorem SameKnowing.perform_same {i : ExprId} (hi : i < g.size) (hp : c.text.IsBoundary p) (acts skips : Bool) :
    Concur (State.Recalls (Step.LandsBy empty c.text)) (fun _ => True) (Step.LandsBy empty c.text i p)
      ((NodeMatcher.unlessKnown empty instead).perform a₁ c i p acts skips) (perform a₂ c i p acts skips) := by
  have hrule : c.rule i = g.rule i := by rw [Context.rule, hg]
  have hunit {m : MatchM Unit} (h : ∀ s, ∃ s', m s = .ok () s' ∧ s'.SameTables s) :
      Concur (State.Recalls (Step.LandsBy empty c.text)) (fun _ => True) (fun _ => True) m m :=
    Twin.Same.unit (D := knowingTwin hk a₁ a₂ c hg) h
  have hrest {q : Nat} (hq : Advance c.text p True q) :
      Concur (State.Recalls (Step.LandsBy empty c.text)) (fun _ => True) (Step.LandsBy empty c.text i p)
        (do let step ← NodeMatcher.unlessKnown empty instead a₁ c i (g.rule i) q acts
            reportStep (c.watch.wants (g.rule i)) i q (step.mapResults (ResultsOf.withOrigin i))
            return step.mapResults (ResultsOf.withOrigin i))
        (do let step ← matchNode a₂ c i (g.rule i) q acts
            reportStep (c.watch.wants (g.rule i)) i q (step.mapResults (ResultsOf.withOrigin i))
            return step.mapResults (ResultsOf.withOrigin i)) := by
    refine (unlessKnown_same hk instead ha hg hi hq.place acts).bind fun step hstep => ?_
    refine (hunit (reportStep_sameTables _ _ _ _)).bind fun _ _ => Concur.pure ?_
    have hafter : step.Lands c.text p (True ∧ empty i = true) := Step.Lands.after hstep hq
    exact (hafter.weaken And.right).mapResults _
  simp only [NodeMatcher.perform, perform, hrule]
  refine (hunit (reportTry_sameTables _ _ _ _)).bind fun _ _ => ?_
  cases skips with
  | false => exact hrest (Advance.self hp trivial)
  | true => exact (skipLeading_same hk ha hg hi hp).bind fun q hq => hrest hq

theorem SameKnowing.remember_same {i : ExprId} (hi : i < g.size) (hp : c.text.IsBoundary p) (acts skips : Bool) :
    Concur (State.Recalls (Step.LandsBy empty c.text)) (fun _ => True) (Step.LandsBy empty c.text i p)
      ((NodeMatcher.unlessKnown empty instead).remember a₁ c i p acts skips) (remember a₂ c i p acts skips) := by
  have hperform (b : Bool) := perform_same hk instead ha hg hi hp acts b
  unfold NodeMatcher.remember remember
  refine Concur.bind (P := fun _ => True) (Concur.refl (Keeps.of_unit fun s hs =>
    ⟨_, rfl, hs.congr s.counted_sameTables⟩)) fun _ _ => ?_
  refine Concur.bind (P := fun _ => True) (Concur.refl fun s hs => ⟨trivial, hs⟩) fun on _ => ?_
  cases on with
  | false => exact hperform _
  | true =>
    let key : MemoKey := ⟨i, p, acts, skips && !c.adjacent, c.adjacent⟩
    refine (Concur.refl (State.Recalls.consult key)).bind fun found hfound => ?_
    cases found with
    | some step => exact Concur.pure (hfound step rfl)
    | none =>
      refine (hperform _).bind fun step hstep => ?_
      have hstore : Keeps (State.Recalls (Step.LandsBy empty c.text)) (fun _ => True) (fun _ => True) (store key step) :=
        State.Recalls.store hstep
      exact (Concur.refl hstore).bind fun _ _ => Concur.pure hstep

end Attempts

section Runs

variable {g : Grammar} {empty : ExprId → Bool} (hk : g.Covers empty) (instead : NodeMatcher)
include hk

/-- **Attempts find out only what is known**, in every mode: those that would match otherwise are the usual ones. -/
theorem unlessKnown_attemptWithin (n : Nat) :
    SameKnowing g empty ((NodeMatcher.unlessKnown empty instead).attemptWithin n) (attemptWithin n) := by
  induction n with
  | zero => exact fun c i p acts skips _ _ _ => Concur.halt trivial
  | succ n ih =>
    intro c i p acts skips hg hi hp
    have hdeep : c.deeper.grammar = g := hg
    have hremember := SameKnowing.remember_same hk instead ih hdeep hi hp acts skips
    rw [NodeMatcher.attemptWithin, attemptWithin]
    cases c.config.recursionLimit with
    | none => exact hremember
    | some limit =>
      dsimp only
      split
      · exact Concur.halt trivial
      · exact hremember

theorem unlessKnown_matchRoot {c : Context} (hg : c.grammar = g) (all : Bool) :
    Concur (State.Recalls (Step.LandsBy empty c.text)) (fun _ => True) (fun _ => True)
      ((NodeMatcher.unlessKnown empty instead).matchRoot c all) (matchRoot c all) := by
  have ha : SameKnowing g empty ((NodeMatcher.unlessKnown empty instead).attempt c) (attempt c) :=
    unlessKnown_attemptWithin hk instead _
  unfold NodeMatcher.matchRoot matchRoot
  simp only [hg]
  refine (ha hg hk.root c.text.isBoundary_zero).bind fun step hstep => ?_
  cases step with
  | failed d => exact Concur.pure trivial
  | matched stop r =>
    cases all with
    | false => exact Concur.pure trivial
    | true =>
      simp only [Bool.not_true, Bool.false_eq_true, if_false]
      refine (SameKnowing.skipLeading_same hk ha hg hk.root (Advance.place hstep)).bind fun q _ => ?_
      split
      · exact Concur.pure trivial
      · exact Concur.pure trivial

/-- What a scan attempts at a place starts at a place from there on, and ends at one. -/
theorem unlessKnown_attemptAt {c : Context} (hg : c.grammar = g) {p : Nat} (hp : c.text.IsBoundary p) :
    Concur (State.Recalls (Step.LandsBy empty c.text)) (fun _ => True)
      (fun x => c.text.IsBoundary x.1 ∧ x.2.Lands c.text p True)
      ((NodeMatcher.unlessKnown empty instead).attemptAt c p) (Scan.attemptAt c p) := by
  have ha : SameKnowing g empty ((NodeMatcher.unlessKnown empty instead).attempt c) (attempt c) :=
    unlessKnown_attemptWithin hk instead _
  unfold NodeMatcher.attemptAt Scan.attemptAt
  simp only [hg]
  refine (SameKnowing.skipLeading_same hk ha hg hk.root hp).bind fun start hstart => ?_
  refine (ha hg hk.root hstart.place).bind fun step hstep => Concur.pure ⟨hstart.place, ?_⟩
  exact (Step.Lands.after hstep hstart).weaken And.left

end Runs

/-! ## Scans -/

/-- A scan of a text that is over, or at a place of it or past its end, with tables that hold only what nodes may
have. -/
structure Scan.Knowing (g : Grammar) (empty : ExprId → Bool) (t : Text) (s : Scan) : Prop where
  grammar : s.context.grammar = g
  text : s.context.text = t
  tables : s.state.Recalls (Step.LandsBy empty t)
  position : t.IsBoundary s.position ∨ t.size < s.position

section Scans

variable {g : Grammar} {empty : ExprId → Bool} (hk : g.Covers empty) (instead : NodeMatcher) {t : Text} {s : Scan}
include hk

theorem unlessKnown_nextWithin (fuel : Nat) (h : s.Knowing g empty t) :
    (NodeMatcher.unlessKnown empty instead).nextWithin fuel s = s.nextWithin fuel ∧
      (s.nextWithin fuel).2.Knowing g empty t := by
  induction fuel generalizing s with
  | zero => exact ⟨rfl, h.grammar, h.text, h.tables, h.position⟩
  | succ fuel ih =>
    obtain ⟨c, state, p, done⟩ := s
    obtain ⟨hg, rfl, htables, hposition⟩ := h
    unfold NodeMatcher.nextWithin Scan.nextWithin
    by_cases hend : (done || decide (c.text.size < p)) = true
    · rw [if_pos hend, if_pos hend]
      exact ⟨rfl, hg, rfl, htables, hposition⟩
    · rw [if_neg hend, if_neg hend]
      have hp : c.text.IsBoundary p := hposition.resolve_right fun hlt => hend (by simp [hlt])
      have hsame := unlessKnown_attemptAt hk instead hg hp
      have hattempt := hsame.keeps state htables
      -- past what yields nothing both go on from the same later place
      have hagain {start : Nat} {state' : State} (hstart : c.text.IsBoundary start)
          (hs' : state'.Recalls (Step.LandsBy empty c.text)) :=
        ih (s := ⟨c, state', c.text.next start, done⟩) ⟨hg, rfl, hs', hstart.next⟩
      rw [hsame.eq state htables] at hattempt
      simp only [EStateM.run, hsame.eq state htables]
      cases hr : Scan.attemptAt c p state with
      | error halt state' =>
        rw [hr] at hattempt
        exact ⟨rfl, hg, rfl, hattempt.2, hposition⟩
      | ok x state' =>
        obtain ⟨start, step⟩ := x
        rw [hr] at hattempt
        obtain ⟨⟨hstart, hstep⟩, hs'⟩ := hattempt
        cases step with
        | failed d => exact hagain hstart hs'
        | matched stop r =>
          dsimp only
          split
          · exact ⟨rfl, hg, rfl, hs', Or.inl (Advance.place hstep)⟩
          · exact hagain hstart hs'

theorem unlessKnown_collect (n : Nat) (h : s.Knowing g empty t) :
    (NodeMatcher.unlessKnown empty instead).collect n s = s.collect n := by
  induction n generalizing s with
  | zero => rfl
  | succ n ih =>
    obtain ⟨hsame, hnext⟩ := unlessKnown_nextWithin hk instead (s.context.text.size + 2) h
    unfold NodeMatcher.collect Scan.collect
    rw [hsame, Scan.next]
    rcases hx : s.nextWithin (s.context.text.size + 2) with ⟨_ | item, s'⟩
    · rfl
    · rw [hx] at hnext
      simp only [ih hnext]

/-- Where all that may be empty is known, runs never take another way of matching where nodes consume nothing. -/
theorem Grammar.Covers.runsBy : g.RunsBy (NodeMatcher.unlessKnown empty instead) := by
  refine ⟨fun config watch state t all => ?_, fun config watch t n => ?_⟩
  · let c := Context.top g config watch (viewOf config t)
    have hroot := (unlessKnown_matchRoot hk instead (c := c) rfl all).eq _ (State.Recalls.forget _ state [])
    simp only [NodeMatcher.parse, Parser.parse, EStateM.run]
    rw [show (NodeMatcher.unlessKnown empty instead).matchRoot _ all _ = _ from hroot]
  · exact unlessKnown_collect hk instead n ⟨rfl, rfl, State.Recalls.initial _ _, Or.inl (Text.isBoundary_zero _)⟩

end Scans

/-! ## The analysis -/

/-- What the analysis finds covers a built grammar, when every pattern that somewhere matches without consuming text
matches the empty text. -/
theorem Grammar.covers_nullable {calls : List Builder.Call} {b : Builder} {root : ExprId} {g : Grammar}
    (hcalls : ({} : Builder).runAll calls = .ok b) (hbuild : b.build root = .ok g)
    (hpatterns : ∀ i < g.size, ∀ source p, (g.rule i).kind = .pattern source p →
      ∀ t m, p.find? t = some m → m.stop = 0 → p.matchesIn [] = true) : g.Covers (nullable g.nodes).contains := by
  have hbuilds := Builder.builds_of_ok hbuild
  refine ⟨?_, fun i j hi hj => hbuilds.references_lt hi hj, fun i => nullable_contains, fun {i} hi {t start r} hr => ?_⟩
  · rw [hbuilds.root_eq, hbuilds.size]
    exact hbuilds.root_lt
  · obtain ⟨n, hn, hinherits⟩ := hbuilds.node hi
    have hspelled : (g.rule i).kind.IsSpelled := by
      rw [show (g.rule i).kind = n.kind from hinherits.kind]
      exact Builder.spelled_of_runAll (b := {}) (by simp) hcalls hn
    exact nullable_contains (isNullable_of_matchToken hspelled (hpatterns i hi) hr _)

/-- **The analysis is sound**: in parses and scans with a built grammar, in every mode, a node matches without consuming
text after what is skipped only if it is found to be nullable, as long as every pattern that somewhere matches without
consuming text matches the empty text. What is found is the least solution of the equations for what may be empty, and
it is found after no more rounds than there are nodes, when one more would add nothing. -/
theorem nullable_sound {calls : List Builder.Call} {b : Builder} {root : ExprId} {g : Grammar}
    (hcalls : ({} : Builder).runAll calls = .ok b) (hbuild : b.build root = .ok g)
    (hpatterns : ∀ i < g.size, ∀ source p, (g.rule i).kind = .pattern source p →
      ∀ t m, p.find? t = some m → m.stop = 0 → p.matchesIn [] = true) :
    (∀ instead, g.RunsBy (NodeMatcher.unlessKnown (nullable g.nodes).contains instead)) ∧
      IsLeast (NullableEquations g.nodes) (nullable g.nodes).contains ∧
      ∃ rounds ≤ g.size, nullable g.nodes = (sweep g.size (nullableRule g.nodes))^[rounds] [] ∧
        sweep g.size (nullableRule g.nodes) (nullable g.nodes) = nullable g.nodes := by
  refine ⟨(Grammar.covers_nullable hcalls hbuild hpatterns).runsBy, nullable_isLeast g.nodes, ?_⟩
  rw [← g.size_nodes]
  exact saturate_eq_iterate g.nodes.size (nullableRule g.nodes)

/-- A left-recursive forward to itself before a letter, or to a pattern that may be empty. -/
def maybeEmpty : List Builder.Call :=
  [.pattern "a*" {}, .literal "b" false, .forward "f", .sequence [2, 1], .orderedChoice [3, 0], .bind 2 4]

/-- The pattern, as it is compiled. -/
def manyLetters : Pattern :=
  ⟨⟨[.accept, .split 2 0, .one (.ranges [(97, 97)]) 1, .assertion .startText 1], 3⟩, []⟩

theorem matchesIn_manyLetters : manyLetters.matchesIn [] = true := by
  rw [Pattern.matchesIn, Pattern.find?, Pattern.findFrom, Pattern.exploreFuel]
  simp [Pattern.explore, Pattern.Instr.follow, Pattern.Cursor.satisfies, Pattern.Cursor.step?, manyLetters]

/-- No other pattern. -/
def NodeKind.hasOnly (p : Pattern) : NodeKind → Bool
  | .pattern _ q => q == p
  | _ => true

theorem nullable_sound_maybeEmpty : ∃ b g, ({} : Builder).runAll maybeEmpty = .ok b ∧ b.build 4 = .ok g ∧
    (∀ instead, g.RunsBy (NodeMatcher.unlessKnown (nullable g.nodes).contains instead)) ∧
      IsLeast (NullableEquations g.nodes) (nullable g.nodes).contains ∧
      ∃ rounds ≤ g.size, nullable g.nodes = (sweep g.size (nullableRule g.nodes))^[rounds] [] ∧
        sweep g.size (nullableRule g.nodes) (nullable g.nodes) = nullable g.nodes := by
  let b := (({} : Builder).runAll maybeEmpty).toOption.getD default
  let g := (b.build 4).toOption.getD default
  have hcalls : ({} : Builder).runAll maybeEmpty = .ok b := eq_ok_of_isOk (by decide +kernel)
  have hbuild : b.build 4 = .ok g := eq_ok_of_isOk (by decide +kernel)
  have hpatterns : ∀ i < g.size, ∀ source p, (g.rule i).kind = .pattern source p →
      ∀ t m, p.find? t = some m → m.stop = 0 → p.matchesIn [] = true := by
    intro i hi source p hk _ _ _ _
    have hall : ∀ i < g.size, (g.rule i).kind.hasOnly manyLetters = true := by decide +kernel
    have hp : (NodeKind.pattern source p).hasOnly manyLetters = true := hk ▸ hall i hi
    rw [eq_of_beq hp]
    exact matchesIn_manyLetters
  exact ⟨b, g, hcalls, hbuild, nullable_sound hcalls hbuild hpatterns⟩

end Packrat
