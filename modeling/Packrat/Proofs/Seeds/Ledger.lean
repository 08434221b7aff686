import Packrat.Proofs.Plain.Nesting
import Packrat.Proofs.Seeds.Rounds

/-!
# `Packrat.Proofs.Seeds.Ledger` — what runs leave in the seed table

Where forwards grow seeds, what an attempt comes to depends on the seeds that are set, and it sets seeds itself.
The seeds and the number of rounds of growth make up the *ledger* of a state; the rest of a state no attempt
reads. A computation is described by what it comes to and by the ledger it leaves.

## Contents

* `Ledger`, `Ends` — where computations end, and how they compose;
* `perform_ends`, `attempt_ends` — an attempt of a node without ignorables;
* `Context.Seeding` — contexts in which forwards grow seeds;
* `forward_ends_of_seed`, `forward_ends_of_failure` — the attempt of a forward that has a seed, and of one
  whose target fails.
-/

namespace Packrat

/-! ## Ledgers -/

/-- What attempts read of a state when nothing is remembered. -/
structure Ledger where
  seeds : Seeds
  growths : Nat

namespace Ledger

/-- The ledger of a state in which nothing is remembered. -/
structure Of (l : Ledger) (s : State) : Prop where
  memo : s.memo = .off
  seeds : s.seeds = l.seeds
  growths : s.metrics.growths = l.growths

/-- A ledger with other seeds. -/
def withSeeds (l : Ledger) (f : Seeds → Seeds) : Ledger := { l with seeds := f l.seeds }

/-- A ledger with one more round of growth. -/
def grown (l : Ledger) : Ledger := { l with growths := l.growths + 1 }

variable {l : Ledger} {s s' : State}

theorem Of.congr (h : l.Of s) (hs : s'.SameTables s) : l.Of s' :=
  ⟨hs.memo.trans h.memo, hs.seeds.trans h.seeds, hs.growths.trans h.growths⟩

theorem Of.withSeeds (h : l.Of s) (f : Seeds → Seeds) : (l.withSeeds f).Of (s.withSeeds f) :=
  ⟨h.memo, congrArg f h.seeds, h.growths⟩

theorem Of.grown (h : l.Of s) : l.grown.Of s.grown :=
  ⟨h.memo, h.seeds, congrArg (· + 1) h.growths⟩

end Ledger

/-! ## Where computations end -/

/-- From states with a ledger, a computation comes to a value and a ledger with `Q`, or halts with `E`. -/
def Ends {α : Type} (E : Halt → Prop) (l : Ledger) (m : MatchM α) (Q : α → Ledger → Prop) : Prop :=
  ∀ s, l.Of s →
    match m s with
    | .ok a s' => ∃ l' : Ledger, l'.Of s' ∧ Q a l'
    | .error h _ => E h

namespace Ends

variable {E : Halt → Prop} {l : Ledger} {α β : Type} {m : MatchM α} {Q Q' : α → Ledger → Prop}
  {R : β → Ledger → Prop}

/-- A run from a state with the ledger halts with `E`, or comes to a value and a ledger with `Q`. -/
theorem cases (hm : Ends E l m Q) {s : State} (hs : l.Of s) :
    (∃ e s', m s = .error e s' ∧ E e) ∨ ∃ a s' l', m s = .ok a s' ∧ l'.Of s' ∧ Q a l' := by
  have h := hm s hs
  cases hr : m s with
  | ok a s' =>
    rw [hr] at h
    obtain ⟨l', hs', ha⟩ := h
    exact Or.inr ⟨a, s', l', rfl, hs', ha⟩
  | error e s' =>
    rw [hr] at h
    exact Or.inl ⟨e, s', rfl, h⟩

theorem pure {a : α} (h : Q a l) : Ends E l (pure a) Q := fun _ hs => ⟨l, hs, h⟩

theorem bind {f : α → MatchM β} (hm : Ends E l m Q) (hf : ∀ a l', Q a l' → Ends E l' (f a) R) :
    Ends E l (m >>= f) R := by
  intro s hs
  rcases hm.cases hs with ⟨e, s', hr, he⟩ | ⟨a, s', l', hr, hs', ha⟩
  · rw [bind_error hr]
    exact he
  · rw [bind_ok hr]
    exact hf a l' ha s' hs'

theorem mono (hm : Ends E l m Q) (h : ∀ a l', Q a l' → Q' a l') : Ends E l m Q' := by
  intro s hs
  rcases hm.cases hs with ⟨e, s', hr, he⟩ | ⟨a, s', l', hr, hs', ha⟩
  · rw [hr]
    exact he
  · rw [hr]
    exact ⟨l', hs', h a l' ha⟩

/-- Reports and counts leave the ledger alone. -/
theorem of_sameTables {m : MatchM Unit} (h : ∀ s, ∃ s', m s = .ok () s' ∧ s'.SameTables s) :
    Ends E l m fun _ l' => l' = l := by
  intro s hs
  obtain ⟨s', hr, hsame⟩ := h s
  rw [hr]
  exact ⟨l, hs.congr hsame, rfl⟩

/-- Without halts, a computation comes to a value. -/
theorem exists_ok (hm : Ends (fun _ => False) l m Q) {s : State} (hs : l.Of s) :
    ∃ a s' l', m s = .ok a s' ∧ l'.Of s' ∧ Q a l' :=
  (hm.cases hs).resolve_left fun ⟨_, _, _, h⟩ => h

end Ends

/-! ## Attempts -/

/-- Where a node without ignorables starts when it is attempted at a position. -/
def Rule.lead (rule : Rule) (t : Text) (skips : Bool) (p : Nat) : Nat :=
  if skips && rule.skipsWhitespace then t.skip rule.whitespace.contains p else p

@[simp] theorem Rule.lead_false (rule : Rule) (t : Text) (p : Nat) : rule.lead t false p = p := rfl

theorem skipLeading_eq {rule : Rule} (h : rule.ignores = []) (a : Attempt) (c : Context) (p : Nat) :
    skipLeading a c rule p = pure (rule.lead c.text true p) := by
  rw [skipLeading, skipIgnorables, h]
  rfl

/-- A node without ignorables is performed by matching it where it starts. -/
theorem perform_ends {E : Halt → Prop} {l : Ledger} {Q : Step → Ledger → Prop} {a : Attempt} {c : Context}
    {i : ExprId} {p : Nat} {acts skips : Bool} (hignores : (c.rule i).ignores = [])
    (h : Ends E l (matchNode a c i (c.rule i) ((c.rule i).lead c.text skips p) acts) fun step l' =>
      Q (step.mapResults (ResultsOf.withOrigin i)) l') :
    Ends E l (perform a c i p acts skips) Q := by
  have hrest : Ends E l
      (do let step ← matchNode a c i (c.rule i) ((c.rule i).lead c.text skips p) acts
          reportStep (c.watch.wants (c.rule i)) i ((c.rule i).lead c.text skips p)
            (step.mapResults (ResultsOf.withOrigin i))
          return step.mapResults (ResultsOf.withOrigin i)) Q := by
    refine h.bind ?_
    intro step l' hstep
    refine (Ends.of_sameTables (reportStep_sameTables _ _ _ _)).bind ?_
    intro _ l'' hl
    subst hl
    exact Ends.pure hstep
  simp only [perform]
  refine (Ends.of_sameTables (reportTry_sameTables _ _ _ _)).bind ?_
  intro _ l' hl
  subst hl
  cases skips with
  | true =>
    rw [if_pos rfl, skipLeading_eq hignores, pure_bind]
    exact hrest
  | false => exact hrest

/-- Contexts on one grammar and text, outside combined regions, in which forwards grow seeds. -/
structure Context.Seeding (g : Grammar) (t : Text) (limit : Option Nat) (c : Context) : Prop where
  grammar : c.grammar = g
  text : c.text = t
  seeding : c.config.memoization = .leftRecursion
  limit : c.config.growthLimit = limit
  apart : c.adjacent = false

namespace Context.Seeding

variable {g : Grammar} {t : Text} {limit : Option Nat} {c : Context} (hc : c.Seeding g t limit)
include hc

theorem deeper : c.deeper.Seeding g t limit := ⟨hc.1, hc.2, hc.3, hc.4, hc.5⟩

theorem rule (i : ExprId) : c.rule i = g.rule i := by rw [Context.rule, hc.grammar]

/-- **An attempt of a node without ignorables** matches it one level deeper, where it starts. -/
theorem attempt_ends {E : Halt → Prop} {l : Ledger} {Q : Step → Ledger → Prop} {i : ExprId}
    (hignores : (g.rule i).ignores = []) {n p : Nat} {acts skips : Bool}
    (hdeep : c.room n = 0 → ∀ e : Halt, e.isTooDeep = true → E e)
    (h : ∀ m, c.deeper.room m + 1 = c.room n →
      Ends E l (matchNode (attemptWithin m) c.deeper i (g.rule i) ((g.rule i).lead t skips p) acts) fun step l' =>
        Q (step.mapResults (ResultsOf.withOrigin i)) l') :
    Ends E l (attemptWithin n c i p acts skips) Q := by
  intro s hs
  cases hroom : c.room n with
  | zero =>
    obtain ⟨e, he, hrun⟩ := attemptWithin_of_room_zero hroom i p acts skips
    rw [hrun]
    exact hdeep hroom e he
  | succ k =>
    obtain ⟨m, hm, hrun⟩ := attemptWithin_of_room_succ hroom
    have hskips : (skips && !c.deeper.adjacent) = skips := by
      rw [show c.deeper.adjacent = false from hc.apart, Bool.not_false, Bool.and_true]
    have hperform : Ends E l (perform (attemptWithin m) c.deeper i p acts skips) Q := by
      refine perform_ends (by rw [hc.deeper.rule]; exact hignores) ?_
      rw [hc.deeper.rule, hc.deeper.text]
      exact h m (by rw [hm, hroom])
    rw [hrun, remember_off hs.memo, hskips]
    exact hperform s.counted (hs.congr s.counted_sameTables)

end Context.Seeding

/-! ## Forwards -/

section Forwards

variable {g : Grammar} {t : Text} {limit : Option Nat} {c : Context} (hc : c.Seeding g t limit)
  {E : Halt → Prop} {l : Ledger} {Q : Step → Ledger → Prop} {a : Attempt} {f target : ExprId} {label : String}
  (hk : (g.rule f).kind = .forward label (some target)) {p : Nat} {acts : Bool}
include hc hk

/-- Forwards are matched by their seeds. -/
theorem Context.Seeding.matchNode_forward :
    matchNode a c f (g.rule f) p acts = growSeed a c (g.rule f) f target p acts := by
  simp only [matchNode, hk, if_pos hc.seeding]

/-- A forward that has a seed is answered by it. -/
theorem Context.Seeding.forward_ends_of_seed {step : Step} (hseed : l.seeds.get? ⟨p, f, acts⟩ = some step)
    (h : Q step l) : Ends E l (matchNode a c f (g.rule f) p acts) Q := by
  rw [hc.matchNode_forward hk]
  intro s hs
  rw [growSeed_answered (by rw [hs.seeds]; exact hseed)]
  exact ⟨l, hs, h⟩

/-- A forward whose target fails without recursion has that failure, which stays as the seed. -/
theorem Context.Seeding.forward_ends_of_failure {d : Diagnostic} (hnew : l.seeds.get? ⟨p, f, acts⟩ = none)
    (htarget : Ends E (l.withSeeds (SeedKeys.set ⟨p, f⟩ acts (firstSeed p))) (a c target p false false)
      fun step l' => step = .failed d ∧ Q (.failed d) (l'.withSeeds (SeedKeys.set ⟨p, f⟩ acts (.failed d)))) :
    Ends E l (matchNode a c f (g.rule f) p acts) Q := by
  rw [hc.matchNode_forward hk]
  intro s hs
  rw [growSeed_opens (by rw [hs.seeds]; exact hnew)]
  rcases htarget.cases (hs.withSeeds _) with ⟨e, s', hr, he⟩ | ⟨_, s', l', hr, hs', rfl, hq⟩
  · rw [growRounds_error hr]
    exact he
  · rw [growRounds_refuse hr rfl, refuse_eq]
    exact ⟨_, hs'.withSeeds _, hq⟩

end Forwards

/-! ## Actions -/

/-- An action that accepts a match leaves the ledger alone. -/
theorem runAction_ends {E : Halt → Prop} {l : Ledger} {c : Context} {action : Action} {start stop : Nat}
    {results results' : Results} (h : (action.run ⟨c.text, start, stop⟩ results).outcome = .ok results') :
    Ends E l (runAction c action start stop results) fun step l' => l' = l ∧ step = .matched stop results' := by
  refine (Ends.of_sameTables (m := MatchM.notes (action.run ⟨c.text, start, stop⟩ results).notes)
    fun _ => ⟨_, rfl, rfl, rfl, rfl, rfl⟩).bind ?_
  intro _ l' hl
  subst hl
  rw [h]
  exact Ends.pure ⟨rfl, rfl⟩

end Packrat
