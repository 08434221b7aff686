import Packrat.Proofs.Memory.Table
import Packrat.Proofs.Placement.Boundary

/-!
# `Packrat.Proofs.Placement.Upkeep` — what a run keeps

A run keeps an invariant of its state, gives values with a property, and halts only in certain ways. Every
attempt at a site ends at a site further on, and so does every outcome that is remembered or a seed; which halts
there can be depends on the nodes that are attempted.

## Contents

* `Keeps` — computations that keep an invariant, and how they compose;
* `State.Placed` — the invariant of the tables;
* `Upkeep` — the halts that a closed set of nodes may raise;
* `Upkeep.Sound` — attempts that end at sites.
-/

namespace Packrat

/-! ## Computations that keep an invariant -/

/-- From states with `I`, a computation gives values with `P` or halts with `H`, and leaves a state with `I`. -/
def Keeps {α : Type} (I : State → Prop) (H : Halt → Prop) (P : α → Prop) (m : MatchM α) : Prop :=
  ∀ s, I s →
    match m s with
    | .ok a s' => P a ∧ I s'
    | .error h s' => H h ∧ I s'

namespace Keeps

variable {I : State → Prop} {H H' : Halt → Prop} {α β : Type} {P P' : α → Prop} {Q : β → Prop} {m : MatchM α}

theorem pure {a : α} (h : P a) : Keeps I H P (pure a) := fun _ hs => ⟨h, hs⟩

theorem halt {h : Halt} (hh : H h) : Keeps I H P (MatchM.halt h) := fun _ hs => ⟨hh, hs⟩

theorem bind {f : α → MatchM β} (hm : Keeps I H P m) (hf : ∀ a, P a → Keeps I H Q (f a)) :
    Keeps I H Q (m >>= f) := by
  intro s hs
  have h := hm s hs
  show match EStateM.bind m f s with
    | .ok a s' => Q a ∧ I s'
    | .error h s' => H h ∧ I s'
  unfold EStateM.bind
  cases hr : m s with
  | ok a s' =>
    rw [hr] at h
    exact hf a h.1 s' h.2
  | error e s' =>
    rw [hr] at h
    exact h

theorem mono (hm : Keeps I H P m) (hP : ∀ a, P a → P' a) (hH : ∀ h, H h → H' h) : Keeps I H' P' m := by
  intro s hs
  have h := hm s hs
  cases hr : m s with
  | ok a s' =>
    rw [hr] at h
    exact ⟨hP a h.1, h.2⟩
  | error e s' =>
    rw [hr] at h
    exact ⟨hH e h.1, h.2⟩

/-- Values have what another invariant gives them as well. -/
theorem also {I' : State → Prop} (hm : Keeps I H P m) (hI : ∀ s, I s → I' s) (hm' : Keeps I' H' P' m) :
    Keeps I H P' m := by
  intro s hs
  have h := hm s hs
  have h' := hm' s (hI s hs)
  cases hr : m s with
  | ok a s' =>
    rw [hr] at h h'
    exact ⟨h'.1, h.2⟩
  | error e s' =>
    rw [hr] at h
    exact h

/-- What is recovered from is no halt any more. -/
theorem recover {P : Step → Prop} {m : MatchM Step} (hm : Keeps I H P m)
    (hP : ∀ d, H (.committed d) → P (.failed d)) :
    Keeps I (fun h => H h ∧ h.isCommitted = false) P (MatchM.recover m) := by
  intro s hs
  have h := hm s hs
  unfold MatchM.recover
  cases hr : m s with
  | ok a s' =>
    rw [hr] at h
    exact h
  | error e s' =>
    rw [hr] at h
    cases e with
    | committed d => exact ⟨hP d h.1, h.2⟩
    | _ => exact ⟨⟨h.1, rfl⟩, h.2⟩

theorem of_unit {m : MatchM Unit} (h : ∀ s, I s → ∃ s', m s = .ok () s' ∧ I s') :
    Keeps I H (fun _ => True) m := by
  intro s hs
  obtain ⟨s', e, hs'⟩ := h s hs
  rw [e]
  exact ⟨trivial, hs'⟩

end Keeps

/-! ## The tables -/

/-- Every outcome in the tables of a state lies at a site of the text, at or after the position it was attempted
at. -/
structure State.Placed (S : Sites) (t : Text) (s : State) : Prop where
  memo : ∀ key step, s.memo.Holds key step → S.Holds t key.position step
  seeds : ∀ key step, s.seeds.get? key = some step → S.Holds t key.position step

namespace State.Placed

variable {S : Sites} {t : Text} {s s' : State}

theorem congr (h : s.Placed S t) (hs : s'.SameTables s) : s'.Placed S t := by
  refine ⟨fun key step hstep => h.memo key step ?_, fun key step hstep => h.seeds key step ?_⟩
  · rwa [← hs.memo]
  · rwa [← hs.seeds]

theorem initial (S : Sites) (t : Text) (config : Config) : (State.initial config).Placed S t :=
  ⟨fun key step h => absurd h (Memo.not_holds_ofStrategy _ key step),
    fun key step h => absurd h (by simp [State.initial])⟩

/-- A parse begins without remembered outcomes. -/
theorem forget (S : Sites) (t : Text) (s : State) (journal : List Event) :
    ({ s.forget with journal } : State).Placed S t :=
  ⟨fun key step h => absurd h (Memo.not_holds_clear _ key step),
    fun key step h => absurd h (by simp [State.forget])⟩

theorem withMemo (h : s.Placed S t) {m : Memo}
    (hm : ∀ key step, m.Holds key step → s.memo.Holds key step ∨ S.Holds t key.position step) :
    ({ s with memo := m } : State).Placed S t := by
  refine ⟨?_, h.seeds⟩
  intro key step hstep
  rcases hm key step hstep with hold | hnew
  · exact h.memo key step hold
  · exact hnew

theorem insertSeed (h : s.Placed S t) (key : SeedKey) {step : Step} (hstep : S.Holds t key.position step) :
    ({ s with seeds := s.seeds.insert key step } : State).Placed S t := by
  refine ⟨h.memo, ?_⟩
  intro key' step' h'
  by_cases hk : key' = key
  · subst hk
    obtain rfl : step = step' := by simpa using h'
    exact hstep
  · rw [show ({ s with seeds := s.seeds.insert key step } : State).seeds = s.seeds.insert key step from rfl,
      Seeds.get?_insert_of_ne _ _ hk] at h'
    exact h.seeds key' step' h'

theorem eraseSeed (h : s.Placed S t) (key : SeedKey) :
    ({ s with seeds := s.seeds.erase key } : State).Placed S t := by
  refine ⟨h.memo, ?_⟩
  intro key' step' h'
  by_cases hk : key' = key
  · subst hk
    exact absurd h' (by simp)
  · rw [show ({ s with seeds := s.seeds.erase key } : State).seeds = s.seeds.erase key from rfl,
      Seeds.get?_erase_of_ne _ hk] at h'
    exact h.seeds key' step' h'

end State.Placed

/-! ## Halts -/

/-- The halt an action ends a parse with, if it does. -/
def ActionError.halt? (start : Nat) : ActionError → Option Halt
  | .reject _ => none
  | .fatal message => some (.committed ⟨start, message⟩)
  | .failed cause => some (.action start cause)
  | .outOfRange => some .outOfRange

/-- The position of a halt that has one. -/
def Halt.position? : Halt → Option Nat
  | .committed d => some d.position
  | .recursionLimit _ p | .growthLimit _ p _ | .action p _ => some p
  | .unboundForward _ | .outOfRange | .endless => none

/-- The halts that attempts from a position on may raise, on a closed set of nodes. -/
structure Upkeep (g : Grammar) where
  sites : Sites
  halts : (t : Text) → (p : Nat) → Halt → Prop
  nodes : ExprId → Prop
  closed : g.Closed nodes
  mono : ∀ {t p p' h}, p ≤ p' → halts t p' h → halts t p h
  /-- A committed failure lies at a site, from the position of the attempt on. -/
  placed : ∀ {t p d}, halts t p (.committed d) → sites.From t p d.position
  /-- Other halts do not depend on the position. -/
  anywhere : ∀ {t p p' h}, h.isCommitted = false → halts t p h → halts t p' h
  behind : ∀ {t p q h}, sites.At t q → h.isCommitted = false → halts (t.before q) p h → halts t p h
  tooDeep : ∀ {t p}, sites.At t p → (∀ limit, halts t p (.recursionLimit limit p)) ∧ halts t p .endless
  growthLimit : ∀ {t p limit name}, sites.At t p → halts t p (.growthLimit name p limit)
  unboundForward : ∀ {i label}, nodes i → (g.rule i).kind = .forward label none →
    ∀ t p, halts t p (.unboundForward label)
  sequence : ∀ {i children}, nodes i → (g.rule i).kind = .sequence children →
    (∃ j ∈ children, (g.rule j).kind.isCommit = true) →
      ∀ {t p d}, sites.From t p d.position → halts t p (.committed d)
  transform : ∀ {i child action}, nodes i → (g.rule i).kind = .transform child action →
    ∀ {t p c r e h}, sites.At t p → (action.run c r).outcome = .error e → e.halt? p = some h → halts t p h

namespace Upkeep

/-- All nodes, which may halt in any way as long as committed failures lie at places of the text. -/
def places (g : Grammar) : Upkeep g where
  sites := .places
  halts t p h := ∀ d, h = .committed d → Sites.places.From t p d.position
  nodes _ := True
  closed := Grammar.Closed.all g
  mono hp h d hd := (h d hd).mono hp
  placed h := h _ rfl
  anywhere h _ d hd := absurd h (by simp [hd, Halt.isCommitted])
  behind _ h _ d hd := absurd h (by simp [hd, Halt.isCommitted])
  tooDeep _ := ⟨fun _ _ hd => absurd hd (by simp), fun _ hd => absurd hd (by simp)⟩
  growthLimit _ _ hd := absurd hd (by simp)
  unboundForward _ _ _ _ _ hd := absurd hd (by simp)
  sequence _ _ _ := fun hd d' hd' => Halt.committed.inj hd' ▸ hd
  transform := by
    intro i child action _ _ t p c r e h hp _ he d hd
    subst hd
    cases e with
    | fatal message =>
      obtain rfl : Diagnostic.mk p message = d := by simpa [ActionError.halt?] using he
      exact Sites.From.self hp
    | reject | failed | outOfRange => exact absurd he (by simp [ActionError.halt?])

variable {g : Grammar}

/-- How a set of nodes may halt: at places of the text, with committed failures from the position of the attempt on,
and for want of a target only if one of its forwards lacks it. -/
structure HaltsWithin (g : Grammar) (N : ExprId → Prop) (t : Text) (p : Nat) (h : Halt) : Prop where
  committed : ∀ d, h = .committed d → Sites.places.From t p d.position
  position : ∀ q ∈ h.position?, t.IsBoundary q
  unbound : ∀ label, h = .unboundForward label → ∃ i, N i ∧ (g.rule i).kind = .forward label none

namespace HaltsWithin

variable {N : ExprId → Prop} {t : Text} {p q : Nat}

/-- A committed failure from the position of the attempt on. -/
theorem ofCommitted {d : Diagnostic} (hd : Sites.places.From t p d.position) : HaltsWithin g N t p (.committed d) := by
  refine ⟨fun d' h => Halt.committed.inj h ▸ hd, ?_, by simp⟩
  intro q hq
  obtain rfl := Option.some.inj hq
  exact hd.site

/-- Any other halt, at the place of the attempt if it has a position. -/
theorem ofPlace {h : Halt} (hc : h.isCommitted = false) (hp : t.IsBoundary p) (hplace : ∀ q ∈ h.position?, q = p)
    (hbound : ∀ label, h ≠ .unboundForward label) : HaltsWithin g N t p h := by
  refine ⟨fun d hd => absurd hc (by simp [hd, Halt.isCommitted]), ?_, fun label hl => absurd hl (hbound label)⟩
  intro q hq
  rw [hplace q hq]
  exact hp

end HaltsWithin

/-- A closed set of nodes, with all that is known of its halts. -/
def within {N : ExprId → Prop} (hN : g.Closed N) : Upkeep g where
  sites := .places
  halts := HaltsWithin g N
  nodes := N
  closed := hN
  mono hp h := ⟨fun d hd => (h.committed d hd).mono hp, h.position, h.unbound⟩
  placed h := h.committed _ rfl
  anywhere hc h := ⟨fun d hd => absurd hc (by simp [hd, Halt.isCommitted]), h.position, h.unbound⟩
  behind hq hc h := ⟨fun d hd => absurd hc (by simp [hd, Halt.isCommitted]), fun p hp => hq.of_before (h.position p hp),
    h.unbound⟩
  tooDeep hp := ⟨fun limit => .ofPlace rfl hp (by simp [Halt.position?]) (by simp),
    .ofPlace rfl hp (by simp [Halt.position?]) (by simp)⟩
  growthLimit hp := .ofPlace rfl hp (by simp [Halt.position?]) (by simp)
  unboundForward hi hk t p :=
    ⟨by simp, by simp [Halt.position?], fun label hl => ⟨_, hi, Halt.unboundForward.inj hl ▸ hk⟩⟩
  sequence _ _ _ := fun hd => .ofCommitted hd
  transform := by
    intro i child action _ _ t p c r e h hp _ he
    cases e with
    | reject => exact absurd he (by simp [ActionError.halt?])
    | fatal message =>
      obtain rfl := Option.some.inj he
      exact .ofCommitted (Sites.From.self hp)
    | failed cause =>
      obtain rfl := Option.some.inj he
      exact .ofPlace rfl hp (by simp [Halt.position?]) (by simp)
    | outOfRange =>
      obtain rfl := Option.some.inj he
      exact .ofPlace rfl hp (by simp [Halt.position?]) (by simp)

variable (U : Upkeep g)

/-- The halts that are left where committed failures are recovered from. -/
def quiet (t : Text) (p : Nat) (h : Halt) : Prop := U.halts t p h ∧ h.isCommitted = false

/-- A computation in a context that raises halts from a position on. -/
def Run {α : Type} (c : Context) (p : Nat) (P : α → Prop) (m : MatchM α) : Prop :=
  Keeps (State.Placed U.sites c.text) (U.halts c.text p) P m

/-- A computation in a context whose committed failures are recovered from. -/
def QuietRun {α : Type} (c : Context) (p : Nat) (P : α → Prop) (m : MatchM α) : Prop :=
  Keeps (State.Placed U.sites c.text) (U.quiet c.text p) P m

/-- Attempts of the nodes end at sites at or after the position they are made at. -/
def Sound (a : Attempt) : Prop :=
  ∀ ⦃c i p acts skips⦄, c.grammar = g → U.nodes i → U.sites.At c.text p →
    U.Run c p (U.sites.Holds c.text p) (a c i p acts skips)

variable {U} {α β : Type} {c : Context} {p p' : Nat} {P P' : α → Prop} {Q : β → Prop} {m : MatchM α}
  {f : α → MatchM β}

theorem Run.pure {a : α} (h : P a) : U.Run c p P (pure a) := Keeps.pure h

theorem QuietRun.pure {a : α} (h : P a) : U.QuietRun c p P (pure a) := Keeps.pure h

theorem Run.mono (hm : U.Run c p' P m) (hp : p ≤ p') (hP : ∀ a, P a → P' a) : U.Run c p P' m :=
  Keeps.mono hm hP fun _ => U.mono hp

theorem Run.bind (hm : U.Run c p P m) (hf : ∀ a, P a → U.Run c p Q (f a)) : U.Run c p Q (m >>= f) :=
  Keeps.bind hm hf

theorem QuietRun.mono (hm : U.QuietRun c p' P m) (hP : ∀ a, P a → P' a) : U.QuietRun c p P' m :=
  Keeps.mono hm hP fun _ h => ⟨U.anywhere h.2 h.1, h.2⟩

theorem QuietRun.run (hm : U.QuietRun c p' P m) : U.Run c p P m :=
  Keeps.mono hm (fun _ => id) fun _ h => U.anywhere h.2 h.1

theorem QuietRun.bind (hm : U.QuietRun c p P m) (hf : ∀ a, P a → U.QuietRun c p Q (f a)) :
    U.QuietRun c p Q (m >>= f) :=
  Keeps.bind hm hf

/-- Recovering from committed failures keeps outcomes at sites. -/
theorem Run.recover {m : MatchM Step} (hm : U.Run c p (U.sites.Holds c.text p) m) :
    U.QuietRun c p (U.sites.Holds c.text p) (MatchM.recover m) :=
  Keeps.recover hm fun _ hd => U.placed hd

/-- What follows an attempt is kept when it is after a match and after a failure. -/
theorem Run.step {m : MatchM Step} {f : Step → MatchM β} (hm : U.Run c p (U.sites.Holds c.text p') m)
    (hmatched : ∀ stop r, U.sites.From c.text p' stop → U.Run c p Q (f (.matched stop r)))
    (hfailed : ∀ d, U.sites.From c.text p' d.position → U.Run c p Q (f (.failed d))) :
    U.Run c p Q (m >>= f) := by
  refine hm.bind ?_
  intro step hstep
  cases step with
  | matched stop r => exact hmatched stop r hstep
  | failed d => exact hfailed d hstep

theorem QuietRun.step {m : MatchM Step} {f : Step → MatchM β} (hm : U.QuietRun c p (U.sites.Holds c.text p') m)
    (hmatched : ∀ stop r, U.sites.From c.text p' stop → U.QuietRun c p Q (f (.matched stop r)))
    (hfailed : ∀ d, U.sites.From c.text p' d.position → U.QuietRun c p Q (f (.failed d))) :
    U.QuietRun c p Q (m >>= f) := by
  refine hm.bind ?_
  intro step hstep
  cases step with
  | matched stop r => exact hmatched stop r hstep
  | failed d => exact hfailed d hstep

end Upkeep
end Packrat
