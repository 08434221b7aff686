import Packrat.Proofs.Placement.Nodes

/-!
# `Packrat.Proofs.Depth.Concur` — computations that are the same where they are run

The limit of nesting is not a bound on what a parse may do but on how deep it may go: two runs under different
limits are the same as long as both limits cover the nesting. Two computations *concur* when they are the same
from every state that can be there; what they come to is then known as well.

## Contents

* `Concur` — computations that are the same, and how they compose;
* `Advance`, `Step.Lands` — where a match may end, and when it may be empty;
* `Context.Peers` — contexts that differ in nothing but nesting;
* `Twin` — two runs side by side, and `Twin.Meets` — attempts that concur.
-/

namespace Packrat

/-! ## Computations that are the same -/

/-- From states with `I` two computations are the same: they give one value with `P` or one halt with `H`, and
leave one state with `I`. -/
structure Concur {α : Type} (I : State → Prop) (H : Halt → Prop) (P : α → Prop) (m₁ m₂ : MatchM α) : Prop where
  keeps : Keeps I H P m₁
  eq : ∀ s, I s → m₁ s = m₂ s

namespace Concur

variable {I : State → Prop} {H H' : Halt → Prop} {α β : Type} {P P' : α → Prop} {Q : β → Prop} {m m₁ m₂ : MatchM α}

theorem refl (h : Keeps I H P m) : Concur I H P m m := ⟨h, fun _ _ => rfl⟩

theorem pure {a : α} (h : P a) : Concur I H P (pure a) (pure a) := refl (Keeps.pure h)

theorem halt {h : Halt} (hh : H h) : Concur I H P (MatchM.halt h) (MatchM.halt h) := refl (Keeps.halt hh)

theorem bind {f₁ f₂ : α → MatchM β} (hm : Concur I H P m₁ m₂) (hf : ∀ a, P a → Concur I H Q (f₁ a) (f₂ a)) :
    Concur I H Q (m₁ >>= f₁) (m₂ >>= f₂) := by
  refine ⟨hm.keeps.bind fun a ha => (hf a ha).keeps, ?_⟩
  intro s hs
  have hvalue := hm.keeps s hs
  show EStateM.bind m₁ f₁ s = EStateM.bind m₂ f₂ s
  unfold EStateM.bind
  rw [← hm.eq s hs]
  cases hr : m₁ s with
  | ok a s' =>
    rw [hr] at hvalue
    exact (hf a hvalue.1).eq s' hvalue.2
  | error e s' => rfl

theorem mono (hm : Concur I H P m₁ m₂) (hP : ∀ a, P a → P' a) (hH : ∀ h, H h → H' h) : Concur I H' P' m₁ m₂ :=
  ⟨hm.keeps.mono hP hH, hm.eq⟩

/-- What is recovered from is no halt any more. -/
theorem recover {P : Step → Prop} {m₁ m₂ : MatchM Step} (hm : Concur I H P m₁ m₂)
    (hP : ∀ d, P (.failed d)) : Concur I H P (MatchM.recover m₁) (MatchM.recover m₂) := by
  refine ⟨(hm.keeps.recover fun d _ => hP d).mono (fun _ => id) fun _ hh => hh.1, ?_⟩
  intro s hs
  unfold MatchM.recover
  rw [hm.eq s hs]

end Concur

/-! ## Where matches end -/

/-- A place from `p` on, and past it unless `E`. -/
structure Advance (t : Text) (p : Nat) (E : Prop) (q : Nat) : Prop where
  place : t.IsBoundary q
  le : p ≤ q
  empty : q = p → E

namespace Advance

variable {t : Text} {p p' q : Nat} {E E' : Prop}

theorem self (h : t.IsBoundary p) (hE : E) : Advance t p E p := ⟨h, le_refl p, fun _ => hE⟩

theorem weaken (h : Advance t p E q) (hE : E → E') : Advance t p E' q := ⟨h.place, h.le, fun hq => hE (h.empty hq)⟩

/-- Going on from a place further on. -/
theorem trans (h : Advance t p E p') (h' : Advance t p' E' q) : Advance t p (E ∧ E') q := by
  refine ⟨h'.place, h.le.trans h'.le, ?_⟩
  intro hq
  have hp' : p' = p := by have := h.le; have := h'.le; omega
  exact ⟨h.empty hp', h'.empty (hq.trans hp'.symm)⟩

end Advance

/-- Where a match may end; of failures nothing is said. -/
def Step.Lands (t : Text) (p : Nat) (E : Prop) : Step → Prop
  | .matched stop _ => Advance t p E stop
  | .failed _ => True

namespace Step

variable {t : Text} {p p' : Nat} {E E' : Prop} {step : Step}

theorem Lands.weaken (h : step.Lands t p E) (hE : E → E') : step.Lands t p E' := by
  cases step with
  | matched stop r => exact Advance.weaken h hE
  | failed d => trivial

theorem Lands.after (h : step.Lands t p' E') (hp : Advance t p E p') : step.Lands t p (E ∧ E') := by
  cases step with
  | matched stop r => exact hp.trans h
  | failed d => trivial

theorem Lands.mapResults (h : step.Lands t p E) (f : Results → Results) : (step.mapResults f).Lands t p E := by
  cases step with
  | matched stop r => exact h
  | failed d => trivial

end Step

/-! ## Contexts -/

/-- Two contexts that differ at most in the limit of nesting and in how deep they are. -/
structure Context.Peers (c₁ c₂ : Context) : Prop where
  grammar : c₁.grammar = c₂.grammar
  text : c₁.text = c₂.text
  watch : c₁.watch = c₂.watch
  adjacent : c₁.adjacent = c₂.adjacent
  memoization : c₁.config.memoization = c₂.config.memoization
  growthLimit : c₁.config.growthLimit = c₂.config.growthLimit

namespace Context.Peers

variable {c c₁ c₂ : Context}

theorem refl (c : Context) : c.Peers c := ⟨rfl, rfl, rfl, rfl, rfl, rfl⟩

theorem deeper (h : c₁.Peers c₂) : c₁.deeper.Peers c₂.deeper :=
  ⟨h.grammar, h.text, h.watch, h.adjacent, h.memoization, h.growthLimit⟩

theorem combined (h : c₁.Peers c₂) : c₁.combined.Peers c₂.combined :=
  ⟨h.grammar, h.text, h.watch, rfl, h.memoization, h.growthLimit⟩

theorem behind (h : c₁.Peers c₂) (p : Nat) : (c₁.behind p).Peers (c₂.behind p) :=
  ⟨h.grammar, congrArg (Text.before · p) h.text, h.watch, rfl, h.memoization, h.growthLimit⟩

theorem rule (h : c₁.Peers c₂) (i : ExprId) : c₂.rule i = c₁.rule i :=
  congrArg (Grammar.rule · i) h.grammar.symm

theorem initial (h : c₁.Peers c₂) : State.initial c₂.config = State.initial c₁.config := by
  rw [State.initial, State.initial, h.memoization]

end Context.Peers

/-! ## Two runs side by side -/

/-- Whether a halt says that a seed has grown for too many rounds. -/
def Halt.isGrowthLimit : Halt → Bool
  | .growthLimit _ _ _ => true
  | _ => false

/-- Two runs side by side: their attempts and contexts, the invariant of their states, the halts there may be, and
the nodes that may match without consuming text. -/
structure Twin (g : Grammar) where
  inv : State → Prop
  halts : Halt → Prop
  first : Attempt
  second : Attempt
  c₁ : Context
  c₂ : Context
  empty : ExprId → Bool
  grammar : c₁.grammar = g
  peers : c₁.Peers c₂
  stable : ∀ {s s'}, inv s → s'.SameTables s → inv s'
  /-- Only too deep nesting and too many rounds of growth may be excluded. -/
  ordinary : ∀ {h : Halt}, h.isTooDeep = false → h.isGrowthLimit = false → halts h
  nullable : ∀ i, (g.rule i).kind.isNullable empty = true → empty i = true

namespace Twin

variable {g : Grammar} (D : Twin g) {α β : Type}

/-- Computations of the two runs that are the same. -/
def Same (P : α → Prop) (m₁ m₂ : MatchM α) : Prop := Concur D.inv D.halts P m₁ m₂

/-- The attempts of a node at a position are the same, skipping or not, and with actions at most if `acts`. -/
def Meets (acts : Bool) (j : ExprId) (q : Nat) : Prop :=
  ∀ b skips, (b = true → acts = true) →
    D.Same (Step.Lands D.c₁.text q (D.empty j = true)) (D.first D.c₁ j q b skips) (D.second D.c₂ j q b skips)

/-- The two runs inside a combined region. -/
def combined : Twin g :=
  { D with c₁ := D.c₁.combined, c₂ := D.c₂.combined, grammar := D.grammar, peers := D.peers.combined }

variable {D}

theorem text_eq (D : Twin g) : D.c₂.text = D.c₁.text := D.peers.text.symm

theorem rule₁ (D : Twin g) (i : ExprId) : D.c₁.rule i = g.rule i := by rw [Context.rule, D.grammar]

theorem rule₂ (D : Twin g) (i : ExprId) : D.c₂.rule i = g.rule i := by rw [D.peers.rule, D.rule₁]

variable {P P' : α → Prop} {Q : β → Prop} {m₁ m₂ : MatchM α} {f₁ f₂ : α → MatchM β}

theorem Same.pure {a : α} (h : P a) : D.Same P (pure a) (pure a) := Concur.pure h

theorem Same.halt {h : Halt} (hdeep : h.isTooDeep = false) (hgrowth : h.isGrowthLimit = false) :
    D.Same P (MatchM.halt h) (MatchM.halt h) :=
  Concur.halt (D.ordinary hdeep hgrowth)

theorem Same.bind (hm : D.Same P m₁ m₂) (hf : ∀ a, P a → D.Same Q (f₁ a) (f₂ a)) :
    D.Same Q (m₁ >>= f₁) (m₂ >>= f₂) :=
  Concur.bind hm hf

theorem Same.mono (hm : D.Same P m₁ m₂) (hP : ∀ a, P a → P' a) : D.Same P' m₁ m₂ := Concur.mono hm hP fun _ => id

theorem Same.recover {t : Text} {p : Nat} {E : Prop} {m₁ m₂ : MatchM Step} (hm : D.Same (Step.Lands t p E) m₁ m₂) :
    D.Same (Step.Lands t p E) (MatchM.recover m₁) (MatchM.recover m₂) :=
  Concur.recover hm fun _ => trivial

/-- What follows an attempt is the same when it is after a match and after a failure. -/
theorem Same.step {t : Text} {p : Nat} {E : Prop} {m₁ m₂ : MatchM Step} {f₁ f₂ : Step → MatchM β}
    (hm : D.Same (Step.Lands t p E) m₁ m₂)
    (hmatched : ∀ stop r, Advance t p E stop → D.Same Q (f₁ (.matched stop r)) (f₂ (.matched stop r)))
    (hfailed : ∀ d, D.Same Q (f₁ (.failed d)) (f₂ (.failed d))) : D.Same Q (m₁ >>= f₁) (m₂ >>= f₂) := by
  refine hm.bind ?_
  intro step hstep
  cases step with
  | matched stop r => exact hmatched stop r hstep
  | failed d => exact hfailed d

/-- What only writes into the journal or counts is the same in both runs. -/
theorem Same.unit {m : MatchM Unit} (h : ∀ s, ∃ s', m s = .ok () s' ∧ s'.SameTables s) :
    D.Same (fun _ => True) m m := by
  refine Concur.refl (Keeps.of_unit ?_)
  intro s hs
  obtain ⟨s', e, hs'⟩ := h s
  exact ⟨s', e, D.stable hs hs'⟩

/-- A test of a node where committed failures count as ordinary ones. -/
theorem Meets.probe {acts : Bool} {j : ExprId} {q : Nat} (h : D.Meets acts j q) :
    D.Same (Step.Lands D.c₁.text q (D.empty j = true)) (Packrat.probe D.first D.c₁ j q)
      (Packrat.probe D.second D.c₂ j q) :=
  (h false true (by simp)).recover

end Twin
end Packrat
