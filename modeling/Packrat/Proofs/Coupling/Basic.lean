import Mathlib.Tactic
import Packrat.Matching.Attempt

/-!
# `Packrat.Proofs.Coupling.Basic` — two runs side by side

Most laws of the matcher compare two runs: with and without memory, with and without actions, with more and
with less room for nesting. A `Coupling` says how: which contexts and states belong together, which nodes are
attempted, and how much the outcomes have in common. Its laws are what a run may do on its own — write into
the journal, count, start afresh when it looks behind — so that `Linked` runs stay linked.

## Contents

* `Step.Alike` — outcomes that agree on everything, or on everything but results;
* `Coupling` — how two runs are compared;
* `Coupling.Linked` — computations that agree from related states on, and how they compose;
* `Coupling.Agrees` — attempts that agree on all related contexts.
-/

namespace Packrat

/-! ## Outcomes -/

/-- Whether a halt is a committed failure, the only kind that some nodes turn into an ordinary one. -/
def Halt.isCommitted : Halt → Bool
  | .committed _ => true
  | _ => false

/-- Whether a halt says that attempts nest too deeply, beyond a limit or without end. -/
def Halt.isTooDeep : Halt → Bool
  | .recursionLimit _ _ | .endless => true
  | _ => false

/-- Two outcomes agree, with their results when `exact`, else up to their results. -/
def Step.Alike (exact : Bool) : Step → Step → Prop
  | .matched stop r, .matched stop' r' => stop = stop' ∧ (exact = true → r = r')
  | .failed d, .failed d' => d = d'
  | _, _ => False

namespace Step

theorem Alike.refl (exact : Bool) (a : Step) : a.Alike exact a := by
  cases a with
  | matched stop r => exact ⟨rfl, fun _ => rfl⟩
  | failed d => rfl

theorem alike_true {a b : Step} (h : a.Alike true b) : a = b := by
  cases a <;> cases b <;> simp_all [Alike]

/-- Outcomes that agree are two matches up to the same end, or one failure. -/
theorem Alike.cases {exact : Bool} {a b : Step} (h : a.Alike exact b) :
    (∃ stop r r', a = .matched stop r ∧ b = .matched stop r' ∧ (exact = true → r = r'))
      ∨ ∃ d, a = .failed d ∧ b = .failed d := by
  cases a <;> cases b <;> simp_all [Alike]

theorem Alike.mapResults {exact : Bool} {a b : Step} (f : Results → Results) (h : a.Alike exact b) :
    (a.mapResults f).Alike exact (b.mapResults f) := by
  rcases h.cases with ⟨stop, r, r', rfl, rfl, hr⟩ | ⟨d, rfl, rfl⟩
  · exact ⟨rfl, fun he => by rw [hr he]⟩
  · rfl

@[simp] theorem mapResults_matched (f : Results → Results) (stop : Nat) (r : Results) :
    (Step.matched stop r).mapResults f = .matched stop (f r) := rfl

@[simp] theorem mapResults_failed (f : Results → Results) (d : Diagnostic) :
    (Step.failed d).mapResults f = .failed d := rfl

end Step

/-! ## States -/

/-- Two states remember the same outcomes and seeds and count the same rounds of growth and the same outcomes that
were not remembered. They differ at most in the journal and in the other counts, which no attempt reads. -/
structure State.SameTables (s s' : State) : Prop where
  memo : s.memo = s'.memo
  seeds : s.seeds = s'.seeds
  growths : s.metrics.growths = s'.metrics.growths
  misses : s.metrics.misses = s'.metrics.misses

theorem State.SameTables.refl (s : State) : s.SameTables s := ⟨rfl, rfl, rfl, rfl⟩

/-! ## Nodes and what they attempt -/

/-- An action that never refuses a match. -/
def Action.Accepts (action : Action) : Prop := ∀ c r, ∃ r', (action.run c r).outcome = .ok r'

/-- The children attempted on the text and in the region of the node itself: all but the child of a combined
region, and the one looked for behind the position. -/
def NodeKind.within : NodeKind → List ExprId
  | .combine _ _ | .precededBy _ _ => []
  | k => k.children

theorem NodeKind.Wraps.mem_within {k : NodeKind} {inner : ExprId} (h : k.Wraps inner) : inner ∈ k.within := by
  cases h <;> simp [NodeKind.within, NodeKind.children]

/-- The children on the text of the node that are attempted in such a way that their committed failures count as
ordinary ones. -/
def NodeKind.recovering : NodeKind → List ExprId
  | .lookahead c | .notAhead c => [c]
  | .repetition _ _ _ stop => stop.toList
  | .skipTo target _ failOn => target :: failOn.toList
  | _ => []

/-- Two contexts of attempts on one grammar and text, both inside a combined region or both outside. -/
structure Context.Alike (g : Grammar) (c₁ c₂ : Context) : Prop where
  grammar₁ : c₁.grammar = g
  grammar₂ : c₂.grammar = g
  text : c₁.text = c₂.text
  adjacent : c₁.adjacent = c₂.adjacent

/-! ## Couplings -/

/-- How two runs are compared. The *world* is what both runs take for given as long as they stay on one text,
such as what remembered outcomes are about. -/
structure Coupling (g : Grammar) where
  World : Type
  /-- Whether results must be the same, and actions run in both runs or in neither. -/
  exact : Bool
  /-- Whether nothing is asked of the second run once the first nests too deeply. -/
  deep₁ : Bool := true
  /-- Whether nothing is asked of the first run once the second nests too deeply. -/
  deep₂ : Bool := false
  state : World → State → State → Prop
  contexts : World → Context → Context → Prop
  /-- The nodes attempted inside or outside a combined region, and where committed failures are recovered from
  or not. -/
  nodes : (adjacent recovering : Bool) → ExprId → Prop := fun _ _ _ => True
  state_congr : ∀ {w s₁ s₂ s₁' s₂'}, state w s₁ s₂ → s₁'.SameTables s₁ → s₂'.SameTables s₂ → state w s₁' s₂'
  alike : ∀ {w c₁ c₂}, contexts w c₁ c₂ → Context.Alike g c₁ c₂
  combined : ∀ {w c₁ c₂}, contexts w c₁ c₂ → contexts w c₁.combined c₂.combined
  behind : ∀ {w c₁ c₂}, contexts w c₁ c₂ → ∀ p, ∃ w', contexts w' (c₁.behind p) (c₂.behind p) ∧
    state w' (State.initial c₁.config) (State.initial c₂.config)
  nodes_within : ∀ {b r i j}, nodes b r i → j ∈ (g.rule i).kind.within → nodes b r j := by
    intros; trivial
  nodes_recovering : ∀ {b r i j}, nodes b r i → j ∈ (g.rule i).kind.recovering ++ (g.rule i).ignores →
    nodes b true j := by
    intros; trivial
  nodes_combined : ∀ {b r i j joiner}, nodes b r i → (g.rule i).kind = .combine j joiner → nodes true r j := by
    intros; trivial
  nodes_behind : ∀ {b r i j retreat}, nodes b r i → (g.rule i).kind = .precededBy j retreat →
    nodes false true j := by
    intros; trivial

namespace Coupling

variable {g : Grammar} (K : Coupling g) {α β γ δ : Type}

/-- The first run nests too deeply, and need not agree with the second. -/
def Deep₁ (h : Halt) : Prop := K.deep₁ = true ∧ h.isTooDeep = true

/-- The second run nests too deeply, and need not agree with the first. -/
def Deep₂ (h : Halt) : Prop := K.deep₂ = true ∧ h.isTooDeep = true

/-- The ends of two runs agree: both give values related by `V` and leave related states, or both halt alike.
After a halt the states matter only where someone recovers from it, and runs that nest too deeply may be excused. -/
def Agree (w : K.World) (recovering : Bool) (V : α → β → Prop) :
    EStateM.Result Halt State α → EStateM.Result Halt State β → Prop
  | .ok a s₁, .ok b s₂ => V a b ∧ K.state w s₁ s₂
  | .error h₁ s₁, .error h₂ s₂ =>
    K.Deep₁ h₁ ∨ K.Deep₂ h₂ ∨ (h₁ = h₂ ∧ (recovering = true → h₁.isCommitted = true → K.state w s₁ s₂))
  | .error h₁ _, .ok _ _ => K.Deep₁ h₁
  | .ok _ _, .error h₂ _ => K.Deep₂ h₂

/-- Two computations agree from any related states on. -/
def Linked (w : K.World) (recovering : Bool) (V : α → β → Prop) (m₁ : MatchM α) (m₂ : MatchM β) : Prop :=
  ∀ s₁ s₂, K.state w s₁ s₂ → K.Agree w recovering V (m₁ s₁) (m₂ s₂)

variable {K} {w : K.World} {r : Bool} {V : α → β → Prop} {W : γ → δ → Prop}

theorem agree_of_deep₁ {h : Halt} {s : State} {res : EStateM.Result Halt State β} (hd : K.Deep₁ h) :
    K.Agree w r V (.error h s) res := by
  cases res with
  | ok b s' => exact hd
  | error h' s' => exact Or.inl hd

theorem agree_of_deep₂ {h : Halt} {s : State} {res : EStateM.Result Halt State α} (hd : K.Deep₂ h) :
    K.Agree w r V res (.error h s) := by
  cases res with
  | ok a s' => exact hd
  | error h' s' => exact Or.inr (Or.inl hd)

/-- Whatever the second run, it agrees with one that nests too deeply. -/
theorem agree_of_isTooDeep {h : Halt} {s : State} {res : EStateM.Result Halt State β} (hw : h.isTooDeep = true)
    (hdeep : K.deep₁ = true := by rfl) : K.Agree w r V (.error h s) res :=
  agree_of_deep₁ ⟨hdeep, hw⟩

/-- Runs agree in four ways: one of them nests too deeply, both halt alike, or both give related values. -/
theorem Agree.cases_all {x : EStateM.Result Halt State α} {y : EStateM.Result Halt State β}
    (h : K.Agree w r V x y) :
    (∃ e s, K.Deep₁ e ∧ x = .error e s) ∨ (∃ e s, K.Deep₂ e ∧ y = .error e s) ∨
      (∃ e s s', x = .error e s ∧ y = .error e s' ∧ (r = true → e.isCommitted = true → K.state w s s')) ∨
      ∃ a b s s', x = .ok a s ∧ y = .ok b s' ∧ V a b ∧ K.state w s s' := by
  cases x with
  | ok a s =>
    cases y with
    | ok b s' => exact Or.inr (Or.inr (Or.inr ⟨a, b, s, s', rfl, rfl, h⟩))
    | error e s' => exact Or.inr (Or.inl ⟨e, s', h, rfl⟩)
  | error e s =>
    cases y with
    | ok b s' => exact Or.inl ⟨e, s, h, rfl⟩
    | error e' s' =>
      rcases h with h | h | ⟨rfl, hstate⟩
      · exact Or.inl ⟨e, s, h, rfl⟩
      · exact Or.inr (Or.inl ⟨e', s', h, rfl⟩)
      · exact Or.inr (Or.inr (Or.inl ⟨e, s, s', rfl, rfl, hstate⟩))

/-- Where the second run is not excused, runs agree in three ways: the first nests too deeply, both halt alike, or
both give related values. -/
theorem Agree.cases {x : EStateM.Result Halt State α} {y : EStateM.Result Halt State β} (h : K.Agree w r V x y)
    (hdeep : K.deep₂ = false := by rfl) :
    (∃ e s, e.isTooDeep = true ∧ x = .error e s) ∨
      (∃ e s s', x = .error e s ∧ y = .error e s' ∧ (r = true → e.isCommitted = true → K.state w s s')) ∨
      ∃ a b s s', x = .ok a s ∧ y = .ok b s' ∧ V a b ∧ K.state w s s' := by
  rcases h.cases_all with ⟨e, s, he, hx⟩ | ⟨e, s, he, -⟩ | h
  · exact Or.inl ⟨e, s, he.2, hx⟩
  · exact absurd he.1 (by simp [hdeep])
  · exact Or.inr h

theorem Linked.pure {a : α} {b : β} (h : V a b) : K.Linked w r V (pure a) (pure b) :=
  fun _ _ hs => ⟨h, hs⟩

theorem Linked.halt (h : Halt) : K.Linked w r V (MatchM.halt h) (MatchM.halt h) :=
  fun _ _ hs => Or.inr (Or.inr ⟨rfl, fun _ _ => hs⟩)

theorem Linked.bind {m₁ : MatchM α} {m₂ : MatchM β} {f₁ : α → MatchM γ} {f₂ : β → MatchM δ}
    (hm : K.Linked w r V m₁ m₂) (hf : ∀ a b, V a b → K.Linked w r W (f₁ a) (f₂ b)) :
    K.Linked w r W (m₁ >>= f₁) (m₂ >>= f₂) := by
  intro s₁ s₂ hs
  show K.Agree w r W (EStateM.bind m₁ f₁ s₁) (EStateM.bind m₂ f₂ s₂)
  unfold EStateM.bind
  rcases (hm s₁ s₂ hs).cases_all with
    ⟨e, s₁', he, h₁⟩ | ⟨e, s₂', he, h₂⟩ | ⟨e, s₁', s₂', h₁, h₂, hstate⟩ | ⟨a, b, s₁', s₂', h₁, h₂, hab, hs'⟩
  · rw [h₁]
    exact agree_of_deep₁ he
  · rw [h₂]
    exact agree_of_deep₂ he
  · rw [h₁, h₂]
    exact Or.inr (Or.inr ⟨rfl, hstate⟩)
  · rw [h₁, h₂]
    exact hf a b hab s₁' s₂' hs'

/-- Runs that only write into the journal or count stay related. -/
theorem Linked.of_sameTables {m₁ m₂ : MatchM Unit}
    (h₁ : ∀ s, ∃ s', m₁ s = .ok () s' ∧ s'.SameTables s)
    (h₂ : ∀ s, ∃ s', m₂ s = .ok () s' ∧ s'.SameTables s) :
    K.Linked w r (fun _ _ => True) m₁ m₂ := by
  intro s₁ s₂ hs
  obtain ⟨s₁', e₁, t₁⟩ := h₁ s₁
  obtain ⟨s₂', e₂, t₂⟩ := h₂ s₂
  rw [e₁, e₂]
  exact ⟨trivial, K.state_congr hs t₁ t₂⟩

/-- Runs linked where committed failures are recovered from stay linked after the recovery. -/
theorem Linked.recover {m₁ m₂ : MatchM Step} (hm : K.Linked w true (Step.Alike K.exact) m₁ m₂) :
    K.Linked w r (Step.Alike K.exact) (MatchM.recover m₁) (MatchM.recover m₂) := by
  intro s₁ s₂ hs
  unfold MatchM.recover
  rcases (hm s₁ s₂ hs).cases_all with
    ⟨e, s₁', he, h₁⟩ | ⟨e, s₂', he, h₂⟩ | ⟨e, s₁', s₂', h₁, h₂, hstate⟩ | ⟨a, b, s₁', s₂', h₁, h₂, hab, hs'⟩
  · rw [h₁]
    cases e with
    | committed d => exact absurd he.2 Bool.false_ne_true
    | _ => exact agree_of_deep₁ he
  · rw [h₂]
    cases e with
    | committed d => exact absurd he.2 Bool.false_ne_true
    | _ => exact agree_of_deep₂ he
  · rw [h₁, h₂]
    cases e with
    -- a committed failure becomes an ordinary one, so from here on the states matter
    | committed d => exact ⟨rfl, hstate rfl rfl⟩
    | _ => exact Or.inr (Or.inr ⟨rfl, fun _ hc => absurd hc (by simp [Halt.isCommitted])⟩)
  · rw [h₁, h₂]
    exact ⟨hab, hs'⟩

variable (K)

/-- Two kinds of attempts agree on all related contexts, at every node, position and flag. -/
def Agrees (a₁ a₂ : Attempt) : Prop :=
  ∀ ⦃w c₁ c₂ r i p acts₁ acts₂ skips⦄, K.contexts w c₁ c₂ → K.nodes c₁.adjacent r i →
    (K.exact = true → acts₁ = acts₂) →
    K.Linked w r (Step.Alike K.exact) (a₁ c₁ i p acts₁ skips) (a₂ c₂ i p acts₂ skips)

end Coupling
end Packrat
