import Packrat.Proofs.Plain.Agreement
import Packrat.Proofs.Placement.Boundary

/-!
# `Packrat.Proofs.Translation.Moved` — runs on a text, and on the text after a front

A text may stand after another one, its front. The places of the text are then moved by the size of the front, and
everything that a matcher asks of a place and the text from there on has the same answer, moved as far. Two plain runs,
one on the text and one on the whole, are *moved* when they end in the same way up to this.

## Contents

* `Text.rest_append_add`, … — what is asked of a place, after a front;
* `Step.shift`, `Halt.shift` — outcomes, moved;
* `Move` — a text and its front, and `Move.Pair` — contexts on the text and on the whole;
* `Move.Moved` — **moved runs**, and how they compose.
-/

namespace Packrat

/-! ## A text after a front -/

namespace Text

variable (u t : Text) (p q : Nat)

theorem rest_append_add : (u ++ t).rest (u.size + p) = t.rest p := by rw [rest, drop?_append_add, rest]

theorem charAt?_append_add : (u ++ t).charAt? (u.size + p) = t.charAt? p := by rw [charAt?, rest_append_add, charAt?]

theorem next_append_add : (u ++ t).next (u.size + p) = u.size + t.next p := by
  rw [next, charAt?_append_add, next]
  cases t.charAt? p with
  | none => exact Nat.add_assoc _ _ _
  | some c => exact Nat.add_assoc _ _ _

theorem skip_append_add (set : Char → Bool) : (u ++ t).skip set (u.size + p) = u.size + t.skip set p := by
  rw [skip, rest_append_add, skip, Nat.add_assoc]

theorem slice_append_add : (u ++ t).slice (u.size + p) (u.size + q) = t.slice p q := by
  rw [slice, slice?, drop?_append_add, Nat.add_sub_add_left, slice, slice?]
  simp only [Nat.add_le_add_iff_left]

end Text

/-! ## Outcomes, moved -/

/-- The failure at a place moved by a distance. -/
def Diagnostic.shift (n : Nat) (d : Diagnostic) : Diagnostic := { d with position := n + d.position }

/-- The outcome with its place moved by a distance. -/
def Step.shift (n : Nat) : Step → Step
  | .matched stop r => .matched (n + stop) r
  | .failed d => .failed (d.shift n)

/-- The halt with its place moved by a distance, if it has one. -/
def Halt.shift (n : Nat) : Halt → Halt
  | .committed d => .committed (d.shift n)
  | .recursionLimit limit p => .recursionLimit limit (n + p)
  | .growthLimit name p limit => .growthLimit name (n + p) limit
  | .action p cause => .action (n + p) cause
  | .unboundForward label => .unboundForward label
  | .outOfRange => .outOfRange
  | .endless => .endless

@[simp] theorem Diagnostic.shift_zero (d : Diagnostic) : d.shift 0 = d := by rw [shift, Nat.zero_add]

@[simp] theorem Step.shift_zero (step : Step) : step.shift 0 = step := by
  cases step <;> simp [shift]

@[simp] theorem Halt.shift_zero (h : Halt) : h.shift 0 = h := by
  cases h <;> simp [shift]

theorem furthestOf_shift (n : Nat) (best : Option Diagnostic) (d : Diagnostic) :
    furthestOf (best.map (·.shift n)) (d.shift n) = (furthestOf best d).map (·.shift n) := by
  cases best with
  | none => rfl
  | some b =>
    simp only [furthestOf, Diagnostic.furthest, Option.map_some, Diagnostic.shift, Nat.add_lt_add_iff_left]
    split <;> rfl

theorem choiceFailure_shift (n : Nat) (best : Option Diagnostic) (start : Nat) (rule : Rule) :
    choiceFailure (best.map (·.shift n)) (n + start) rule = (choiceFailure best start rule).shift n := by
  cases best with
  | none => rfl
  | some b =>
    simp only [choiceFailure, Option.map_some, Diagnostic.shift, Nat.add_lt_add_iff_left]
    split <;> rfl

theorem matchToken_shift (u t : Text) {rule : Rule}
    (h : ∀ text caseless chars, rule.kind ≠ .keyword text caseless chars) (p : Nat) :
    matchToken rule (u ++ t) (u.size + p) = (matchToken rule t p).shift u.size := by
  unfold matchToken
  rw [Text.rest_append_add]
  cases hk : rule.kind with
  | keyword text caseless chars => exact absurd hk (h text caseless chars)
  | literal text caseless =>
    dsimp only
    cases matchLiteral? caseless text.toList (t.rest p) with
    | none => rfl
    | some n => simp only [Step.shift, Nat.add_assoc]
  | word init body min max =>
    dsimp only
    cases wordAt? init body min max (t.rest p) with
    | none => rfl
    | some token => simp only [Option.map_some, Option.getD_some, tokenStep, Step.shift, Nat.add_assoc]
  | charsNotIn excluded min max =>
    dsimp only
    cases excludedAt? excluded min max (t.rest p) with
    | none => rfl
    | some token => simp only [Option.map_some, Option.getD_some, tokenStep, Step.shift, Nat.add_assoc]
  | pattern source compiled =>
    dsimp only
    cases compiled.find? (t.rest p) with
    | none => rfl
    | some m => simp only [Step.shift, Nat.add_assoc]
  | _ => rfl

/-- The tests of the end of the text and of a line, after a front. -/
theorem testPosition_shift (u t : Text) {rule : Rule} (h : rule.kind = .stringEnd ∨ rule.kind = .lineEnd) (p : Nat) :
    testPosition rule (u ++ t) (u.size + p) = (testPosition rule t p).shift u.size := by
  rcases h with hk | hk
  · simp only [testPosition, hk, Text.size_append, Nat.add_le_add_iff_left]
    split <;> rfl
  · simp only [testPosition, hk, Text.charAt?_append_add]
    split
    · rfl
    · split <;> rfl

/-! ## Moved runs -/

/-- A text, its front, and the limit of nesting under which both are matched. -/
structure Move where
  front : Text
  text : Text
  limit : Option Nat

namespace Move

/-- How far the places of the text are moved. -/
def distance (M : Move) : Nat := M.front.size

/-- The whole text. -/
def whole (M : Move) : Text := M.front ++ M.text

/-- Plain contexts on the text and on the whole, at one depth. -/
structure Pair (M : Move) (g : Grammar) (c₁ c₂ : Context) : Prop where
  grammar₁ : c₁.grammar = g
  grammar₂ : c₂.grammar = g
  text₁ : c₁.text = M.text
  text₂ : c₂.text = M.whole
  adjacent : c₁.adjacent = c₂.adjacent
  depth : c₁.depth = c₂.depth
  limit₁ : c₁.config.recursionLimit = M.limit
  limit₂ : c₂.config.recursionLimit = M.limit
  plain₁ : c₁.IsPlain
  plain₂ : c₂.IsPlain

namespace Pair

variable {M : Move} {g : Grammar} {c₁ c₂ : Context} (h : M.Pair g c₁ c₂)
include h

theorem deeper : M.Pair g c₁.deeper c₂.deeper :=
  ⟨h.grammar₁, h.grammar₂, h.text₁, h.text₂, h.adjacent, congrArg (· + 1) h.depth, h.limit₁, h.limit₂, h.plain₁,
    h.plain₂⟩

theorem combined : M.Pair g c₁.combined c₂.combined :=
  ⟨h.grammar₁, h.grammar₂, h.text₁, h.text₂, rfl, h.depth, h.limit₁, h.limit₂, h.plain₁, h.plain₂⟩

theorem rule₁ : c₁.rule = g.rule := by
  rw [← h.grammar₁]
  rfl

theorem rule₂ : c₂.rule = g.rule := by
  rw [← h.grammar₂]
  rfl

theorem slice (p q : Nat) : c₂.text.slice (M.distance + p) (M.distance + q) = c₁.text.slice p q := by
  rw [h.text₁, h.text₂, whole, distance, Text.slice_append_add]

theorem size₂ : c₂.text.size = M.distance + M.text.size := by rw [h.text₂, whole, Text.size_append, distance]

end Pair

/-- Places of the text at or after one of them, and the same places of the whole. -/
inductive Places (M : Move) (p : Nat) : Nat → Nat → Prop
  | intro {q : Nat} (h : Sites.places.From M.text p q) : Places M p q (M.distance + q)

/-- Outcomes of an attempt at a place of the text, and the same outcomes on the whole. -/
inductive Steps (M : Move) (p : Nat) : Step → Step → Prop
  | matched {stop : Nat} (h : Sites.places.From M.text p stop) (r : Results) :
    Steps M p (.matched stop r) (.matched (M.distance + stop) r)
  | failed (d : Diagnostic) : Steps M p (.failed d) (.failed (d.shift M.distance))

theorem Steps.of_holds {M : Move} {p : Nat} {step : Step} (h : Sites.places.Holds M.text p step) :
    M.Steps p step (step.shift M.distance) := by
  cases step with
  | matched stop r => exact .matched h r
  | failed d => exact .failed d

theorem Steps.mono {M : Move} {p p' : Nat} {a b : Step} (h : M.Steps p' a b) (hp : p ≤ p') : M.Steps p a b := by
  cases h with
  | matched hstop r => exact .matched (hstop.mono hp) r
  | failed d => exact .failed d

theorem Steps.mapResults {M : Move} {p : Nat} {a b : Step} (h : M.Steps p a b) (f : Results → Results) :
    M.Steps p (a.mapResults f) (b.mapResults f) := by
  cases h with
  | matched hstop r => exact .matched hstop (f r)
  | failed d => exact .failed d

/-- Ends of two plain runs, on the text and on the whole: with related values, or with the same halt, moved. The limit
of nesting is not exceeded where there is none. -/
inductive Ends (M : Move) {α β : Type} (V : α → β → Prop) :
    EStateM.Result Halt State α → EStateM.Result Halt State β → Prop
  | ok {a : α} {b : β} {s s' : State} (hvalue : V a b) (hs : s.memo = .off) (hs' : s'.memo = .off) :
    Ends M V (.ok a s) (.ok b s')
  | error {h : Halt} {s s' : State} (hlimit : ∀ limit q, h = .recursionLimit limit q → M.limit = some limit)
    (hs : s.memo = .off) (hs' : s'.memo = .off) : Ends M V (.error h s) (.error (h.shift M.distance) s')

/-- Runs that end in the same way both come to values, or both halt. -/
theorem Ends.cases {M : Move} {α β : Type} {V : α → β → Prop} {x : EStateM.Result Halt State α}
    {y : EStateM.Result Halt State β} (h : M.Ends V x y) :
    (∃ a b s s', x = .ok a s ∧ y = .ok b s' ∧ V a b ∧ s.memo = .off) ∨
      ∃ h s s', x = .error h s ∧ y = .error (h.shift M.distance) s' ∧
        (∀ limit q, h = .recursionLimit limit q → M.limit = some limit) ∧ s.memo = .off := by
  cases h with
  | ok hvalue hs hs' => exact Or.inl ⟨_, _, _, _, rfl, rfl, hvalue, hs⟩
  | error hlimit hs hs' => exact Or.inr ⟨_, _, _, rfl, rfl, hlimit, hs⟩

/-- Plain runs on the text and on the whole that end in the same way, from all states in which nothing is
remembered. -/
def Moved (M : Move) {α β : Type} (V : α → β → Prop) (m₁ : MatchM α) (m₂ : MatchM β) : Prop :=
  ∀ s₁ s₂ : State, s₁.memo = .off → s₂.memo = .off → M.Ends V (m₁ s₁) (m₂ s₂)

/-- Attempts at the places of the text that are moved on the whole. -/
def Agrees (M : Move) (g : Grammar) (a₁ a₂ : Attempt) : Prop :=
  ∀ ⦃c₁ c₂⦄, M.Pair g c₁ c₂ → ∀ (i : ExprId) ⦃p : Nat⦄, M.text.IsBoundary p → ∀ acts skips : Bool,
    M.Moved (M.Steps p) (a₁ c₁ i p acts skips) (a₂ c₂ i (M.distance + p) acts skips)

namespace Moved

variable {M : Move} {α β γ δ : Type} {V V' : α → β → Prop} {W : γ → δ → Prop} {m₁ : MatchM α} {m₂ : MatchM β}

protected theorem pure {a : α} {b : β} (h : V a b) : M.Moved V (pure a) (pure b) := fun _ _ hs hs' => .ok h hs hs'

theorem halt {h : Halt} (hlimit : ∀ limit q, h = .recursionLimit limit q → M.limit = some limit) :
    M.Moved V (MatchM.halt h) (MatchM.halt (h.shift M.distance)) :=
  fun _ _ hs hs' => .error hlimit hs hs'

protected theorem bind {f₁ : α → MatchM γ} {f₂ : β → MatchM δ} (hm : M.Moved V m₁ m₂)
    (hf : ∀ a b, V a b → M.Moved W (f₁ a) (f₂ b)) : M.Moved W (m₁ >>= f₁) (m₂ >>= f₂) := by
  intro s₁ s₂ hs₁ hs₂
  have h := hm s₁ s₂ hs₁ hs₂
  show M.Ends W (EStateM.bind m₁ f₁ s₁) (EStateM.bind m₂ f₂ s₂)
  unfold EStateM.bind
  generalize m₁ s₁ = x at h
  generalize m₂ s₂ = y at h
  cases h with
  | ok hvalue hs hs' => exact hf _ _ hvalue _ _ hs hs'
  | error hlimit hs hs' => exact .error hlimit hs hs'

theorem mono (hm : M.Moved V m₁ m₂) (hV : ∀ a b, V a b → V' a b) : M.Moved V' m₁ m₂ := by
  intro s₁ s₂ hs₁ hs₂
  have h := hm s₁ s₂ hs₁ hs₂
  generalize m₁ s₁ = x at h
  generalize m₂ s₂ = y at h
  cases h with
  | ok hvalue hs hs' => exact .ok (hV _ _ hvalue) hs hs'
  | error hlimit hs hs' => exact .error hlimit hs hs'

/-- What only writes into the journal or counts is moved. -/
theorem unit {m₁ m₂ : MatchM Unit} (h₁ : ∀ s, ∃ s', m₁ s = .ok () s' ∧ s'.SameTables s)
    (h₂ : ∀ s, ∃ s', m₂ s = .ok () s' ∧ s'.SameTables s) : M.Moved (fun _ _ => True) m₁ m₂ := by
  intro s₁ s₂ hs₁ hs₂
  obtain ⟨s₁', e₁, hsame₁⟩ := h₁ s₁
  obtain ⟨s₂', e₂, hsame₂⟩ := h₂ s₂
  rw [e₁, e₂]
  exact .ok trivial (hsame₁.memo.trans hs₁) (hsame₂.memo.trans hs₂)

variable {p : Nat} {m₁ m₂ : MatchM Step}

theorem recover (hm : M.Moved (M.Steps p) m₁ m₂) :
    M.Moved (M.Steps p) (MatchM.recover m₁) (MatchM.recover m₂) := by
  intro s₁ s₂ hs₁ hs₂
  have h := hm s₁ s₂ hs₁ hs₂
  unfold MatchM.recover
  generalize m₁ s₁ = x at h
  generalize m₂ s₂ = y at h
  cases h with
  | ok hvalue hs hs' => exact .ok hvalue hs hs'
  | @error h s s' hlimit hs hs' =>
    cases h with
    | committed d => exact .ok (.failed d) hs hs'
    | _ => exact .error hlimit hs hs'

/-- What follows an attempt is moved when it is after a match and after a failure. -/
theorem step {f₁ : Step → MatchM γ} {f₂ : Step → MatchM δ} (hm : M.Moved (M.Steps p) m₁ m₂)
    (hmatched : ∀ stop r, Sites.places.From M.text p stop →
      M.Moved W (f₁ (.matched stop r)) (f₂ (.matched (M.distance + stop) r)))
    (hfailed : ∀ d, M.Moved W (f₁ (.failed d)) (f₂ (.failed (d.shift M.distance)))) :
    M.Moved W (m₁ >>= f₁) (m₂ >>= f₂) := by
  refine hm.bind ?_
  intro a b hab
  cases hab with
  | matched hstop r => exact hmatched _ r hstop
  | failed d => exact hfailed d

end Moved

end Move
end Packrat
