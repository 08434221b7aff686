import Packrat.Proofs.Coupling.Nodes

/-!
# `Packrat.Proofs.Plain.Nesting` — room for nested attempts

The limit of nesting and the fuel bound the same thing. What is left of both is the *room* of an attempt:
without room it halts, with room it is answered one level deeper, where there is one less.

## Contents

* `Context.room` — the room of attempts in a context;
* `attemptWithin_succ`, `attemptWithin_of_room_zero`, `attemptWithin_of_room_succ` — an attempt, by its room;
* `remember_linked`, `remember_off` — attempts where nothing is remembered;
* `Coupling.linked_of_room` — two attempts, by what they are one level deeper.
-/

namespace Packrat

/-! ## Room -/

/-- How many attempts may nest in a context, by the fuel and by the limit. -/
def Context.room (fuel : Nat) (c : Context) : Nat :=
  match c.config.recursionLimit with
  | some limit => min fuel (limit - c.depth)
  | none => fuel

namespace Context

variable (fuel : Nat) (c : Context)

theorem room_deeper {limit : Nat} (h : c.config.recursionLimit = some limit) :
    c.deeper.room fuel = min fuel (limit - (c.depth + 1)) := by
  simp [room, deeper, h]

end Context

/-- An attempt halts at the limit of nesting, or else is answered one level deeper. -/
theorem attemptWithin_succ (n : Nat) (c : Context) (i : ExprId) (p : Nat) (acts skips : Bool) :
    (∃ limit ∈ c.config.recursionLimit, limit ≤ c.depth ∧
        attemptWithin (n + 1) c i p acts skips = MatchM.halt (.recursionLimit limit p)) ∨
      attemptWithin (n + 1) c i p acts skips = remember (attemptWithin n) c.deeper i p acts skips := by
  rw [attemptWithin]
  cases c.config.recursionLimit with
  | none => exact Or.inr rfl
  | some limit =>
    by_cases h : limit ≤ c.depth
    · exact Or.inl ⟨limit, rfl, h, if_pos h⟩
    · exact Or.inr (if_neg h)

/-- Without room an attempt halts at once. -/
theorem attemptWithin_of_room_zero {n : Nat} {c : Context} (h : c.room n = 0) (i : ExprId) (p : Nat)
    (acts skips : Bool) :
    ∃ e : Halt, e.isTooDeep = true ∧ attemptWithin n c i p acts skips = MatchM.halt e := by
  cases n with
  -- out of fuel, or else at the limit
  | zero => exact ⟨.endless, rfl, rfl⟩
  | succ n =>
    unfold Context.room at h
    cases hl : c.config.recursionLimit with
    | none =>
      rw [hl] at h
      exact absurd h (by simp)
    | some limit =>
      rw [hl] at h
      refine ⟨.recursionLimit limit p, rfl, ?_⟩
      have hle : limit ≤ c.depth := by simp at h; omega
      rw [attemptWithin, hl]
      exact if_pos hle

/-- With room an attempt is answered one level deeper, where there is one less. -/
theorem attemptWithin_of_room_succ {n k : Nat} {c : Context} (h : c.room n = k + 1) :
    ∃ m, c.deeper.room m = k ∧
      ∀ i p acts skips, attemptWithin n c i p acts skips = remember (attemptWithin m) c.deeper i p acts skips := by
  cases n with
  | zero =>
    unfold Context.room at h
    split at h <;> simp at h
  | succ n =>
    refine ⟨n, ?_, ?_⟩
    · unfold Context.room at h
      cases hl : c.config.recursionLimit with
      | none =>
        rw [hl] at h
        simpa [Context.room, Context.deeper, hl] using h
      | some limit =>
        rw [hl] at h
        rw [Context.room_deeper n c hl]
        simp only at h
        omega
    · intro i p acts skips
      rcases attemptWithin_succ n c i p acts skips with ⟨limit, hl, hle, -⟩ | heq
      · rw [Context.room, Option.mem_def.mp hl] at h
        simp only at h
        omega
      · exact heq

/-- At the top, where nothing nests yet, the room is the limit of nesting, or the fuel when there is none. -/
theorem room_top (g : Grammar) (config : Config) (watch : Watch) (t : Text) :
    (Context.top g config watch t).room (attemptFuel (Context.top g config watch t))
      = config.recursionLimit.getD (nestingBound g t) := by
  simp only [Context.room, attemptFuel, Context.top]
  cases config.recursionLimit with
  | none => rfl
  | some limit => simp

/-! ## Skipping inside a combined region -/

theorem remember_skips (a : Attempt) (c : Context) (i : ExprId) (p : Nat) (acts skips : Bool) :
    remember a c i p acts (skips && !c.adjacent) = remember a c i p acts skips := by
  simp only [remember, Bool.and_assoc, Bool.and_self]

/-- Nothing skips inside a combined region, whether asked to or not. -/
theorem attemptWithin_skips (n : Nat) (c : Context) (i : ExprId) (p : Nat) (acts skips : Bool) :
    attemptWithin n c i p acts (skips && !c.adjacent) = attemptWithin n c i p acts skips := by
  cases n with
  | zero => rfl
  | succ n =>
    have h := remember_skips (attemptWithin n) c.deeper i p acts skips
    have hadj : c.deeper.adjacent = c.adjacent := rfl
    rw [hadj] at h
    simp only [attemptWithin, h]

/-! ## Where nothing is remembered -/

/-- One more attempt in the metrics. -/
def State.counted (s : State) : State := { s with metrics := { s.metrics with attempts := s.metrics.attempts + 1 } }

theorem State.counted_sameTables (s : State) : s.counted.SameTables s := ⟨rfl, rfl, rfl, rfl⟩

theorem Memo.eq_off {m : Memo} (h : m.isOn = false) : m = .off := by
  cases m with
  | off => rfl
  | all | limited => exact absurd h (by simp [isOn])

/-- Where nothing is remembered an attempt is performed. -/
theorem remember_off {s : State} (h : s.memo = .off) (a : Attempt) (c : Context) (i : ExprId) (p : Nat)
    (acts skips : Bool) :
    remember a c i p acts skips s = perform a c i p acts (skips && !c.adjacent) s.counted := by
  have hoff : s.memo.isOn = false := by rw [h]; rfl
  show (if (!s.memo.isOn) = true then _ else _ : MatchM Step) s.counted = _
  rw [hoff]
  rfl

/-- Attempts are linked where neither run remembers anything and their performance is linked. -/
theorem Coupling.remember_linked {g : Grammar} {K : Coupling g} {w : K.World} {r : Bool} {a₁ a₂ : Attempt}
    {c₁ c₂ : Context} (hoff : ∀ s₁ s₂, K.state w s₁ s₂ → s₁.memo = .off ∧ s₂.memo = .off)
    (hc : K.contexts w c₁ c₂) {i : ExprId} {p : Nat} {acts₁ acts₂ : Bool} (skips : Bool)
    (hperform : ∀ skips, K.Linked w r (Step.Alike K.exact) (perform a₁ c₁ i p acts₁ skips)
      (perform a₂ c₂ i p acts₂ skips)) :
    K.Linked w r (Step.Alike K.exact) (remember a₁ c₁ i p acts₁ skips) (remember a₂ c₂ i p acts₂ skips) := by
  intro s₁ s₂ hs
  obtain ⟨h₁, h₂⟩ := hoff s₁ s₂ hs
  rw [remember_off h₁, remember_off h₂, ← (K.alike hc).adjacent]
  exact hperform _ _ _ (K.state_congr hs s₁.counted_sameTables s₂.counted_sameTables)

/-! ## One level deeper -/

theorem Context.Alike.deeper {g : Grammar} {c₁ c₂ : Context} (h : Context.Alike g c₁ c₂) :
    Context.Alike g c₁.deeper c₂.deeper :=
  ⟨h.grammar₁, h.grammar₂, h.text, h.adjacent⟩

/-- Where the first run has at most the room `k` and the second at least that, attempts are linked if they are
one level deeper. Without room the first one nests too deeply, and nothing is asked of the second. -/
theorem Coupling.linked_of_room {g : Grammar} {K : Coupling g} {w : K.World} {r : Bool} {V : Step → Step → Prop}
    {n m k : Nat} {c₁ c₂ : Context} {i : ExprId} {p : Nat} {acts₁ acts₂ skips : Bool} (h₁ : c₁.room n ≤ k)
    (h₂ : k ≤ c₂.room m)
    (hdeeper : ∀ {n' m' k'}, k = k' + 1 → c₁.deeper.room n' ≤ k' → k' ≤ c₂.deeper.room m' →
      attemptWithin n c₁ i p acts₁ skips = remember (attemptWithin n') c₁.deeper i p acts₁ skips →
      K.Linked w r V (attemptWithin n c₁ i p acts₁ skips)
        (remember (attemptWithin m') c₂.deeper i p acts₂ skips))
    (hdeep : K.deep₁ = true := by rfl) :
    K.Linked w r V (attemptWithin n c₁ i p acts₁ skips) (attemptWithin m c₂ i p acts₂ skips) := by
  cases hk₁ : c₁.room n with
  | zero =>
    intro s₁ s₂ hs
    obtain ⟨e, he, h⟩ := attemptWithin_of_room_zero hk₁ i p acts₁ skips
    rw [h]
    exact agree_of_isTooDeep he hdeep
  | succ k₁ =>
    obtain ⟨k', rfl⟩ : ∃ k', k = k' + 1 := ⟨k - 1, by omega⟩
    obtain ⟨k₂, hk₂⟩ : ∃ k₂, c₂.room m = k₂ + 1 := ⟨c₂.room m - 1, by omega⟩
    obtain ⟨n', hn', e₁⟩ := attemptWithin_of_room_succ hk₁
    obtain ⟨m', hm', e₂⟩ := attemptWithin_of_room_succ hk₂
    rw [e₂]
    exact hdeeper rfl (by omega) (by omega) (e₁ i p acts₁ skips)

end Packrat
