import Packrat.Proofs.Plain.Agreement

/-!
# `Packrat.Proofs.Plain.Answer` — what attempts answer

What a plain attempt comes to is a function of its key and of the room it has. An attempt that nests too deeply
has no answer; once there is room enough for one, more room does not change it.

## Contents

* `Answer`, `Grammar.answer?` — the answer under a key, given some room;
* `answerOf?_attemptWithin` — every plain attempt gives that answer;
* `Grammar.Settles` — **the** answer under a key;
* `answer?_probe` — actions that accept change nothing but results.
-/

namespace Packrat

/-! ## Answers -/

/-- What an attempt comes to. -/
abbrev Answer := Except Halt Step

/-- Two answers agree, with their results when `exact`. -/
def Answer.Alike (exact : Bool) : Answer → Answer → Prop
  | .ok a, .ok b => a.Alike exact b
  | .error h, .error h' => h = h'
  | _, _ => False

theorem Answer.alike_true {a b : Answer} (h : a.Alike true b) : a = b := by
  cases a with
  | ok x =>
    cases b with
    | ok y => exact congrArg Except.ok (Step.alike_true h)
    | error e => exact absurd h id
  | error e =>
    cases b with
    | ok y => exact absurd h id
    | error e' => exact congrArg Except.error h

theorem Answer.Alike.error_eq {exact : Bool} {e : Halt} {b : Answer} (h : Answer.Alike exact (.error e) b) :
    b = .error e := by
  cases b with
  | ok y => exact absurd h id
  | error e' => exact congrArg Except.error (Eq.symm h)

theorem Answer.Alike.ok_eq {exact : Bool} {x : Step} {b : Answer} (h : Answer.Alike exact (.ok x) b) :
    ∃ y, b = .ok y ∧ x.Alike exact y := by
  cases b with
  | ok y => exact ⟨y, rfl, h⟩
  | error e' => exact absurd h id

/-- The answer of a run; none when attempts nest too deeply in it. -/
def answerOf? : EStateM.Result Halt State Step → Option Answer
  | .ok step _ => some (.ok step)
  | .error h _ => if h.isTooDeep then none else some (.error h)

@[simp] theorem answerOf?_ok (step : Step) (s : State) : answerOf? (.ok step s) = some (.ok step) := rfl

theorem answerOf?_error {h : Halt} (hh : h.isTooDeep = false) (s : State) :
    answerOf? (.error h s) = some (.error h) := by
  rw [answerOf?, hh]
  rfl

theorem answerOf?_tooDeep {h : Halt} (hh : h.isTooDeep = true) (s : State) : answerOf? (.error h s) = none := by
  rw [answerOf?, hh]
  rfl

theorem answerOf?_eq_ok {res : EStateM.Result Halt State Step} {step : Step}
    (h : answerOf? res = some (.ok step)) : ∃ s, res = .ok step s := by
  cases res with
  | ok x s =>
    obtain rfl : x = step := by simpa using h
    exact ⟨s, rfl⟩
  | error e s =>
    cases he : e.isTooDeep with
    | true => rw [answerOf?_tooDeep he] at h; exact absurd h (by simp)
    | false => rw [answerOf?_error he] at h; exact absurd h (by simp)

theorem answerOf?_eq_error {res : EStateM.Result Halt State Step} {e : Halt}
    (h : answerOf? res = some (.error e)) : e.isTooDeep = false ∧ ∃ s, res = .error e s := by
  cases res with
  | ok x s => simp at h
  | error e' s =>
    cases he : e'.isTooDeep with
    | true => rw [answerOf?_tooDeep he] at h; exact absurd h (by simp)
    | false =>
      obtain rfl : e' = e := by simpa [answerOf?_error he] using h
      exact ⟨he, s, rfl⟩

/-- When two runs agree and the first has an answer, so has the second. -/
theorem Coupling.Agree.answer {g : Grammar} {K : Coupling g} {w : K.World} {r : Bool}
    {x y : EStateM.Result Halt State Step} (h : K.Agree w r (Step.Alike K.exact) x y) {o : Answer}
    (ho : answerOf? x = some o) (hunexcused : K.deep₂ = false := by rfl) :
    ∃ o', answerOf? y = some o' ∧ o.Alike K.exact o' := by
  rcases h.cases hunexcused with ⟨e, s, he, rfl⟩ | ⟨e, s, s', rfl, rfl, -⟩ | ⟨a, b, s, s', rfl, rfl, hab, -⟩
  · rw [answerOf?_tooDeep he] at ho
    exact absurd ho (by simp)
  · cases he : e.isTooDeep with
    | true =>
      rw [answerOf?_tooDeep he] at ho
      exact absurd ho (by simp)
    | false =>
      obtain rfl : Except.error e = o := by simpa [answerOf?_error he] using ho
      exact ⟨.error e, answerOf?_error he s', rfl⟩
  · obtain rfl : Except.ok a = o := by simpa using ho
    exact ⟨.ok b, rfl, hab⟩

/-- When two runs agree exactly, the second ends as the first answers. -/
theorem Coupling.Agree.ends {g : Grammar} {K : Coupling g} {w : K.World} {r : Bool}
    {x y : EStateM.Result Halt State Step} (h : K.Agree w r (Step.Alike true) x y) {o : Answer}
    (ho : answerOf? x = some o) (hunexcused : K.deep₂ = false := by rfl) :
    (∃ e s', o = .error e ∧ y = .error e s') ∨
      ∃ step s s', o = .ok step ∧ x = .ok step s ∧ y = .ok step s' ∧ K.state w s s' := by
  rcases h.cases hunexcused with ⟨e, s, he, rfl⟩ | ⟨e, s, s', rfl, rfl, -⟩ | ⟨a, b, s, s', rfl, rfl, hab, hs⟩
  · rw [answerOf?_tooDeep he] at ho
    exact absurd ho (by simp)
  · cases he : e.isTooDeep with
    | true =>
      rw [answerOf?_tooDeep he] at ho
      exact absurd ho (by simp)
    | false =>
      obtain rfl : Except.error e = o := by simpa [answerOf?_error he] using ho
      exact Or.inl ⟨e, s', rfl, rfl⟩
  · obtain rfl : Except.ok a = o := by simpa using ho
    obtain rfl : a = b := Step.alike_true hab
    exact Or.inr ⟨a, s, s', rfl, rfl, rfl, hs⟩

/-- A run without an answer agrees with any other. -/
theorem Coupling.agree_of_answer_none {g : Grammar} {K : Coupling g} {w : K.World} {r : Bool} {β : Type}
    {V : Step → β → Prop} {x : EStateM.Result Halt State Step} {y : EStateM.Result Halt State β}
    (hx : answerOf? x = none) (hdeep : K.deep₁ = true := by rfl) : K.Agree w r V x y := by
  cases x with
  | ok step s => exact absurd hx (by simp)
  | error e s =>
    cases he : e.isTooDeep with
    | true => exact Coupling.agree_of_isTooDeep he hdeep
    | false => rw [answerOf?_error he] at hx; exact absurd hx (by simp)

/-! ## The answer under a key -/

/-- A plain context without limits. -/
def plainContext (g : Grammar) (t : Text) (adjacent : Bool) : Context :=
  ⟨g, { recursionLimit := none }, t, default, 0, adjacent⟩

/-- The answer of a plain attempt under a key, given room for nesting. -/
def Grammar.answer? (g : Grammar) (t : Text) (room : Nat) (key : MemoKey) : Option Answer :=
  answerOf? (attemptWithin room (plainContext g t key.adjacent) key.id key.position key.acts key.skips
    (State.initial {}))

namespace Context

/-- The key of an attempt in a context. -/
def key (c : Context) (i : ExprId) (p : Nat) (acts skips : Bool) : MemoKey := ⟨i, p, acts, skips, c.adjacent⟩

end Context

section Plain

variable {g : Grammar} {c : Context} (hg : c.grammar = g) (hc : c.IsPlain) {s : State} (hs : s.memo = .off)
  (n : Nat) (i : ExprId) (p : Nat) (acts skips : Bool)

/-- Attempts in two plain contexts are linked, if there is at least as much room in the second. -/
theorem plain_linked {n m k : Nat} {c₁ c₂ : Context} (h : Coupling.PlainPair g n m k c₁ c₂) :
    (Coupling.plain g true (fun _ => True) (Grammar.Closed.all g) n m k).Linked () false (Step.Alike true)
      (attemptWithin n c₁ i p acts skips) (attemptWithin m c₂ i p acts skips) :=
  Coupling.plain_agrees (Grammar.Closed.all g) (by simp) n m k h trivial fun _ => rfl

include hg hc hs

/-- A plain run leaves nothing remembered. -/
theorem memo_attemptWithin {step : Step} {s' : State} (h : attemptWithin n c i p acts skips s = .ok step s') :
    s'.memo = .off := by
  have hlinked := plain_linked i p acts skips (n := n) (m := n) (k := c.room n)
    ⟨⟨hg, hg, rfl, rfl⟩, hc, hc, le_refl _, le_refl _⟩ s s ⟨hs, hs⟩
  rw [h] at hlinked
  exact hlinked.2.1

/-- A plain attempt gives the answer under its key, whatever the state. -/
theorem answerOf?_attemptWithin :
    answerOf? (attemptWithin n c i p acts skips s) = g.answer? c.text (c.room n) (c.key i p acts skips) := by
  let c' := plainContext g c.text c.adjacent
  have hpair : Coupling.PlainPair g n (c.room n) (c.room n) c c' :=
    ⟨⟨hg, rfl, rfl, rfl⟩, hc, rfl, le_refl _, le_refl _⟩
  have hpair' : Coupling.PlainPair g (c.room n) n (c.room n) c' c :=
    ⟨⟨rfl, hg, rfl, rfl⟩, rfl, hc, le_refl _, le_refl _⟩
  -- the rooms are equal, so either run has an answer when the other has one
  have h₁ := plain_linked i p acts skips hpair s (State.initial {}) ⟨hs, rfl⟩
  have h₂ := plain_linked i p acts skips hpair' (State.initial {}) s ⟨rfl, hs⟩
  refine Option.ext fun o => ⟨?_, ?_⟩
  · intro ho
    obtain ⟨o', ho', halike⟩ := h₁.answer ho
    rw [Answer.alike_true halike]
    exact ho'
  · intro ho
    obtain ⟨o', ho', halike⟩ := h₂.answer ho
    rw [Answer.alike_true halike]
    exact ho'

end Plain

namespace Grammar

variable {g : Grammar} {t : Text} {k k' : Nat} {key : MemoKey} {o o' : Answer}

/-- Without room there is no answer. -/
@[simp] theorem answer?_zero (g : Grammar) (t : Text) (key : MemoKey) : g.answer? t 0 key = none := rfl

/-- More room does not change an answer. -/
theorem answer?_of_le (h : k ≤ k') (ho : g.answer? t k key = some o) : g.answer? t k' key = some o := by
  have hpair : Coupling.PlainPair g k k' k (plainContext g t key.adjacent) (plainContext g t key.adjacent) :=
    ⟨⟨rfl, rfl, rfl, rfl⟩, rfl, rfl, le_refl _, h⟩
  have hlinked := plain_linked key.id key.position key.acts key.skips hpair (State.initial {}) (State.initial {})
    ⟨rfl, rfl⟩
  obtain ⟨o', ho', halike⟩ := hlinked.answer ho
  rw [Answer.alike_true halike]
  exact ho'

/-- Where no action refuses a match, the answer with actions and the one without agree up to results, and one of
them exists where the other does. -/
theorem answer?_probe {N : ExprId → Prop} (hN : g.Closed N) (haccepting : g.Accepting N) (hkey : N key.id)
    (acts : Bool) (ho : g.answer? t k key = some o) :
    ∃ o', g.answer? t k { key with acts } = some o' ∧ o.Alike false o' := by
  have hpair : Coupling.PlainPair g k k k (plainContext g t key.adjacent) (plainContext g t key.adjacent) :=
    ⟨⟨rfl, rfl, rfl, rfl⟩, rfl, rfl, le_refl _, le_refl _⟩
  have hlinked : (Coupling.plain g false N hN k k k).Linked () false (Step.Alike false)
      (attemptWithin k (plainContext g t key.adjacent) key.id key.position key.acts key.skips)
      (attemptWithin k (plainContext g t key.adjacent) key.id key.position acts key.skips) :=
    Coupling.plain_agrees hN (fun _ => haccepting) k k k hpair hkey (by simp)
  exact (hlinked (State.initial {}) (State.initial {}) ⟨rfl, rfl⟩).answer ho

/-- **The answer under a key**: the one of every attempt with room enough. -/
def Settles (g : Grammar) (t : Text) (key : MemoKey) (o : Answer) : Prop := ∃ k, g.answer? t k key = some o

theorem Settles.unique (h : g.Settles t key o) (h' : g.Settles t key o') : o = o' := by
  obtain ⟨k, hk⟩ := h
  obtain ⟨k', hk'⟩ := h'
  have h₁ := answer?_of_le (Nat.le_max_left k k') hk
  have h₂ := answer?_of_le (Nat.le_max_right k k') hk'
  exact Option.some.inj (h₁.symm.trans h₂)

/-- Inside a combined region it makes no difference whether an attempt is to skip. -/
theorem answer?_skips (g : Grammar) (t : Text) (k : Nat) (i : ExprId) (p : Nat) (acts skips adjacent : Bool) :
    g.answer? t k ⟨i, p, acts, skips && !adjacent, adjacent⟩ = g.answer? t k ⟨i, p, acts, skips, adjacent⟩ := by
  have h := attemptWithin_skips k (plainContext g t adjacent) i p acts skips
  exact congrArg (fun m : MatchM Step => answerOf? (m (State.initial {}))) h

end Grammar
end Packrat
