import Packrat.Proofs.Plain.Answer

/-!
# `Packrat.Proofs.Memory.Table` — what tables remember

A table is *sound* for a text when every outcome in it is the answer under its key. Using a table, adding an
answer to it and forgetting whatever there is in it keep it sound, so it makes no difference which outcomes a
table of limited size gives up, and when.

## Contents

* `Memo.Holds` — the outcomes a table may give under a key;
* `Memo.Sound` and its lifecycle: `sound_clear`, `Sound.find?`, `Sound.insert`;
* `addOutcome`, `remember_of_isOn` — an attempt where outcomes are remembered.
-/

namespace Packrat

/-! ## What a table holds -/

namespace Memo

/-- A table has an outcome under a key. -/
def Holds : Memo → MemoKey → Step → Prop
  | .off, _, _ => False
  | .all entries, key, step => entries[key]? = some step
  | .limited _ _ entries, key, step => (key, step) ∈ entries

theorem not_holds_clear (m : Memo) (key : MemoKey) (step : Step) : ¬ m.clear.Holds key step := by
  cases m <;> simp [clear, Holds]

theorem not_holds_ofStrategy (strategy : Memoization) (key : MemoKey) (step : Step) :
    ¬ (ofStrategy strategy).Holds key step := by
  rcases strategy with _ | ((_ | _ | n)) | _ <;> simp [ofStrategy, Holds]

/-- A table of limited size keeps what it had, or the outcome it was used for. -/
theorem mem_touch {retention : Retention} {uses : Nat} {key key' : MemoKey} {step step' : Step}
    {entries : List (MemoKey × Step)} (h : (key', step') ∈ touch retention uses key step entries) :
    (key' = key ∧ step' = step) ∨ (key', step') ∈ entries := by
  have hsub := retention.keep_subset _ _ h
  rcases List.mem_cons.mp hsub with heq | hmem
  · exact Or.inl (Prod.ext_iff.mp heq)
  · exact Or.inr (List.mem_of_mem_filter hmem)

theorem holds_of_find? {m : Memo} {key : MemoKey} {step : Step} (h : (m.find? key).1 = some step) :
    m.Holds key step := by
  cases m with
  | off => simp [find?] at h
  | all entries => exact h
  | limited retention uses entries =>
    cases hl : entries.lookup key with
    | none => simp [find?, hl] at h
    | some found =>
      obtain rfl : found = step := by simpa [find?, hl] using h
      obtain ⟨before, after, hsplit, -⟩ := List.lookup_eq_some_iff.mp hl
      show (key, found) ∈ entries
      rw [hsplit]
      simp

theorem holds_of_holds_find? {m : Memo} {key key' : MemoKey} {step : Step}
    (h : (m.find? key).2.Holds key' step) : m.Holds key' step := by
  cases m with
  | off => exact h
  | all entries => exact h
  | limited retention uses entries =>
    cases hl : entries.lookup key with
    | none => simpa [find?, hl] using h
    | some found =>
      simp only [find?, hl] at h
      -- a hit is used anew; the table may give up other outcomes for it
      rcases mem_touch h with ⟨rfl, rfl⟩ | hmem
      · exact holds_of_find? (m := .limited retention uses entries) (by simp [find?, hl])
      · exact hmem

theorem holds_insert {m : Memo} {key key' : MemoKey} {step step' : Step}
    (h : (m.insert key step).Holds key' step') : (key' = key ∧ step' = step) ∨ m.Holds key' step' := by
  cases m with
  | off => exact Or.inr h
  | all entries =>
    have h : (entries.insert key step)[key']? = some step' := h
    rw [Std.HashMap.getElem?_insert] at h
    split at h
    · next hkey => exact Or.inl ⟨(eq_of_beq hkey).symm, (Option.some.inj h).symm⟩
    · exact Or.inr h
  | limited retention uses entries => exact mem_touch h

/-! ## Soundness -/

/-- Every outcome that a table may give on a text is the answer under its key. -/
def Sound (g : Grammar) (t : Text) (m : Memo) : Prop :=
  ∀ key step, m.Holds key step → g.Settles t key (.ok step)

variable {g : Grammar} {t : Text} {m : Memo}

theorem sound_clear (g : Grammar) (t : Text) (m : Memo) : m.clear.Sound g t :=
  fun key step h => absurd h (not_holds_clear m key step)

theorem sound_ofStrategy (g : Grammar) (t : Text) (strategy : Memoization) : (ofStrategy strategy).Sound g t :=
  fun key step h => absurd h (not_holds_ofStrategy strategy key step)

/-- A table may only give the answer under a key. -/
theorem Sound.find?_eq (h : m.Sound g t) {key : MemoKey} {step : Step} (hstep : (m.find? key).1 = some step)
    {o : Answer} (ho : g.Settles t key o) : o = .ok step :=
  ho.unique (h key step (holds_of_find? hstep))

theorem Sound.find? (h : m.Sound g t) (key : MemoKey) : (m.find? key).2.Sound g t :=
  fun key' step' hstep => h key' step' (holds_of_holds_find? hstep)

theorem Sound.insert (h : m.Sound g t) {key : MemoKey} {step : Step} (hstep : g.Settles t key (.ok step)) :
    (m.insert key step).Sound g t := by
  intro key' step' h'
  rcases holds_insert h' with ⟨rfl, rfl⟩ | hmem
  · exact hstep
  · exact h key' step' hmem

end Memo

/-! ## Attempts where outcomes are remembered -/

/-- Counts a use of the table. -/
def State.consulted (s : State) (key : MemoKey) : State :=
  let (found, memo) := s.memo.find? key
  { s with
    memo
    metrics := if found.isSome then { s.metrics with hits := s.metrics.hits + 1 }
      else { s.metrics with misses := s.metrics.misses + 1 } }

/-- Adds the outcome of a run to the table it leaves; a halt is not remembered. -/
def addOutcome (key : MemoKey) : EStateM.Result Halt State Step → EStateM.Result Halt State Step
  | .ok step s => .ok step { s with memo := s.memo.insert key step }
  | .error e s => .error e s

/-- Where outcomes are remembered, an attempt gives the outcome under its key, or is performed and its outcome
added. -/
theorem remember_of_isOn {s : State} (h : s.memo.isOn = true) (a : Attempt) (c : Context) (i : ExprId) (p : Nat)
    (acts skips : Bool) :
    let key := c.key i p acts (skips && !c.adjacent)
    remember a c i p acts skips s =
      match (s.memo.find? key).1 with
      | some step => .ok step (s.counted.consulted key)
      | none => addOutcome key (perform a c i p acts (skips && !c.adjacent) (s.counted.consulted key)) := by
  show (if (!s.memo.isOn) = true then _ else _ : MatchM Step) s.counted = _
  rw [h]
  simp only [Bool.not_true, Bool.false_eq_true, if_false]
  show EStateM.bind (consult _) _ s.counted = _
  simp only [EStateM.bind, consult, State.consulted, show s.counted.memo = s.memo from rfl, Context.key]
  rcases s.memo.find? ⟨i, p, acts, skips && !c.adjacent, c.adjacent⟩ with ⟨found, memo⟩
  cases found with
  | some step => rfl
  | none =>
    show EStateM.bind (perform a c i p acts (skips && !c.adjacent)) _ _ = _
    unfold EStateM.bind
    dsimp only
    generalize perform a c i p acts (skips && !c.adjacent) _ = res
    cases res <;> rfl

end Packrat
