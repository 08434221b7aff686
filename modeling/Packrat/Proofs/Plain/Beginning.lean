import Packrat.Proofs.Placement.Nodes
import Packrat.Proofs.Plain.Told
import Packrat.Proofs.Seeds.Rounds

/-!
# `Packrat.Proofs.Plain.Beginning` — where an attempt begins

An attempt first skips what comes before its node, and then matches the node where that has led. So its answer does not
depend on where it was made, but on where it begins. Told attempts leave the state alone, which makes the beginning of a
plain attempt a place, or else a halt, and nothing more.

## Contents

* `Still` — computations that leave the state alone, as told attempts do;
* `Upkeep.told_sound` — told attempts end at sites;
* `skipLeading_still`, `skipLeading_told` — skipping by told attempts, and by plain ones;
* `Rule.skipped`, `Rule.SkipsLike` — what a node skips of its own;
* `Grammar.begins` — where an attempt begins;
* `answer?_of_begins`, `answer?_congr` — **the answer of an attempt, by where it begins**.
-/

namespace Packrat

/-! ## Computations that leave the state alone -/

/-- A computation gives the same value, or halts in the same way, in every state, and leaves the state alone. -/
def Still {α : Type} (m : MatchM α) : Prop := (∃ a, m = pure a) ∨ ∃ e, m = MatchM.halt e

namespace Still

variable {α β : Type} {m : MatchM α}

protected theorem pure (a : α) : Still (pure a : MatchM α) := Or.inl ⟨a, rfl⟩

protected theorem halt (e : Halt) : Still (MatchM.halt e : MatchM α) := Or.inr ⟨e, rfl⟩

protected theorem bind {f : α → MatchM β} (hm : Still m) (hf : ∀ a, Still (f a)) : Still (m >>= f) := by
  rcases hm with ⟨a, rfl⟩ | ⟨e, rfl⟩
  · exact hf a
  · exact .halt e

protected theorem recover {m : MatchM Step} (hm : Still m) : Still (MatchM.recover m) := by
  rcases hm with ⟨a, rfl⟩ | ⟨e, rfl⟩
  · exact .pure a
  · cases e with
    | committed d => exact .pure (Step.failed d)
    | _ => exact .halt _

protected theorem ite {p : Prop} [Decidable p] {m' : MatchM α} (hm : Still m) (hm' : Still m') :
    Still (if p then m else m') := by
  split
  · exact hm
  · exact hm'

/-- What such a computation gives in one state it gives in all. -/
theorem eq_pure (hm : Still m) {a : α} {s s' : State} (h : m s = .ok a s') : m = pure a := by
  rcases hm with ⟨b, rfl⟩ | ⟨e, rfl⟩
  · obtain ⟨rfl, -⟩ : b = a ∧ s = s' := by simpa [pure, EStateM.pure] using h
    rfl
  · exact absurd h (by simp [MatchM.halt])

end Still

theorem pure_inj {α : Type} {a b : α} (h : (pure a : MatchM α) = pure b) : a = b := by
  have hrun : (EStateM.Result.ok a (State.initial {}) : EStateM.Result Halt State α) = .ok b (State.initial {}) :=
    congrFun h (State.initial {})
  exact (EStateM.Result.ok.inj hrun).1

theorem pure_ne_halt {α : Type} {a : α} {e : Halt} : (pure a : MatchM α) ≠ MatchM.halt e := by
  intro h
  have hrun : (EStateM.Result.ok a (State.initial {}) : EStateM.Result Halt State α) = .error e (State.initial {}) :=
    congrFun h (State.initial {})
  exact absurd hrun (by simp)

/-- A told attempt leaves the state alone. -/
theorem told_still (g : Grammar) (k : Nat) (c : Context) (i : ExprId) (p : Nat) (acts skips : Bool) :
    Still (told g k c i p acts skips) := by
  unfold told
  rcases g.answer? c.text k (c.key i p acts skips) with _ | e | step
  · exact .halt .endless
  · exact .halt e
  · exact .pure step

/-- What a told attempt gives is the answer it is told. -/
theorem answer?_of_told {g : Grammar} {k : Nat} {c : Context} {i : ExprId} {p : Nat} {acts skips : Bool} {step : Step}
    (h : told g k c i p acts skips = pure step) :
    g.answer? c.text k (c.key i p acts skips) = some (.ok step) := by
  have hanswer := answerOf?_told g k c i p acts skips (State.initial {})
  rw [h] at hanswer
  exact hanswer.symm

/-- What follows a told attempt has an answer if the attempt is told a halt, or else if it has one after what the attempt
is told. -/
theorem told_bind_cases {g : Grammar} {k : Nat} {c : Context} {i : ExprId} {p : Nat} {acts skips : Bool}
    {f : Step → MatchM Step} {s : State} {o : Answer} (h : answerOf? ((told g k c i p acts skips >>= f) s) = some o) :
    (∃ e, g.answer? c.text k (c.key i p acts skips) = some (.error e) ∧ o = .error e) ∨
      ∃ step, g.answer? c.text k (c.key i p acts skips) = some (.ok step) ∧ answerOf? (f step s) = some o := by
  have htold : told g k c i p acts skips = tell (g.answer? c.text k (c.key i p acts skips)) := rfl
  cases hanswer : g.answer? c.text k (c.key i p acts skips) with
  | none =>
    rw [htold, hanswer] at h
    exact absurd h.symm (Option.some_ne_none o)
  | some part =>
    rw [htold, hanswer] at h
    rcases part with e | step
    · have hrun : answerOf? (.error e s) = some o := h
      rw [answerOf?_error (Grammar.not_tooDeep_of_answer hanswer)] at hrun
      exact Or.inl ⟨e, rfl, (Option.some.inj hrun).symm⟩
    · exact Or.inr ⟨step, rfl, h⟩

/-- A told attempt gives what the attempt settles on, if there is room enough for it. -/
theorem told_of_settles {g : Grammar} {k : Nat} {c : Context} {i : ExprId} {p : Nat} {acts skips : Bool} {step : Step}
    (h : g.Settles c.text (c.key i p acts skips) (.ok step)) :
    told g k c i p acts skips = pure step ∨ told g k c i p acts skips = MatchM.halt .endless := by
  unfold told
  cases hanswer : g.answer? c.text k (c.key i p acts skips) with
  | none => exact Or.inr rfl
  | some o =>
    obtain rfl : o = .ok step := Grammar.Settles.unique ⟨k, hanswer⟩ h
    exact Or.inl rfl

theorem probe_still (g : Grammar) (k : Nat) (c : Context) (i : ExprId) (p : Nat) : Still (probe (told g k) c i p) :=
  (told_still g k c i p false true).recover

/-- What a computation that keeps its tables gives in every state has the property of its values. -/
theorem Keeps.of_pure {α : Type} {S : Sites} {t : Text} {H : Halt → Prop} {P : α → Prop} {m : MatchM α} {a : α}
    (hm : Keeps (State.Placed S t) H P m) (h : m = Pure.pure a) : P a := by
  have hrun := hm (State.initial {}) (State.Placed.initial _ _ _)
  rw [h] at hrun
  exact hrun.1

/-- A told attempt ends where an attempt does. -/
theorem Upkeep.told_sound {g : Grammar} (U : Upkeep g) (k : Nat) : U.Sound (told g k) := by
  intro c i p acts skips hg hi hp s hs
  have hsound : U.Run c p (U.sites.Holds c.text p)
      (attemptWithin k (plainContext g c.text c.adjacent) i p acts skips) :=
    attemptWithin_sound U k (c := plainContext g c.text c.adjacent) rfl hi hp
  have hrun := hsound (State.initial {}) (State.Placed.initial _ _ _)
  have htold : told g k c i p acts skips s = tell (g.answer? c.text k (c.key i p acts skips)) s := rfl
  cases hanswer : g.answer? c.text k (c.key i p acts skips) with
  | none =>
    rw [htold, hanswer]
    exact ⟨(U.tooDeep hp).2, hs⟩
  | some o =>
    cases o with
    | ok step =>
      obtain ⟨s', hend⟩ := answerOf?_eq_ok hanswer
      have hend : attemptWithin k (plainContext g c.text c.adjacent) i p acts skips (State.initial {}) = .ok step s' :=
        hend
      rw [hend] at hrun
      rw [htold, hanswer]
      exact ⟨hrun.1, hs⟩
    | error e =>
      obtain ⟨-, s', hend⟩ := answerOf?_eq_error hanswer
      have hend : attemptWithin k (plainContext g c.text c.adjacent) i p acts skips (State.initial {}) = .error e s' :=
        hend
      rw [hend] at hrun
      rw [htold, hanswer]
      exact ⟨hrun.1, hs⟩

section Skipping

variable (g : Grammar) (k : Nat) (c : Context)

theorem skipOne_still (i : ExprId) (fuel p : Nat) : Still (skipOne (told g k) c i fuel p) := by
  induction fuel generalizing p with
  | zero => exact .pure p
  | succ fuel ih =>
    rw [skipOne]
    refine (probe_still g k c i p).bind fun step => ?_
    cases step with
    | matched stop r => exact .ite (.pure p) (ih stop)
    | failed d => exact .pure p

theorem skipEach_still (ignores : List ExprId) (p : Nat) : Still (skipEach (told g k) c ignores p) := by
  induction ignores generalizing p with
  | nil => exact .pure p
  | cons i ignores ih => exact (skipOne_still g k c i _ p).bind ih

theorem skipRounds_still (ignores : List ExprId) (fuel p : Nat) : Still (skipRounds (told g k) c ignores fuel p) := by
  induction fuel generalizing p with
  | zero => exact .pure p
  | succ fuel ih => exact (skipEach_still g k c ignores p).bind fun after => .ite (.pure p) (ih after)

theorem skipIgnorables_still (ignores : List ExprId) (p : Nat) : Still (skipIgnorables (told g k) c ignores p) :=
  .ite (.pure p) (skipRounds_still g k c ignores _ p)

theorem skipLeading_still (rule : Rule) (p : Nat) : Still (skipLeading (told g k) c rule p) :=
  (skipIgnorables_still g k c rule.ignores p).bind fun _ => .pure _

end Skipping

/-- Skipping leads plain attempts where it leads those that are told the answers with the same room. -/
theorem skipLeading_told {g : Grammar} {c : Context} (hg : c.grammar = g) (hc : c.IsPlain) {s : State}
    (hs : s.memo = .off) (n : Nat) (rule : Rule) (p q : Nat) :
    (∃ s', skipLeading (attemptWithin n) c rule p s = .ok q s') ↔
      skipLeading (told g (c.room n)) (plainContext g c.text c.adjacent) rule p = pure q := by
  let k := c.room n
  let c₀ := plainContext g c.text c.adjacent
  have hignores : ∀ i ∈ rule.ignores, True := fun _ _ => trivial
  -- through plain attempts with as much room, but without a limit
  have hplain {n m : Nat} {c₁ c₂ : Context} (h : Coupling.PlainPair g n m k c₁ c₂) :=
    Coupling.skipLeading_linked (w := ()) (r := false)
      (Coupling.plain_agrees (Grammar.Closed.all g) (by simp : true = false → _) n m k) h hignores p
  have htelling (first : Bool) := Coupling.skipLeading_linked (w := ()) (r := false)
    (Coupling.telling_agrees g first k) (⟨⟨rfl, rfl, rfl, rfl⟩, rfl, rfl, by simp [c₀, plainContext]⟩ :
      Coupling.TellingPair g c₀ c₀) hignores p
  constructor
  · rintro ⟨s', hrun⟩
    have hpair : Coupling.PlainPair g n k k c c₀ := ⟨⟨hg, rfl, rfl, rfl⟩, hc, rfl, le_refl _, le_refl _⟩
    have h := hplain hpair s (State.initial {}) ⟨hs, rfl⟩
    rw [hrun] at h
    rcases h.cases with ⟨e, u, -, he⟩ | ⟨e, u, u', he, -, -⟩ | ⟨a, b, u, u', ha, hb, rfl, hu⟩
    · exact absurd he (by simp)
    · exact absurd he (by simp)
    obtain ⟨rfl, -⟩ : q = a ∧ s' = u := by simpa using ha
    have h := htelling true (State.initial {}) (State.initial {}) rfl
    rw [hb] at h
    rcases h.cases with ⟨e, u, -, he⟩ | ⟨e, u, u', he, -, -⟩ | ⟨a, b, u, u', ha, hb, rfl, hu⟩
    · exact absurd he (by simp)
    · exact absurd he (by simp)
    obtain ⟨rfl, -⟩ := EStateM.Result.ok.inj ha
    exact (skipLeading_still g k c₀ rule p).eq_pure hb
  · intro htold
    have h := htelling false (State.initial {}) (State.initial {}) rfl
    rw [htold] at h
    rcases h.cases_all with ⟨e, u, he, -⟩ | ⟨e, u, -, he⟩ | ⟨e, u, u', -, he, -⟩ | ⟨a, b, u, u', ha, hb, rfl, hu⟩
    · exact absurd he.1 Bool.false_ne_true
    · exact absurd he (by simp [pure, EStateM.pure])
    · exact absurd he (by simp [pure, EStateM.pure])
    obtain ⟨rfl, -⟩ := EStateM.Result.ok.inj hb
    have hpair : Coupling.PlainPair g k n k c₀ c := ⟨⟨rfl, hg, rfl, rfl⟩, rfl, hc, le_refl _, le_refl _⟩
    have h := hplain hpair (State.initial {}) s ⟨rfl, hs⟩
    rw [ha] at h
    rcases h.cases with ⟨e, u, -, he⟩ | ⟨e, u, u', he, -, -⟩ | ⟨a, b, u, u', ha, hb, rfl, hu⟩
    · exact absurd he (by simp)
    · exact absurd he (by simp)
    obtain ⟨rfl, -⟩ := EStateM.Result.ok.inj ha
    exact ⟨_, hb⟩

/-! ## What a node skips -/

/-- The characters a node skips before it. -/
def Rule.skipped (rule : Rule) (ch : Char) : Bool := rule.skipsWhitespace && rule.whitespace.contains ch

/-- Two nodes have the same skipped before them. -/
structure Rule.SkipsLike (rule rule' : Rule) : Prop where
  ignores : rule.ignores = rule'.ignores
  skipped : rule.skipped = rule'.skipped

theorem skip_nothing (t : Text) (p : Nat) : t.skip (fun _ => false) p = p := by
  unfold Text.skip
  cases t.rest p with
  | nil => rfl
  | cons ch rest => rfl

theorem skipLeading_eq_bind (a : Attempt) (c : Context) (rule : Rule) (p : Nat) :
    skipLeading a c rule p = skipIgnorables a c rule.ignores p >>= fun loc => pure (c.text.skip rule.skipped loc) := by
  unfold skipLeading
  cases h : rule.skipsWhitespace with
  | true =>
    have hskipped : rule.skipped = rule.whitespace.contains := by
      funext ch
      rw [Rule.skipped, h, Bool.true_and]
    rw [hskipped]
    rfl
  | false =>
    have hskipped : rule.skipped = fun _ => false := by
      funext ch
      rw [Rule.skipped, h, Bool.false_and]
    simp only [hskipped, skip_nothing]
    rfl

/-- Without ignorables, whitespace is skipped. -/
theorem skipLeading_of_ignores_nil (a : Attempt) (c : Context) {rule : Rule} (h : rule.ignores = []) (p : Nat) :
    skipLeading a c rule p = pure (c.text.skip rule.skipped p) := by
  rw [skipLeading_eq_bind, h]
  rfl

theorem Rule.SkipsLike.skipLeading_eq {rule rule' : Rule} (h : rule.SkipsLike rule') (a : Attempt) (c : Context)
    (p : Nat) : skipLeading a c rule p = skipLeading a c rule' p := by
  rw [skipLeading_eq_bind, skipLeading_eq_bind, h.ignores, h.skipped]

/-! ## Beginnings -/

/-- The answer as that of a node. -/
def Answer.asOf (i : ExprId) (o : Answer) : Answer := o.map (Step.mapResults (ResultsOf.withOrigin i))

/-- Where an attempt of a node begins whose attempts are told their answers. -/
def Grammar.begins (g : Grammar) (t : Text) (k : Nat) (adjacent : Bool) (rule : Rule) (p : Nat) (skips : Bool) :
    MatchM Nat :=
  if (skips && !adjacent) = true then skipLeading (told g k) (plainContext g t adjacent) rule p else pure p

section Begins

variable (g : Grammar) (t : Text) (k : Nat) (adjacent : Bool)

theorem begins_still (rule : Rule) (p : Nat) (skips : Bool) : Still (g.begins t k adjacent rule p skips) :=
  .ite (skipLeading_still g k _ rule p) (.pure p)

theorem begins_of_not_skips (rule : Rule) (p : Nat) : g.begins t k adjacent rule p false = pure p := rfl

theorem Rule.SkipsLike.begins_eq {rule rule' : Rule} (h : rule.SkipsLike rule') (p : Nat) (skips : Bool) :
    g.begins t k adjacent rule p skips = g.begins t k adjacent rule' p skips := by
  rw [Grammar.begins, Grammar.begins, h.skipLeading_eq]

/-- Without ignorables, a node begins past its whitespace. -/
theorem begins_of_ignores_nil {rule : Rule} (h : rule.ignores = []) (p : Nat) (skips : Bool) :
    g.begins t k adjacent rule p skips
      = pure (if (skips && !adjacent) = true then t.skip rule.skipped p else p) := by
  unfold Grammar.begins
  rw [skipLeading_of_ignores_nil _ _ h]
  split <;> rfl

/-- More room does not change where an attempt begins. -/
theorem begins_of_le {k' : Nat} (hle : k ≤ k') {rule : Rule} {p start : Nat} {skips : Bool}
    (h : g.begins t k adjacent rule p skips = pure start) : g.begins t k' adjacent rule p skips = pure start := by
  let c := plainContext g t adjacent
  unfold Grammar.begins at h ⊢
  split at h
  · next hskips =>
    rw [if_pos hskips]
    obtain ⟨s, hrun⟩ := (skipLeading_told (c := c) (s := State.initial {}) rfl rfl rfl k rule p start).mpr h
    have hpair : Coupling.PlainPair g k k' k c c := ⟨⟨rfl, rfl, rfl, rfl⟩, rfl, rfl, le_refl _, hle⟩
    have hlinked := Coupling.skipLeading_linked (w := ()) (r := false)
      (Coupling.plain_agrees (Grammar.Closed.all g) (by simp : true = false → _) k k' k) hpair
      (fun _ _ => trivial : ∀ i ∈ rule.ignores, True) p (State.initial {}) (State.initial {}) ⟨rfl, rfl⟩
    rw [hrun] at hlinked
    refine (skipLeading_told (c := c) (s := State.initial {}) rfl rfl rfl k' rule p start).mp ?_
    rcases hlinked.cases with ⟨e, u, -, he⟩ | ⟨e, u, u', he, -, -⟩ | ⟨a, b, u, u', ha, hb, rfl, -⟩
    · exact absurd he (by simp)
    · exact absurd he (by simp)
    · obtain ⟨rfl, -⟩ := EStateM.Result.ok.inj ha
      exact ⟨u', hb⟩
  · next hskips => rw [if_neg hskips, h]

/-- In a context that no one watches, a node is matched where it begins. -/
theorem perform_plain (a : Attempt) (i : ExprId) (p : Nat) (acts skips : Bool) :
    perform a (plainContext g t adjacent) i p acts skips
      = (if skips = true then skipLeading a (plainContext g t adjacent) (g.rule i) p else pure p) >>= fun start =>
          matchNode a (plainContext g t adjacent) i (g.rule i) start acts >>= fun step =>
            pure (step.mapResults (ResultsOf.withOrigin i)) := by
  cases skips <;> rfl

/-- The answer with room for one attempt more, by where the attempt begins. -/
theorem answer?_succ (i : ExprId) (p : Nat) (acts skips : Bool) (s : State) :
    g.answer? t (k + 1) ⟨i, p, acts, skips, adjacent⟩
      = answerOf? ((g.begins t k adjacent (g.rule i) p skips >>= fun start =>
          matchNode (told g k) (plainContext g t adjacent) i (g.rule i) start acts >>= fun step =>
            pure (step.mapResults (ResultsOf.withOrigin i))) s) := by
  have hperform := answerOf?_perform_told (c := plainContext g t adjacent) rfl (by simp [plainContext]) k i p acts
    skips s
  rw [perform_plain] at hperform
  exact hperform.symm

variable {g t k adjacent} {i : ExprId} {k' p p' start : Nat} {skips skips' : Bool}

/-- **The answer of an attempt that begins at a place** is what matching its node there comes to. -/
theorem answer?_of_begins (h : g.begins t k adjacent (g.rule i) p skips = pure start) (acts : Bool) (s : State) :
    g.answer? t (k + 1) ⟨i, p, acts, skips, adjacent⟩
      = (answerOf? (matchNode (told g k) (plainContext g t adjacent) i (g.rule i) start acts s)).map
        (Answer.asOf i) := by
  rw [answer?_succ g t k adjacent i p acts skips s, h, pure_bind]
  cases hrun : matchNode (told g k) (plainContext g t adjacent) i (g.rule i) start acts s with
  | ok step s' =>
    rw [bind_ok hrun]
    rfl
  | error e s' =>
    rw [bind_error hrun]
    cases he : e.isTooDeep with
    | true =>
      rw [answerOf?_tooDeep he]
      rfl
    | false =>
      rw [answerOf?_error he]
      rfl

/-- An attempt that halts before it begins has that halt for an answer. -/
theorem answer?_of_begins_halt {e : Halt} (h : g.begins t k adjacent (g.rule i) p skips = MatchM.halt e)
    (acts : Bool) :
    g.answer? t (k + 1) ⟨i, p, acts, skips, adjacent⟩ = answerOf? (.error e (State.initial {})) := by
  rw [answer?_succ g t k adjacent i p acts skips (State.initial {}), h]
  rfl

/-- **Attempts that begin at one place have one answer.** -/
theorem answer?_congr
    (h : g.begins t k adjacent (g.rule i) p skips = g.begins t k adjacent (g.rule i) p' skips') (acts : Bool) :
    g.answer? t (k + 1) ⟨i, p, acts, skips, adjacent⟩ = g.answer? t (k + 1) ⟨i, p', acts, skips', adjacent⟩ := by
  rw [answer?_succ g t k adjacent i p acts skips (State.initial {}),
    answer?_succ g t k adjacent i p' acts skips' (State.initial {}), h]

/-- Attempts that begin at one place, given room enough, settle alike. -/
theorem Grammar.Settles.congr
    (h : ∀ k ≥ k', g.begins t k adjacent (g.rule i) p skips = g.begins t k adjacent (g.rule i) p' skips') {acts : Bool}
    {o : Answer} (ho : g.Settles t ⟨i, p, acts, skips, adjacent⟩ o) :
    g.Settles t ⟨i, p', acts, skips', adjacent⟩ o := by
  obtain ⟨k, hk⟩ := ho
  have hroom : g.answer? t (max k k' + 1) ⟨i, p, acts, skips, adjacent⟩ = some o :=
    Grammar.answer?_of_le (by omega) hk
  exact ⟨max k k' + 1, (answer?_congr (h _ (Nat.le_max_right k k')) acts).symm.trans hroom⟩

end Begins
end Packrat
