import Packrat.Proofs.Coupling.Runs
import Packrat.Proofs.Memory.Adequacy
import Packrat.Proofs.Plain.Course

/-!
# `Packrat.Proofs.Memory.Course` — attempts without actions predict those with them

Many ways of matching attempt a node without actions first, and rely on the attempt with actions to go the same way.
Where no action refuses a match it does, with one exception: an outcome without actions may be remembered from a place
where there was more room for nesting, or take none at all, and then the attempt with actions, which is not remembered
yet, may nest too deeply.

## Contents

* `State.Reached` — the states in which attempts are made;
* `probe_predicts_run` — **attempts with and without actions take one course**;
* `not_sameCourse_remembered` — not at the limit of nesting, where outcomes are remembered.
-/

namespace Packrat

/-- The states in which attempts on a text are made where forwards grow no seeds: at the beginning nothing is
remembered, and from there on attempts are made at places of the text, one after the other, whose committed failures
may be recovered from. Journal and counts may be anything. -/
inductive State.Reached (g : Grammar) (t : Text) : State → Prop
  | initial (config : Config) : Reached g t (State.initial config)
  | forget (s : State) : Reached g t s.forget
  | congr {s s' : State} : Reached g t s → s'.memo = s.memo → s'.seeds = s.seeds → Reached g t s'
  | made {s s' : State} {c : Context} {n : Nat} {i : ExprId} {p : Nat} {acts skips : Bool} {step : Step} :
    Reached g t s → c.grammar = g → c.text = t → c.config.memoization ≠ .leftRecursion → t.IsBoundary p →
      attemptWithin n c i p acts skips s = .ok step s' → Reached g t s'
  | recovered {s s' : State} {c : Context} {n : Nat} {i : ExprId} {p : Nat} {acts skips : Bool} {d : Diagnostic} :
    Reached g t s → c.grammar = g → c.text = t → c.config.memoization ≠ .leftRecursion → t.IsBoundary p →
      attemptWithin n c i p acts skips s = .error (.committed d) s' → Reached g t s'

/-- The tables of such states hold answers. -/
theorem State.Reached.truthful {g : Grammar} {t : Text} {s : State} (h : s.Reached g t) : s.Truthful g t := by
  induction h with
  | initial config => exact State.Truthful.initial g t config
  | forget s => exact State.Truthful.forget g t s s.journal
  | congr _ hmemo hseeds ih =>
    exact ⟨hmemo ▸ ih.sound, fun key step h => ih.placed.memo key step (hmemo ▸ h),
      fun key step h => ih.placed.seeds key step (hseeds ▸ h)⟩
  | @made s s' c n i p acts skips step _ hg ht hc hp hrun ih =>
    subst ht
    have h := attemptWithin_adequate hg hc n i hp acts skips ih
    rw [hrun] at h
    exact h.2
  | @recovered s s' c n i p acts skips d _ hg ht hc hp hrun ih =>
    subst ht
    have h := attemptWithin_adequate hg hc n i hp acts skips ih
    rw [hrun] at h
    exact h.2 rfl

/-- Runs whose answers agree up to results take one course. -/
theorem sameCourse_of_answers {x y : EStateM.Result Halt State Step} {o o' : Answer} (hx : answerOf? x = some o)
    (hy : answerOf? y = some o') (h : o.Alike false o') : SameCourse x y := by
  cases o with
  | ok a =>
    obtain ⟨b, rfl, hab⟩ := h.ok_eq
    obtain ⟨s, rfl⟩ := answerOf?_eq_ok hx
    obtain ⟨s', rfl⟩ := answerOf?_eq_ok hy
    exact .ended hab s s'
  | error e =>
    obtain rfl := h.error_eq
    obtain ⟨-, s, rfl⟩ := answerOf?_eq_error hx
    obtain ⟨-, s', rfl⟩ := answerOf?_eq_error hy
    exact .halted e s s'

/-- A run has no answer exactly if it nests too deeply. -/
theorem nestsTooDeeply_iff {x : EStateM.Result Halt State Step} : NestsTooDeeply x ↔ (answerOf? x).isNone := by
  constructor
  · rintro ⟨e, s, rfl, he⟩
    rw [answerOf?_tooDeep he]
    rfl
  · intro h
    cases x with
    | ok step s => exact absurd h Bool.false_ne_true
    | error e s =>
      refine ⟨e, s, rfl, ?_⟩
      cases he : e.isTooDeep with
      | true => rfl
      | false =>
        rw [answerOf?_error he] at h
        exact absurd h Bool.false_ne_true

/-- Runs that take one course have answers together. -/
theorem SameCourse.isNone_eq {x y : EStateM.Result Halt State Step} (h : SameCourse x y) :
    (answerOf? x).isNone = (answerOf? y).isNone := by
  cases h with
  | ended _ _ _ => rfl
  | halted e s s' => rw [answerOf?, answerOf?]

/-- **Attempts with and without actions take one course** where no action refuses a match. Without memory they match
up to the same end, fail with the same message at the same position, or halt alike. With memory, whatever is
remembered and however much, they do unless one of them nests too deeply. -/
theorem probe_predicts_run {g : Grammar} (haccepting : g.Accepting fun _ => True) {c : Context} (hg : c.grammar = g)
    (n : Nat) (i : ExprId) (p : Nat) (skips : Bool) (s s' : State) :
    (c.config.memoization = .disabled → s.memo = .off → s'.memo = .off →
      SameCourse (attemptWithin n c i p true skips s) (attemptWithin n c i p false skips s')) ∧
    ∀ capacity, c.config.memoization = .packrat capacity → c.text.IsBoundary p → s.Reached g c.text →
      s'.Reached g c.text →
        NestsTooDeeply (attemptWithin n c i p true skips s) ∨ NestsTooDeeply (attemptWithin n c i p false skips s') ∨
          SameCourse (attemptWithin n c i p true skips s) (attemptWithin n c i p false skips s') := by
  constructor
  · intro hc hs hs'
    exact sameCourse_of_plain (Grammar.Closed.all g) haccepting hg hc trivial n p skips hs hs'
  · intro capacity hc hp hs hs'
    have hseedless : c.config.memoization ≠ .leftRecursion := by simp [hc]
    cases hx : answerOf? (attemptWithin n c i p true skips s) with
    | none => exact Or.inl (nestsTooDeeply_iff.mpr (by rw [hx]; rfl))
    | some o =>
      cases hy : answerOf? (attemptWithin n c i p false skips s') with
      | none => exact Or.inr (Or.inl (nestsTooDeeply_iff.mpr (by rw [hy]; rfl)))
      | some o' =>
        right; right
        obtain ⟨k, hk⟩ := settles_of_answerOf? hg hseedless hp hs.truthful hx
        -- plainly, the attempt without actions has the same answer up to results, and that is what was found
        obtain ⟨o'', ho'', halike⟩ := Grammar.answer?_probe (Grammar.Closed.all g) haccepting trivial false hk
        have hsettles : g.Settles c.text (c.key i p false skips) o'' := ⟨k, ho''⟩
        rw [hsettles.unique (settles_of_answerOf? hg hseedless hp hs'.truthful hy)] at halike
        exact sameCourse_of_answers hx hy halike

/-- Nested groups around a letter: they are tested first, and then compared by a choice one level further down. -/
def nestedGroups : Grammar :=
  Grammar.ofKinds [.literal "a" false, .group 0, .group 1, .notAhead 2, .longestChoice [2], .group 4,
    .orderedChoice [3, 5]] 6

theorem accepting_nestedGroups : nestedGroups.Accepting fun _ => True := by
  intro i child action _ hk
  have hkind := Grammar.kind_ofKinds [.literal "a" false, .group 0, .group 1, .notAhead 2, .longestChoice [2], .group 4,
    .orderedChoice [3, 5]] 6 i
  change (nestedGroups.rule i).kind ∈ _ at hkind
  rw [hk] at hkind
  simp at hkind

theorem probe_predicts_run_nestedGroups :
    let plain := Context.top nestedGroups { memoization := .disabled, recursionLimit := some 5 } default ['a']
    let remembering := Context.top nestedGroups { memoization := .packrat (some 9), recursionLimit := some 6 } default
      ['a']
    let s := State.initial { memoization := .packrat (some 9) }
    SameCourse (attemptWithin 6 plain 6 0 true true (State.initial {}))
        (attemptWithin 6 plain 6 0 false true (State.initial {})) ∧
      SameCourse (attemptWithin 7 remembering 6 0 true true s) (attemptWithin 7 remembering 6 0 false true s) := by
  intro plain remembering s
  have hplain := (probe_predicts_run accepting_nestedGroups (c := plain) rfl 6 6 0 true (State.initial {})
    (State.initial {})).1 rfl rfl rfl
  have hremembering := (probe_predicts_run accepting_nestedGroups (c := remembering) rfl 7 6 0 true s s).2 (some 9) rfl
    (Text.isBoundary_zero _) (.initial _) (.initial _)
  have hx : (answerOf? (attemptWithin 7 remembering 6 0 true true s)).isNone = false := by decide +kernel
  have hy : (answerOf? (attemptWithin 7 remembering 6 0 false true s)).isNone = false := by decide +kernel
  rw [nestsTooDeeply_iff, nestsTooDeeply_iff, hx, hy] at hremembering
  exact ⟨hplain, by simpa using hremembering⟩

/-- At the limit of nesting they do not where outcomes are remembered: the outcome without actions is remembered from
the test and takes no room, and the attempt with actions nests too deeply. -/
theorem not_sameCourse_remembered :
    let config : Config := { memoization := .packrat (some 9), recursionLimit := some 5 }
    let c := Context.top nestedGroups config default ['a']
    (nestedGroups.Accepting fun _ => True) ∧
      ¬ SameCourse (attempt c c 6 0 true true (State.initial config))
        (attempt c c 6 0 false true (State.initial config)) := by
  intro config c
  refine ⟨accepting_nestedGroups, fun h => ?_⟩
  have hx : (answerOf? (attempt c c 6 0 true true (State.initial config))).isNone = true := by decide +kernel
  have hy : (answerOf? (attempt c c 6 0 false true (State.initial config))).isNone = false := by decide +kernel
  rw [h.isNone_eq, hy] at hx
  exact absurd hx Bool.false_ne_true

end Packrat
