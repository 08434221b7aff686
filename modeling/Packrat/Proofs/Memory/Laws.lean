import Packrat.Proofs.Dispatch.Assembled

/-!
# `Packrat.Proofs.Memory.Laws` — laws of outcomes

A law that every outcome obeys that comes of performing an attempt, whatever comes of the attempts it makes, is obeyed by
every outcome that is remembered, and so by every outcome of an attempt: outcomes are only remembered under the key of the
attempt that they come of.

## Contents

* `Memo.Obeys` — tables whose outcomes obey a law;
* `Grammar.Lawful` — laws that performing an attempt obeys;
* `attemptWithin_obeys` — **attempts obey the laws of performing them**, whatever is remembered.
-/

namespace Packrat

/-- What may be said of an outcome on a text, given the key of its attempt. -/
abbrev OutcomeLaw := Text → MemoKey → Step → Prop

/-! ## Tables -/

/-- The outcomes that a table may give on a text obey a law. -/
def Memo.Obeys (m : Memo) (L : OutcomeLaw) (t : Text) : Prop := ∀ key step, m.Holds key step → L t key step

namespace Memo

variable {m : Memo} {L : OutcomeLaw} {t : Text}

theorem obeys_ofStrategy (strategy : Memoization) (L : OutcomeLaw) (t : Text) : (ofStrategy strategy).Obeys L t :=
  fun key step h => absurd h (not_holds_ofStrategy strategy key step)

theorem Obeys.find? (h : m.Obeys L t) (key : MemoKey) : (m.find? key).2.Obeys L t :=
  fun key' step' hstep => h key' step' (holds_of_holds_find? hstep)

theorem Obeys.insert (h : m.Obeys L t) {key : MemoKey} {step : Step} (hstep : L t key step) :
    (m.insert key step).Obeys L t := by
  intro key' step' hholds
  rcases holds_insert hholds with ⟨rfl, rfl⟩ | hold
  · exact hstep
  · exact h key' step' hold

end Memo

/-! ## Attempts -/

/-- A law that every outcome obeys that comes of performing an attempt with a grammar. -/
def Grammar.Lawful (g : Grammar) (L : OutcomeLaw) : Prop :=
  ∀ ⦃a c i p acts skips⦄, c.grammar = g → Gives (L c.text (c.key i p acts skips)) (perform a c i p acts skips)

/-- A computation on tables that obey a law, which leaves such tables. -/
def Obeying {α : Type} (L : OutcomeLaw) (t : Text) (P : α → Prop) (m : MatchM α) : Prop :=
  Keeps (fun s => s.memo.Obeys L t) (fun _ => True) P m

variable {g : Grammar} {L : OutcomeLaw}

/-- An attempt looks up and remembers what obeys, if what it performs does. -/
theorem remember_obeying {a : Attempt} {c : Context} {i : ExprId} {p : Nat} {acts skips : Bool}
    (h : Obeying L c.text (L c.text (c.key i p acts (skips && !c.adjacent)))
      (perform a c i p acts (skips && !c.adjacent))) :
    Obeying L c.text (L c.text (c.key i p acts (skips && !c.adjacent))) (remember a c i p acts skips) := by
  apply Upkeep.remember_keeps (fun hs => hs) h
  · intro s hs
    exact ⟨fun step hstep => hs _ step (Memo.holds_of_find? hstep), hs.find? _⟩
  · intro step hstep s hs
    exact ⟨trivial, hs.insert hstep⟩

/-- **Attempts obey the laws of performing them**, in every mode, where what is remembered does. By induction on how deep
they nest: what attempts keep, performing one by them keeps. -/
theorem attemptWithin_obeys (hL : g.Lawful L) (n : Nat) {c : Context} (hg : c.grammar = g) (i : ExprId) (p : Nat)
    (acts skips : Bool) :
    Obeying L c.text (L c.text (c.key i p acts (skips && !c.adjacent))) (attemptWithin n c i p acts skips) := by
  induction n generalizing c i p acts skips with
  | zero => exact Keeps.halt trivial
  | succ n ih =>
    have hperform (b : Bool) : Obeying L c.text (L c.text (c.key i p acts b))
        (perform (attemptWithin n) c.deeper i p acts b) := by
      have hattempt {c : Context} {i : ExprId} {p : Nat} {acts skips : Bool} (hg : c.grammar = g) (_ : True) :
          Obeying L c.text (fun _ => True) (attemptWithin n c i p acts skips) :=
        (ih hg i p acts skips).mono (fun _ _ => trivial) fun _ => id
      have hkeeps := perform_keeps (a := attemptWithin n) (I := fun t s => s.memo.Obeys L t) (Grammar.Contexts.all g)
        (Grammar.AttemptsWithin.all g) hattempt (fun hless hs => hless.memo ▸ hs) (fun _ _ _ _ _ hs => hs)
        (fun _ hs => hs) (c := c.deeper) hg (i := i) trivial p acts b
      exact Keeps.gives hkeeps (hL (c := c.deeper) hg)
    apply Upkeep.attemptWithin_succ_keeps fun _ => trivial
    exact remember_obeying (c := c.deeper) (hperform (skips && !c.adjacent))

end Packrat
