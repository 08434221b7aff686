import Packrat.Scan
import Packrat.Proofs.Tables.Matching

/-!
# `Packrat.Proofs.Tables.Produced` — what parses and scans produce

What attempts preserve holds of all results that anyone gets to see of a parse or a scan: of the ones that it answers
with and of the ones that it reports on the way.

## Contents

* `Grammar.Produces` — the results that parses and scans with a grammar give and report;
* `matchRoot_records`, `nextWithin_keeps`, `collect_keeps` — whole parses, and scans step by step;
* `Grammar.Preserves.of_produces` — **what matching preserves holds of all that is produced**.
-/

namespace Packrat

variable {g : Grammar} {P : Results → Prop}

/-- Results that parses and scans with a grammar give, and results that they report. -/
inductive Grammar.Produces (g : Grammar) : Results → Prop
  | parsed (p : Parser) (t : Text) (all : Bool) {r : Results} :
      p.grammar = g → (p.parse t all).1.outcome = .ok r → g.Produces r
  | reported (p : Parser) (t : Text) (all : Bool) {i : ExprId} {start stop : Nat} {r : Results} :
      p.grammar = g → .matched i start stop r ∈ (p.parse t all).1.events → g.Produces r
  | found (config : Config) (watch : Watch) (t : Text) (n : Nat) {f : Found} :
      .ok f ∈ ((Scan.new g config watch t).collect n).1.map (·.1) → g.Produces f.results
  | reportedOnTheWay (config : Config) (watch : Watch) (t : Text) (n : Nat) {i : ExprId} {start stop : Nat}
      {r : Results} : .matched i start stop r ∈ ((Scan.new g config watch t).collect n).2.events → g.Produces r

variable (hP : g.Preserves P)
include hP

/-! ## Parses -/

theorem matchRoot_records {c : Context} (hg : c.grammar = g) (all : Bool) :
    Records P (Step.All P) (matchRoot c all) := by
  have ha : g.Attempts P (attempt c) := attemptWithin_records hP _
  unfold matchRoot
  refine Records.step (ha hg) ?_ fun _ => Keeps.pure trivial
  intro stop r hr
  cases all with
  | false => exact Keeps.pure hr
  | true =>
    refine (skipLeading_records ha hg _ stop).bind ?_
    intro q _
    dsimp only
    split
    · exact Keeps.pure (P := Step.All P) trivial
    · exact Keeps.pure (P := Step.All P) hr

/-- A parse gives and reports results with the property. -/
theorem parse_all {p : Parser} (hg : p.grammar = g) (t : Text) (all : Bool) :
    (∀ r, (p.parse t all).1.outcome = .ok r → P r) ∧ ∀ e ∈ (p.parse t all).1.events, e.All P := by
  let c := Context.top p.grammar p.config p.watch (viewOf p.config t)
  have hrun := matchRoot_records (c := c) hP hg all _ (State.All.forget p.state)
  unfold Parser.parse
  simp only [EStateM.run]
  cases hr : matchRoot c all { p.state.forget with journal := [] } with
  | error h s =>
    rw [hr] at hrun
    exact ⟨fun _ hok => (nomatch hok), fun e he => hrun.2.journal e (List.mem_reverse.mp he)⟩
  | ok step s =>
    rw [hr] at hrun
    cases step with
    | failed d => exact ⟨fun _ hok => (nomatch hok), fun e he => hrun.2.journal e (List.mem_reverse.mp he)⟩
    | matched stop r =>
      exact ⟨fun _ hok => Except.ok.inj hok ▸ hrun.1, fun e he => hrun.2.journal e (List.mem_reverse.mp he)⟩

/-! ## Scans -/

theorem attemptAt_records {c : Context} (hg : c.grammar = g) (p : Nat) :
    Records P (fun x => x.2.All P) (Scan.attemptAt c p) := by
  have ha : g.Attempts P (attempt c) := attemptWithin_records hP _
  exact (skipLeading_records ha hg _ p).bind fun _ _ => Keeps.bind (ha hg) fun _ hstep => Keeps.pure hstep

omit hP in
/-- A scan with a grammar whose results all have a property. -/
structure Scan.All (g : Grammar) (P : Results → Prop) (s : Scan) : Prop where
  grammar : s.context.grammar = g
  state : s.state.All P

/-- One step of a scan keeps its results so, and finds such results. -/
theorem nextWithin_keeps (fuel : Nat) {s : Scan} (hs : s.All g P) :
    (∀ f, (s.nextWithin fuel).1 = some (.ok f) → P f.results) ∧ (s.nextWithin fuel).2.All g P := by
  induction fuel generalizing s with
  | zero => exact ⟨fun _ h => (nomatch h), hs.grammar, hs.state⟩
  | succ fuel ih =>
    have hattempt := attemptAt_records hP hs.grammar s.position s.state hs.state
    unfold Scan.nextWithin
    split
    · exact ⟨fun _ h => (nomatch h), hs.grammar, hs.state⟩
    · simp only [EStateM.run]
      cases hr : Scan.attemptAt s.context s.position s.state with
      | error h s' =>
        rw [hr] at hattempt
        exact ⟨fun _ h => (nomatch h), hs.grammar, hattempt.2⟩
      | ok x s' =>
        rw [hr] at hattempt
        obtain ⟨start, step⟩ := x
        have hagain := ih (s := { s with state := s', position := s.context.text.next start }) ⟨hs.grammar, hattempt.2⟩
        cases step with
        | failed d => exact hagain
        | matched stop r =>
          dsimp only
          split
          · refine ⟨fun f hf => ?_, hs.grammar, hattempt.2⟩
            obtain rfl := Except.ok.inj (Option.some.inj hf)
            exact hattempt.1
          · exact hagain

/-- A scan finds results with the property, and reports such results. -/
theorem collect_keeps (n : Nat) {s : Scan} (hs : s.All g P) :
    (∀ f, .ok f ∈ (s.collect n).1.map (·.1) → P f.results) ∧ (s.collect n).2.All g P := by
  induction n generalizing s with
  | zero => exact ⟨fun _ h => (nomatch h), hs⟩
  | succ n ih =>
    obtain ⟨hitem, hnext⟩ := nextWithin_keeps hP (s.context.text.size + 2) hs
    unfold Scan.collect
    rw [Scan.next]
    rcases hx : s.nextWithin (s.context.text.size + 2) with ⟨_ | item, s'⟩
    · rw [hx] at hnext
      exact ⟨fun _ h => (nomatch h), hnext⟩
    · rw [hx] at hitem hnext
      obtain ⟨hrest, hlast⟩ := ih hnext
      refine ⟨fun f hf => ?_, hlast⟩
      rcases List.mem_cons.mp hf with heq | hf
      · exact hitem f (congrArg some heq.symm)
      · exact hrest f hf

/-! ## All that is produced -/

/-- **What matching preserves holds of all that is produced.** -/
theorem Grammar.Preserves.of_produces {r : Results} (h : g.Produces r) : P r := by
  have hscan (config : Config) (watch : Watch) (t : Text) (n : Nat) :=
    collect_keeps hP n (s := Scan.new g config watch t) ⟨rfl, State.All.initial config⟩
  cases h with
  | parsed p t all hg hok => exact (parse_all hP hg t all).1 r hok
  | reported p t all hg hevent => exact (parse_all hP hg t all).2 _ hevent
  | found config watch t n hfound => exact (hscan config watch t n).1 _ hfound
  | reportedOnTheWay config watch t n hevent =>
    exact (hscan config watch t n).2.state.journal _ (List.mem_reverse.mp hevent)

end Packrat
