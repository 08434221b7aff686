import Packrat.Proofs.Coupling.Runs
import Packrat.Proofs.Placement.Runs
import Packrat.Proofs.Seeds.Ledger

/-!
# `Packrat.Proofs.Scanning.Progress` — a scan moves on

A scan attempts the root at one place after the other, and yields what ends past the place of the attempt. Skipping
comes in between: the match starts where skipping has led to, and may be empty there.

## Contents

* `Scan.SkipsTo`, `Scan.FoundAt` — where skipping leads, and what an attempt finds;
* `Scan.Steps` — what one step of a scan may come to; `nextWithin_steps`, `next_steps`;
* `Scan.Proceeds` — the items of a scan, one after the other; `collect_proceeds`;
* `found_nonempty_or_skipped` — **an empty match is only found past skipped text**.
-/

namespace Packrat
namespace Scan

/-! ## What attempts find -/

/-- Skipping what comes before the root leads from one place to another, in some state of a run. -/
def SkipsTo (c : Context) (q start : Nat) : Prop :=
  ∃ s s' : State, s.Placed .places c.text ∧ skipLeading (attempt c) c (c.grammar.rule c.grammar.root) q s = .ok start s'

/-- An attempt of the root at a place finds a match that ends past it, in some state of a run. -/
def FoundAt (c : Context) (q : Nat) (f : Found) : Prop :=
  q < f.stop ∧ ∃ s s' : State, s.Placed .places c.text ∧ attemptAt c q s = .ok (f.start, .matched f.stop f.results) s'

namespace FoundAt

variable {c : Context} {q : Nat} {f : Found}

/-- The match is found where skipping leads. -/
theorem skipsTo (h : FoundAt c q f) : SkipsTo c q f.start := by
  obtain ⟨-, s, s', hs, hrun⟩ := h
  unfold attemptAt at hrun
  cases hskip : skipLeading (attempt c) c (c.grammar.rule c.grammar.root) q s with
  | error e u =>
    rw [bind_error hskip] at hrun
    exact absurd hrun (by simp)
  | ok start u =>
    rw [bind_ok hskip] at hrun
    cases hstep : attempt c c c.grammar.root start true false u with
    | error e u' =>
      rw [bind_error hstep] at hrun
      exact absurd hrun (by simp)
    | ok step u' =>
      rw [bind_ok hstep] at hrun
      obtain ⟨⟨rfl, -⟩, -⟩ : (start = f.start ∧ step = .matched f.stop f.results) ∧ u' = s' := by
        simpa [Pure.pure, EStateM.pure] using hrun
      exact ⟨s, u, hs, hskip⟩

/-- It starts at a place at or after the one of the attempt, and ends at one at or after its start. -/
theorem place (h : FoundAt c q f) (hq : c.text.IsBoundary q) :
    Sites.places.From c.text q f.start ∧ Sites.places.From c.text f.start f.stop := by
  obtain ⟨-, s, s', hs, hrun⟩ := h
  have hkeeps := Upkeep.attemptAt_run (U := Upkeep.places c.grammar) trivial rfl hq s hs
  rw [hrun] at hkeeps
  exact hkeeps.1

/-- An empty match is found past skipped text. -/
theorem lt_start_of_empty (h : FoundAt c q f) (he : f.start = f.stop) : q < f.start := he ▸ h.1

end FoundAt

/-- Without ignorables skipping leads past the whitespace of the root. -/
theorem SkipsTo.eq_lead {c : Context} {q start : Nat} (h : SkipsTo c q start)
    (hignores : (c.grammar.rule c.grammar.root).ignores = []) :
    start = (c.grammar.rule c.grammar.root).lead c.text true q := by
  obtain ⟨s, s', -, hrun⟩ := h
  rw [skipLeading_eq hignores] at hrun
  exact (EStateM.Result.ok.inj hrun).1.symm

/-! ## Steps of a scan -/

/-- What one step of a scan at a position may come to: nothing or an error, which end it, or a match that an attempt
at some place from there on finds, at whose end it goes on. -/
inductive Steps (c : Context) (p : Nat) : Option Item × Scan → Prop
  | ended {s : Scan} (hdone : s.done = true) : Steps c p (none, s)
  | error {s : Scan} (e : ParseError) (hdone : s.done = true) : Steps c p (some (.error e), s)
  | found {s : Scan} {q : Nat} {f : Found} (hpq : p ≤ q) (hq : c.text.IsBoundary q) (hf : FoundAt c q f)
    (hcontext : s.context = c) (hposition : s.position = f.stop) : Steps c p (some (.ok f), s)

theorem Steps.mono {c : Context} {p p' : Nat} {x : Option Item × Scan} (h : Steps c p' x) (hp : p ≤ p') :
    Steps c p x := by
  cases h with
  | ended hdone => exact .ended hdone
  | error e hdone => exact .error e hdone
  | found hpq hq hf hcontext hposition => exact .found (hp.trans hpq) hq hf hcontext hposition

theorem nextWithin_steps {g : Grammar} {t : Text} {s : Scan} (fuel : Nat) (h : (Upkeep.places g).Scanning t s) :
    Steps s.context s.position (s.nextWithin fuel) := by
  induction fuel generalizing s with
  | zero => exact .ended rfl
  | succ fuel ih =>
    obtain ⟨c, state, p, done⟩ := s
    obtain ⟨hg, rfl, htables, hposition⟩ := h
    unfold nextWithin
    by_cases hend : (done || decide (c.text.size < p)) = true
    · rw [if_pos hend]
      exact .ended rfl
    · rw [if_neg hend]
      have hp : c.text.IsBoundary p := hposition.resolve_right fun hlt => hend (by simp [hlt])
      have hattempt := Upkeep.attemptAt_run (U := Upkeep.places g) trivial hg hp state htables
      simp only [EStateM.run]
      cases hr : attemptAt c p state with
      | error e state' => exact .error _ rfl
      | ok x state' =>
        obtain ⟨start, step⟩ := x
        rw [hr] at hattempt
        obtain ⟨⟨hstart, -⟩, hs'⟩ := hattempt
        -- past what yields nothing the scan goes on from a later place
        have hagain : Steps c p (nextWithin fuel ⟨c, state', c.text.next start, done⟩) :=
          (ih (s := ⟨c, state', c.text.next start, done⟩) ⟨hg, rfl, hs', Sites.places.next hstart.site⟩).mono
            (hstart.le.trans (Text.lt_next _ _).le)
        cases step with
        | failed d => exact hagain
        | matched stop r =>
          dsimp only
          by_cases hlt : p < stop
          · rw [if_pos hlt]
            exact .found le_rfl hp ⟨hlt, state, state', htables, hr⟩ rfl rfl
          · rw [if_neg hlt]
            exact hagain

/-! ## Runs of a scan -/

/-- The items of a scan from a position on: matches, each found by an attempt at a place at or after the end of the
one before, with its own start and end at places further on, and at the end perhaps an error. -/
inductive Proceeds (c : Context) : (p : Nat) → List Item → Prop
  | nil (p : Nat) : Proceeds c p []
  | error (p : Nat) (e : ParseError) : Proceeds c p [.error e]
  | found {p q : Nat} {f : Found} {items : List Item} (hpq : p ≤ q) (hq : c.text.IsBoundary q) (hf : FoundAt c q f)
    (hstart : Sites.places.From c.text q f.start) (hstop : Sites.places.From c.text f.start f.stop)
    (hrest : Proceeds c f.stop items) : Proceeds c p (.ok f :: items)

/-- A scan that is over yields nothing. -/
theorem collect_done {s : Scan} (h : s.done = true) (n : Nat) : (s.collect n).1 = [] := by
  cases n with
  | zero => rfl
  | succ n =>
    have hnext : s.next = (none, { s with done := true }) := by
      unfold next nextWithin
      rw [if_pos (by simp [h])]
    rw [collect, hnext]

/-- **A scan proceeds** from each match to the next. -/
theorem collect_proceeds {g : Grammar} {t : Text} {s : Scan} (n : Nat) (h : (Upkeep.places g).Scanning t s) :
    Proceeds s.context s.position ((s.collect n).1.map (·.1)) := by
  induction n generalizing s with
  | zero => exact .nil _
  | succ n ih =>
    have hstep := nextWithin_steps (s.context.text.size + 2) h
    have hscan := (Upkeep.nextWithin_steps (U := Upkeep.places g) trivial (s.context.text.size + 2) h).1
    unfold collect
    rw [next]
    rcases hx : s.nextWithin (s.context.text.size + 2) with ⟨item, s'⟩
    rw [hx] at hstep hscan
    cases hstep with
    | ended hdone => exact .nil _
    | error e hdone =>
      simp only [List.map_cons, collect_done hdone, List.map_nil]
      exact .error _ e
    | found hpq hq hf hcontext hposition =>
      refine .found hpq hq hf (hf.place hq).1 (hf.place hq).2 ?_
      rw [← hcontext, ← hposition]
      exact ih hscan

/-- A scan that yields fewer items than asked for is over. -/
theorem collect_over {g : Grammar} {t : Text} {s : Scan} {n : Nat} (h : (Upkeep.places g).Scanning t s)
    (hn : (s.collect n).1.length < n) : (s.collect n).2.done = true := by
  induction n generalizing s with
  | zero => exact absurd hn (Nat.not_lt_zero _)
  | succ n ih =>
    have hstep := nextWithin_steps (s.context.text.size + 2) h
    have hscan := (Upkeep.nextWithin_steps (U := Upkeep.places g) trivial (s.context.text.size + 2) h).1
    unfold collect at hn ⊢
    rw [next] at hn ⊢
    rcases hx : s.nextWithin (s.context.text.size + 2) with ⟨_ | item, s'⟩
    · rw [hx] at hstep
      cases hstep with
      | ended hdone => exact hdone
    · rw [hx] at hn hscan
      exact ih hscan (Nat.lt_of_succ_lt_succ hn)

namespace Proceeds

variable {c : Context} {p : Nat} {items : List Item}

/-- Every match is found by an attempt at some place from the position on. -/
theorem foundAt (h : Proceeds c p items) {f : Found} (hf : .ok f ∈ items) :
    ∃ q, p ≤ q ∧ c.text.IsBoundary q ∧ FoundAt c q f := by
  induction h with
  | nil p => exact absurd hf (by simp)
  | error p e => exact absurd hf (by simp)
  | @found p q f' items hpq hq hfound hstart hstop hrest ih =>
    rcases List.mem_cons.mp hf with heq | hf
    · obtain rfl := Except.ok.inj heq
      exact ⟨q, hpq, hq, hfound⟩
    · obtain ⟨q', hq', hplace, hfound'⟩ := ih hf
      exact ⟨q', (hpq.trans hfound.1.le).trans hq', hplace, hfound'⟩

/-- Each match moves the scan on, so there are no more items than places left. -/
theorem length_le (h : Proceeds c p items) (hp : p ≤ c.text.size) : p + items.length ≤ c.text.size + 1 := by
  induction h with
  | nil p => exact Nat.le_succ_of_le hp
  | error p e => exact Nat.succ_le_succ hp
  | @found p q f items hpq hq hfound hstart hstop hrest ih =>
    have hrest := ih hstop.site.le_size
    have hlt := hfound.1
    rw [List.length_cons]
    omega

end Proceeds
end Scan

/-! ## Empty matches -/

/-- The root skips nothing in a text: it has no ignorables, and where a character of its whitespace is in the text it
does not skip that either. -/
structure Grammar.Unskipping (g : Grammar) (t : Text) : Prop where
  ignores : (g.rule g.root).ignores = []
  whitespace : ∀ q, t.IsBoundary q → (g.rule g.root).lead t true q = q

open Scan in
/-- **An empty match is only found past skipped text.** Every match of a scan is nonempty, or starts where skipping has
led to from an earlier place; where the root skips nothing, no match is empty. -/
theorem found_nonempty_or_skipped (g : Grammar) (config : Config) (watch : Watch) (t : Text) (n : Nat) (f : Found)
    (hf : .ok f ∈ ((Scan.new g config watch t).collect n).1.map (·.1)) :
    (f.start < f.stop ∨ f.start = f.stop ∧ ∃ q < f.start, t.IsBoundary q ∧ SkipsTo (.top g config watch t) q f.start) ∧
      (g.Unskipping t → f.start < f.stop) := by
  obtain ⟨q, -, hq, hfound⟩ := (collect_proceeds n (Upkeep.Scanning.new config watch t)).foundAt hf
  have hle : f.start ≤ f.stop := (hfound.place hq).2.le
  constructor
  · rcases hle.lt_or_eq with hlt | heq
    · exact Or.inl hlt
    · exact Or.inr ⟨heq, q, hfound.lt_start_of_empty heq, hq, hfound.skipsTo⟩
  · intro hskip
    -- the match starts at the place of the attempt, and ends past it
    have hstart : f.start = q := (hfound.skipsTo.eq_lead hskip.ignores).trans (hskip.whitespace q hq)
    rw [hstart]
    exact hfound.1

/-- A test of items that a match passes. -/
theorem exists_found {items : List Item} {P : Found → Bool} (h : items.any (fun item => item.toOption.any P) = true) :
    ∃ f, .ok f ∈ items ∧ P f = true := by
  obtain ⟨item, hitem, hP⟩ := List.any_eq_true.mp h
  cases item with
  | error e => exact absurd hP Bool.false_ne_true
  | ok f => exact ⟨f, hitem, hP⟩

/-- A letter that may be left out. -/
def optionalLetter : Grammar := Grammar.ofKinds [.literal "a" false, .optional 0 none] 1

theorem found_nonempty_or_skipped_optionalLetter :
    ∃ f, .ok f ∈ ((Scan.new optionalLetter {} default ['x', 'a']).collect 9).1.map (·.1) ∧
      optionalLetter.Unskipping ['x', 'a'] ∧ f.start < f.stop := by
  have hitem : (((Scan.new optionalLetter {} default ['x', 'a']).collect 9).1.map (·.1)).any
      (fun item => item.toOption.any fun f => f.start = 1) = true := by decide +kernel
  obtain ⟨f, hf, -⟩ := exists_found hitem
  have hskip : optionalLetter.Unskipping ['x', 'a'] := by
    refine ⟨by decide, fun q hq => ?_⟩
    have hle : q ≤ 2 := hq.le_size
    interval_cases q <;> decide +kernel
  exact ⟨f, hf, hskip, (found_nonempty_or_skipped optionalLetter {} default ['x', 'a'] 9 f hf).2 hskip⟩

/-- Past skipped text a match may be empty: the letter is left out after the blank, which counts as progress. -/
theorem exists_empty_optionalLetter :
    ∃ f, .ok f ∈ (Scan.new optionalLetter {} default [' ', 'x']).collectAll.1 ∧ ¬ f.start < f.stop := by
  have hitem : (Scan.new optionalLetter {} default [' ', 'x']).collectAll.1.any
      (fun item => item.toOption.any fun f => ¬ f.start < f.stop) = true := by decide +kernel
  obtain ⟨f, hf, hempty⟩ := exists_found hitem
  exact ⟨f, hf, of_decide_eq_true hempty⟩

end Packrat
