import Packrat.Scan
import Packrat.Proofs.Placement.Nodes

/-!
# `Packrat.Proofs.Placement.Runs` — what parses and scans end with

What attempts keep is kept by the runs that are made of them: a parse ends with results or an error that its nodes
may raise, and so does every step of a scan, which moves on from site to site.

## Contents

* `Grammar.EndsWith` — the errors that the runs of a grammar end with;
* `Upkeep.Raises` — the errors of a closed set of nodes;
* `Upkeep.Yields`, `Upkeep.YieldsFrom` — the items of a scan, in order;
* `Upkeep.endsWith` — **runs end only with errors that their nodes raise**;
* `Scan.haltsWith_collect` — **an error of a scan is a halt of one of its attempts**.
-/

namespace Packrat

/-! ## Errors of runs -/

/-- Parses, scans, searches and replacements with a grammar end only with errors that have a property on the text
that is matched. -/
structure Grammar.EndsWith (g : Grammar) (E : Text → ParseError → Prop) : Prop where
  parse : ∀ config watch state t all e,
    (Parser.parse ⟨g, config, watch, state⟩ t all).1.outcome = .error e → E (viewOf config t) e
  scan : ∀ config watch t n e, .error e ∈ ((Scan.new g config watch t).collect n).1.map (·.1) → E t e
  search : ∀ config watch t e, (Scan.new g config watch t).search = .error e → E t e
  replace : ∀ config watch t e, (Scan.new g config watch t).replace = .error e → E t e

theorem Grammar.EndsWith.mono {g : Grammar} {E E' : Text → ParseError → Prop} (h : g.EndsWith E)
    (hE : ∀ t e, E t e → E' t e) : g.EndsWith E' :=
  ⟨fun config watch state t all e he => hE _ _ (h.parse config watch state t all e he),
    fun config watch t n e he => hE _ _ (h.scan config watch t n e he),
    fun config watch t e he => hE _ _ (h.search config watch t e he),
    fun config watch t e he => hE _ _ (h.replace config watch t e he)⟩

namespace Upkeep

variable {g : Grammar} (U : Upkeep g)

/-- The errors that a run on a text may end with: that of a failure at a site, or that of a halt. -/
inductive Raises (t : Text) : ParseError → Prop
  | mismatch {d : Diagnostic} : U.sites.From t 0 d.position → Raises t (.mismatch (Report.of t d))
  | halt {h : Halt} : U.halts t 0 h → Raises t (h.toError t)

/-! ## Parses -/

variable {U} (hroot : U.nodes g.root)
include hroot

/-- The root and the end of the text after it. -/
theorem matchRoot_run {c : Context} (hg : c.grammar = g) (all : Bool) :
    U.Run c 0 (U.sites.Holds c.text 0) (matchRoot c all) := by
  have ha : U.Sound (attempt c) := attemptWithin_sound U _
  unfold matchRoot
  simp only [hg]
  refine Run.step (ha hg hroot (U.sites.zero c.text)) ?_ fun d hd => Run.pure hd
  intro stop r hstop
  cases all with
  | false => exact Run.pure hstop
  | true =>
    simp only [Bool.not_true, Bool.false_eq_true, if_false]
    have hignores : ∀ j ∈ (g.rule g.root).ignores, U.nodes j := fun j hj => U.closed hroot (List.mem_append_right _ hj)
    refine ((skipLeading_quiet ha hg hignores hstop.site).run).bind fun q hq => ?_
    have hend : U.sites.From c.text 0 (c.text.skip g.defaultWhitespace.contains q) :=
      ⟨U.sites.skip hq.site _, Nat.zero_le _⟩
    split
    · exact Run.pure hend
    · exact Run.pure hend

/-- A parse ends with results, or with an error that its nodes raise. -/
theorem raises_of_parse {p : Parser} (hg : p.grammar = g) {t : Text} {all : Bool} {e : ParseError}
    (h : (p.parse t all).1.outcome = .error e) : U.Raises (viewOf p.config t) e := by
  let view := viewOf p.config t
  let c := Context.top p.grammar p.config p.watch view
  let s : State := { p.state.forget with journal := [] }
  have hs : s.Placed U.sites view := State.Placed.forget _ _ _ _
  change (resolve view (matchRoot c all s)).1 = .error e at h
  have hrun : U.Run c 0 (U.sites.Holds c.text 0) (matchRoot c all) := matchRoot_run hroot hg all
  have hend := hrun s hs
  cases hr : matchRoot c all s with
  | error halt s' =>
    rw [hr] at h hend
    obtain rfl := Except.error.inj h
    exact Raises.halt hend.1
  | ok step s' =>
    rw [hr] at h hend
    cases step with
    | matched stop r => exact absurd h (by simp [resolve])
    | failed d =>
      obtain rfl := Except.error.inj h
      exact Raises.mismatch hend.1

/-! ## Scans -/

/-- Skipping and an attempt of the root end at sites. -/
theorem attemptAt_run {c : Context} (hg : c.grammar = g) {p : Nat} (hp : U.sites.At c.text p) :
    U.Run c p (fun x => U.sites.From c.text p x.1 ∧ U.sites.Holds c.text x.1 x.2) (Scan.attemptAt c p) := by
  have ha : U.Sound (attempt c) := attemptWithin_sound U _
  have hignores : ∀ j ∈ (g.rule g.root).ignores, U.nodes j := fun j hj => U.closed hroot (List.mem_append_right _ hj)
  unfold Scan.attemptAt
  simp only [hg]
  refine ((skipLeading_quiet ha hg hignores hp).run).bind fun start hstart => ?_
  have hstep : U.Run c p (U.sites.Holds c.text start) (attempt c c g.root start true false) :=
    (ha hg hroot hstart.site).mono hstart.le fun _ => id
  exact hstep.bind fun step hstep => Run.pure ⟨hstart, hstep⟩

omit hroot

variable (U)

/-- What a scan of a text yields from a position on, and the position after it. -/
def Yields (t : Text) (p : Nat) (item : Item) (q : Nat) : Prop :=
  match item with
  | .ok f => U.sites.From t p f.start ∧ U.sites.From t f.start q ∧ f.stop = q
  | .error e => U.Raises t e

/-- What a scan yields, one item after the other. -/
def YieldsFrom (t : Text) : (p : Nat) → List (Item × Nat) → Prop
  | _, [] => True
  | p, (item, q) :: rest => U.Yields t p item q ∧ YieldsFrom t q rest

/-- A scan that is over, or that is at a site of its text or past the end. -/
structure Scanning (t : Text) (s : Scan) : Prop where
  grammar : s.context.grammar = g
  text : s.context.text = t
  tables : s.state.Placed U.sites t
  position : U.sites.At t s.position ∨ t.size < s.position

variable {U} {t : Text} {s : Scan}

theorem Scanning.new (config : Config) (watch : Watch) (t : Text) : U.Scanning t (Scan.new g config watch t) :=
  ⟨rfl, rfl, State.Placed.initial _ _ _, Or.inl (U.sites.zero t)⟩

theorem Yields.mono {p p' q : Nat} {item : Item} (h : U.Yields t p' item q) (hp : p ≤ p') : U.Yields t p item q := by
  cases item with
  | ok f => exact ⟨h.1.mono hp, h.2⟩
  | error e => exact h

/-- What one step of a scan leaves: a scan that goes on, and an item that lies where it should. -/
def StepsFrom (U : Upkeep g) (t : Text) (p : Nat) (x : Option Item × Scan) : Prop :=
  U.Scanning t x.2 ∧ ∀ item ∈ x.1, U.Yields t p item x.2.position

include hroot in
/-- One step of a scan keeps it at sites. -/
theorem nextWithin_steps (fuel : Nat) (h : U.Scanning t s) : U.StepsFrom t s.position (s.nextWithin fuel) := by
  induction fuel generalizing s with
  | zero => exact ⟨⟨h.grammar, h.text, h.tables, h.position⟩, fun _ hx => absurd hx (by simp [Scan.nextWithin])⟩
  | succ fuel ih =>
    obtain ⟨c, state, p, done⟩ := s
    obtain ⟨hg, rfl, htables, hposition⟩ := h
    unfold Scan.nextWithin
    by_cases hend : (done || decide (c.text.size < p)) = true
    · rw [if_pos hend]
      exact ⟨⟨hg, rfl, htables, hposition⟩, by simp⟩
    · rw [if_neg hend]
      have hp : U.sites.At c.text p := hposition.resolve_right fun hlt => hend (by simp [hlt])
      have hattempt := attemptAt_run hroot hg hp state htables
      -- past what yields nothing the scan goes on from a later site
      have hagain {start : Nat} {state' : State} (hstart : U.sites.From c.text p start)
          (hs' : state'.Placed U.sites c.text) :
          U.StepsFrom c.text p (Scan.nextWithin fuel ⟨c, state', c.text.next start, done⟩) := by
        obtain ⟨hscan, hitem⟩ := ih (s := ⟨c, state', c.text.next start, done⟩) ⟨hg, rfl, hs', U.sites.next hstart.site⟩
        exact ⟨hscan, fun item hx => (hitem item hx).mono (hstart.le.trans (Text.lt_next _ _).le)⟩
      simp only [EStateM.run]
      cases hr : Scan.attemptAt c p state with
      | error e state' =>
        rw [hr] at hattempt
        refine ⟨⟨hg, rfl, hattempt.2, hposition⟩, ?_⟩
        intro item hx
        obtain rfl := Option.some.inj hx
        exact Raises.halt (U.mono (Nat.zero_le p) hattempt.1)
      | ok x state' =>
        obtain ⟨start, step⟩ := x
        rw [hr] at hattempt
        obtain ⟨⟨hstart, hstep⟩, hs'⟩ := hattempt
        cases step with
        | failed d => exact hagain hstart hs'
        | matched stop r =>
          dsimp only
          by_cases hlt : p < stop
          · rw [if_pos hlt]
            refine ⟨⟨hg, rfl, hs', Or.inl hstep.site⟩, ?_⟩
            intro item hx
            obtain rfl := Option.some.inj hx
            exact ⟨hstart, hstep, rfl⟩
          · rw [if_neg hlt]
            exact hagain hstart hs'

include hroot in
/-- A scan yields items in order. -/
theorem collect_yields (n : Nat) (h : U.Scanning t s) : U.YieldsFrom t s.position (s.collect n).1 := by
  induction n generalizing s with
  | zero => trivial
  | succ n ih =>
    have hnext := nextWithin_steps hroot (s.context.text.size + 2) h
    unfold Scan.collect
    rw [Scan.next]
    rcases hx : s.nextWithin (s.context.text.size + 2) with ⟨_ | item, s'⟩
    · trivial
    · rw [hx] at hnext
      exact ⟨hnext.2 item rfl, ih hnext.1⟩

theorem YieldsFrom.raises {p : Nat} {items : List (Item × Nat)} (h : U.YieldsFrom t p items) {e : ParseError}
    (he : .error e ∈ items.map (·.1)) : U.Raises t e := by
  induction items generalizing p with
  | nil => exact absurd he (by simp)
  | cons x rest ih =>
    obtain ⟨item, q⟩ := x
    rcases List.mem_cons.mp he with rfl | he
    · exact h.1
    · exact ih h.2 he

omit hroot in
/-- The error of a list of items is one of theirs. -/
theorem mem_of_matchesOf {items : List Item} {e : ParseError} (h : matchesOf items = .error e) : .error e ∈ items := by
  induction items with
  | nil => exact absurd h (by simp [matchesOf, Pure.pure, Except.pure])
  | cons item items ih =>
    cases item with
    | error e' =>
      have he : Except.error e' = (Except.error e : Except ParseError (List Found)) := by
        simpa [matchesOf, Bind.bind, Except.bind] using h
      obtain rfl := Except.error.inj he
      exact List.mem_cons_self
    | ok f =>
      refine List.mem_cons_of_mem _ (ih ?_)
      cases hrest : matchesOf items with
      | error e' =>
        rw [matchesOf] at hrest
        rw [matchesOf, List.mapM_cons, hrest] at h
        exact h
      | ok fs =>
        rw [matchesOf] at hrest
        rw [matchesOf, List.mapM_cons, hrest] at h
        exact absurd h (by simp [Bind.bind, Except.bind, Pure.pure, Except.pure])

/-- **Runs end only with errors that their nodes raise.** -/
theorem endsWith (hroot : U.nodes g.root) : g.EndsWith U.Raises := by
  have hscan (config : Config) (watch : Watch) (t : Text) (n : Nat) (e : ParseError)
      (he : .error e ∈ ((Scan.new g config watch t).collect n).1.map (·.1)) : U.Raises t e :=
    (collect_yields hroot n (Scanning.new config watch t)).raises he
  have hsearch (config : Config) (watch : Watch) (t : Text) (e : ParseError)
      (he : (Scan.new g config watch t).search = .error e) : U.Raises t e :=
    hscan config watch t (Scan.new g config watch t).itemBound e (mem_of_matchesOf he)
  refine ⟨fun config watch state t all e he => raises_of_parse hroot rfl he, hscan, hsearch, ?_⟩
  intro config watch t e he
  unfold Scan.replace at he
  cases hs : (Scan.new g config watch t).search with
  | error e' =>
    rw [hs] at he
    obtain rfl : e' = e := Except.error.inj he
    exact hsearch config watch t e' hs
  | ok fs =>
    rw [hs] at he
    exact absurd he (by simp [Except.map])

end Upkeep

/-! ## Halts of scans -/

namespace Scan

variable {g : Grammar} {t : Text} {s : Scan} {H : Halt → Prop}

/-- An item that is an error is a halt with `H`. -/
def HaltsWith (H : Halt → Prop) (t : Text) (item : Item) : Prop := ∀ e, item = .error e → ∃ h, H h ∧ e = h.toError t

/-- A scan stays with its grammar, its text and its limits. -/
theorem context_nextWithin (fuel : Nat) (s : Scan) : (s.nextWithin fuel).2.context = s.context := by
  induction fuel generalizing s with
  | zero => rfl
  | succ fuel ih =>
    unfold nextWithin
    split
    · rfl
    · split
      · rfl
      · split
        · rfl
        · exact ih _
      · exact ih _

/-- An error that a step of a scan yields is a halt of one of its attempts. -/
theorem haltsWith_nextWithin (fuel : Nat) (h : (Upkeep.places g).Scanning t s)
    (hattempt : ∀ p, t.IsBoundary p →
      Keeps (State.Placed .places t) H (fun _ => True) (attemptAt s.context p)) :
    (∀ item ∈ (s.nextWithin fuel).1, HaltsWith H t item) ∧ (s.nextWithin fuel).2.context = s.context := by
  induction fuel generalizing s with
  | zero => exact ⟨by simp [nextWithin], rfl⟩
  | succ fuel ih =>
    obtain ⟨c, state, p, done⟩ := s
    obtain ⟨hg, rfl, htables, hposition⟩ := h
    unfold nextWithin
    by_cases hend : (done || decide (c.text.size < p)) = true
    · rw [if_pos hend]
      exact ⟨by simp, rfl⟩
    · rw [if_neg hend]
      have hp : c.text.IsBoundary p := hposition.resolve_right fun hlt => hend (by simp [hlt])
      have hplaces := Upkeep.attemptAt_run (U := Upkeep.places g) trivial hg hp state htables
      have hkeeps := hattempt p hp state htables
      simp only [EStateM.run]
      cases hr : attemptAt c p state with
      | error halt state' =>
        rw [hr] at hkeeps
        refine ⟨fun item hitem e he => ⟨halt, hkeeps.1, ?_⟩, rfl⟩
        obtain rfl := Option.some.inj hitem
        exact (Except.error.inj he).symm
      | ok x state' =>
        obtain ⟨start, step⟩ := x
        rw [hr] at hplaces
        obtain ⟨⟨hstart, -⟩, hs'⟩ := hplaces
        have hagain := ih (s := ⟨c, state', c.text.next start, done⟩) ⟨hg, rfl, hs', Sites.places.next hstart.site⟩ hattempt
        cases step with
        | failed d => exact hagain
        | matched stop r =>
          dsimp only
          by_cases hlt : p < stop
          · rw [if_pos hlt]
            refine ⟨fun item hitem e he => ?_, rfl⟩
            obtain rfl := Option.some.inj hitem
            exact absurd he (by simp)
          · rw [if_neg hlt]
            exact hagain

/-- **An error of a scan is a halt of one of its attempts.** -/
theorem haltsWith_collect (n : Nat) (h : (Upkeep.places g).Scanning t s)
    (hattempt : ∀ p, t.IsBoundary p →
      Keeps (State.Placed .places t) H (fun _ => True) (attemptAt s.context p)) :
    ∀ item ∈ (s.collect n).1.map (·.1), HaltsWith H t item := by
  induction n generalizing s with
  | zero => exact fun item hitem => absurd hitem List.not_mem_nil
  | succ n ih =>
    have hnext := haltsWith_nextWithin (s.context.text.size + 2) h hattempt
    have hscan := (Upkeep.nextWithin_steps (U := Upkeep.places g) trivial (s.context.text.size + 2) h).1
    unfold collect
    rw [next]
    rcases hx : s.nextWithin (s.context.text.size + 2) with ⟨_ | item, s'⟩
    · exact fun item hitem => absurd hitem List.not_mem_nil
    · rw [hx] at hnext hscan
      have hrest := ih hscan (by rw [hnext.2]; exact hattempt)
      intro item' hitem
      rcases List.mem_cons.mp hitem with rfl | hitem
      · exact hnext.1 _ rfl
      · exact hrest item' hitem

end Scan

end Packrat
