import Packrat.Proofs.Coupling.Lockstep
import Packrat.Proofs.Memory.Adequacy
import Packrat.Proofs.Scanning.Naive
import Packrat.Proofs.Scanning.Progress

/-!
# `Packrat.Proofs.Scanning.Reference` — a scan yields what the places of the text yield

A scan jumps past what is skipped, goes on at the end of a match, and keeps one state for all its attempts. Where the
root has no ignorables, it still yields item for item what the root yields on its own at one place after the other. The
depth of nesting makes the one difference: an outcome that is remembered takes no room, so either side may nest too
deeply where the other does not.

## Contents

* `AgreeUpTo` — lists of items that agree until one of them ends with an excused error;
* `agree_lead`, `Grammar.settles_lead` — skipping first, and starting where skipping leads;
* `Scan.Answering` — what attempts of the root answer, on their own and in a scan;
* `Answering.nextWithin`, `Answering.collect` — one step of a scan, and a run of it;
* `scan_eq_naive` — **a scan yields what the reference yields**.
-/

namespace Packrat

/-! ## Agreement of items -/

/-- Lists of items that agree until one of them ends with an error of a kind, if it does. -/
inductive AgreeUpTo (E : ParseError → Prop) : List Item → List Item → Prop
  | nil : AgreeUpTo E [] []
  | cons (item : Item) {items items' : List Item} (h : AgreeUpTo E items items') :
    AgreeUpTo E (item :: items) (item :: items')
  | left {e : ParseError} (he : E e) (items : List Item) : AgreeUpTo E [.error e] items
  | right {e : ParseError} (he : E e) (items : List Item) : AgreeUpTo E items [.error e]

/-- Without such errors they are the same. -/
theorem AgreeUpTo.eq {E : ParseError → Prop} {items items' : List Item} (h : AgreeUpTo E items items')
    (hleft : ∀ e, .error e ∈ items → ¬ E e) (hright : ∀ e, .error e ∈ items' → ¬ E e) : items = items' := by
  induction h with
  | nil => rfl
  | cons item h ih =>
    rw [ih (fun e he => hleft e (List.mem_cons_of_mem _ he)) fun e he => hright e (List.mem_cons_of_mem _ he)]
  | left he items => exact absurd he (hleft _ List.mem_cons_self)
  | right he items => exact absurd he (hright _ List.mem_cons_self)

/-! ## Where skipping leads -/

namespace Coupling

variable {g : Grammar} {strategy : Memoization} {r : Bool}

/-- Runs in lockstep come to one outcome. -/
theorem Agree.outcomeOf_eq {x y : EStateM.Result Halt State Step}
    (h : (lockstep g strategy).Agree () r (Step.Alike true) x y) : Scan.outcomeOf x = Scan.outcomeOf y := by
  rcases h.inStep with ⟨e, s, s', rfl, rfl, -⟩ | ⟨step, step', s, s', rfl, rfl, halike, -⟩
  · rfl
  · obtain rfl := Step.alike_true halike
    rfl

theorem answerOf?_congr {x y : EStateM.Result Halt State Step} (h : Scan.outcomeOf x = Scan.outcomeOf y) :
    answerOf? x = answerOf? y := by
  cases x with
  | ok step s =>
    cases y with
    | ok step' s' =>
      obtain rfl := Except.ok.inj h
      rfl
    | error e s' => exact absurd h (by simp [Scan.outcomeOf])
  | error e s =>
    cases y with
    | ok step' s' => exact absurd h (by simp [Scan.outcomeOf])
    | error e' s' =>
      obtain rfl := Except.error.inj h
      rfl

/-- Where nothing is remembered, an attempt that skips first goes in lockstep with one where skipping leads. -/
theorem agree_lead {c : Context} (hc : c.IsPlain) (hapart : c.adjacent = false)
    (hlimit : ∀ limit ∈ c.config.recursionLimit, c.depth < limit) {i : ExprId} (hignores : (c.rule i).ignores = [])
    (n p : Nat) (acts : Bool) {s s' : State} (hs : s.memo = .off) (hs' : s'.memo = .off) :
    (lockstep c.grammar .disabled).Agree () r (Step.Alike true) (attemptWithin (n + 1) c i p acts true s)
      (attemptWithin (n + 1) c i ((c.rule i).lead c.text true p) acts false s') := by
  have hpair : LockstepPair c.grammar .disabled c.deeper c.deeper := ⟨⟨rfl, rfl, rfl, rfl⟩, hc, hc, rfl, rfl, rfl⟩
  have hattempt (p : Nat) (skips : Bool) :
      attemptWithin (n + 1) c i p acts skips = remember (attemptWithin n) c.deeper i p acts skips := by
    rcases attemptWithin_succ n c i p acts skips with ⟨limit, hl, hle, -⟩ | heq
    · exact absurd (hlimit limit hl) (Nat.not_lt.mpr hle)
    · exact heq
  have halike : State.Alike .disabled s.counted s'.counted := by
    refine ⟨?_, by simp⟩
    show s.memo.Alike s'.memo
    rw [hs, hs']
    exact .off
  rw [hattempt, hattempt, remember_off hs, remember_off hs', show c.deeper.adjacent = false from hapart]
  refine perform_linked_of_skip (K := lockstep c.grammar .disabled) (w := ()) hpair ?_ (fun start => ?_) _ _ halike
  · have hskip : skipLeading (attemptWithin n) c.deeper (c.rule i) p = pure ((c.rule i).lead c.text true p) :=
      skipLeading_eq hignores _ _ _
    show (lockstep c.grammar .disabled).Linked () r Eq (skipLeading (attemptWithin n) c.deeper (c.rule i) p) _
    rw [hskip]
    exact Linked.pure rfl
  · exact matchNode_lockstep (lockstep_agrees _ _ n) hpair i start acts

end Coupling

/-- There is fuel for an attempt. -/
theorem attemptFuel_pos (c : Context) : 0 < attemptFuel c := by
  unfold attemptFuel
  cases c.config.recursionLimit with
  | none => exact Nat.mul_pos (Nat.succ_pos _) (Nat.succ_pos _)
  | some limit => exact Nat.succ_pos limit

/-- The answer of a node without ignorables, asked to skip first, is the one where skipping leads. -/
theorem Grammar.settles_lead {g : Grammar} {t : Text} {i : ExprId} (hignores : (g.rule i).ignores = []) {p : Nat}
    {acts : Bool} {o : Answer} (h : g.Settles t ⟨i, p, acts, true, false⟩ o) :
    g.Settles t ⟨i, (g.rule i).lead t true p, acts, false, false⟩ o := by
  obtain ⟨k, hk⟩ := h
  cases k with
  | zero => exact absurd hk (by simp)
  | succ k =>
    refine ⟨k + 1, ?_⟩
    have hplain : (plainContext g t false).IsPlain := rfl
    have hunlimited : ∀ limit ∈ (plainContext g t false).config.recursionLimit, (plainContext g t false).depth < limit :=
      fun _ hlimit => absurd hlimit (by simp [plainContext])
    have hoff : (State.initial {}).memo = .off := rfl
    have hagree := Coupling.agree_lead (r := false) hplain rfl hunlimited hignores k p acts hoff hoff
    exact (Coupling.answerOf?_congr hagree.outcomeOf_eq).symm.trans hk

namespace Scan

/-! ## What attempts answer -/

section Answering

variable (c : Context) (E : ParseError → Prop) (I : State → Prop) (A : Nat → Answer → Prop)

/-- An outcome is the answer at a place, or a halt that is excused. -/
def Answers (q : Nat) (o : Answer) : Prop := A q o ∨ ∃ h, o = .error h ∧ E (h.toError c.text)

/-- Attempts of the root answer alike on their own and in a scan, from states with `I`: where skipping leads, with the
one answer that `A` has there. -/
structure Answering : Prop where
  ignores : (c.grammar.rule c.grammar.root).ignores = []
  placed : ∀ {s}, I s → s.Placed .places c.text
  unique : ∀ {q o o'}, A q o → A q o' → o = o'
  shared : ∀ {q s}, c.text.IsBoundary q → I s → Answers c E A q (outcomeOf (attempt c c c.grammar.root q true false s)) ∧
    ∀ step s', attempt c c c.grammar.root q true false s = .ok step s' → I s'
  alone : ∀ {q}, c.text.IsBoundary q →
    Answers c E A ((c.grammar.rule c.grammar.root).lead c.text true q) (rootFrom c q)

end Answering

namespace Answering

variable {c : Context} {E : ParseError → Prop} {I : State → Prop} {A : Nat → Answer → Prop} (h : Answering c E I A)
  {p q : Nat}
include h

/-- What there is to yield at a place is what the answer yields, or an excused error. -/
theorem itemAt?_eq (hq : c.text.IsBoundary q) {o : Answer}
    (ho : A ((c.grammar.rule c.grammar.root).lead c.text true q) o) :
    itemAt? c q = itemOf? c q o ∨ ∃ e, E e ∧ itemAt? c q = some (.error e) := by
  rcases h.alone hq with hA | ⟨halt, heq, hE⟩
  · rw [itemAt?, h.unique hA ho]
    exact Or.inl rfl
  · exact Or.inr ⟨_, hE, by rw [itemAt?, heq]; rfl⟩

/-- What the root answers where skipping leads ends there or further on. -/
theorem lead_le_stop (hp : c.text.IsBoundary p) {s s' : State} (hs : I s) {stop : Nat} {r : Results}
    (hrun : attempt c c c.grammar.root p true false s = .ok (.matched stop r) s') :
    p ≤ stop ∧ c.text.IsBoundary stop := by
  have hsound : (Upkeep.places c.grammar).Run c p (Sites.places.Holds c.text p) (attempt c c c.grammar.root p true false) :=
    Upkeep.attemptWithin_sound (Upkeep.places c.grammar) (attemptFuel c) rfl trivial hp
  have hkeeps := hsound s (h.placed hs)
  rw [hrun] at hkeeps
  exact ⟨hkeeps.1.le, hkeeps.1.site⟩

/-- A scan attempts the root where skipping leads. -/
theorem attemptAt_eq (p : Nat) (s : State) :
    attemptAt c p s = match attempt c c c.grammar.root ((c.grammar.rule c.grammar.root).lead c.text true p) true false s with
      | .ok step s' => .ok ((c.grammar.rule c.grammar.root).lead c.text true p, step) s'
      | .error e s' => .error e s' := by
  unfold attemptAt
  rw [skipLeading_eq h.ignores]
  simp only [pure_bind]
  cases hr : attempt c c c.grammar.root ((c.grammar.rule c.grammar.root).lead c.text true p) true false s with
  | ok step s' =>
    rw [bind_ok hr]
    rfl
  | error e s' => rw [bind_error hr]

/-- Where the answer is no progress from a position, there is nothing to yield up to where skipping leads, or an excused
error. -/
theorem itemAt?_of_miss (hp : c.text.IsBoundary p) {step : Step}
    (hA : A ((c.grammar.rule c.grammar.root).lead c.text true p) (.ok step)) (hmiss : ∀ stop r, step = .matched stop r → stop ≤ p)
    (hq : c.text.IsBoundary q) (hpq : p ≤ q) (hlast : q ≤ (c.grammar.rule c.grammar.root).lead c.text true p) :
    itemAt? c q = none ∨ ∃ e, E e ∧ itemAt? c q = some (.error e) := by
  rw [← Rule.lead_of_between _ hp hq hpq hlast] at hA
  have hnone : itemOf? c q (.ok step) = none := by
    cases step with
    | failed d => rfl
    | matched stop r => exact if_neg (Nat.not_lt.mpr ((hmiss stop r rfl).trans hpq))
  rw [← hnone]
  exact h.itemAt?_eq hq hA

end Answering

/-! ## Steps of a scan -/

/-- What one step of a scan comes to, next to the first item of the reference: both are over, yield one error or one
match, or either of them yields an excused error. -/
inductive Meets (c : Context) (E : ParseError → Prop) (I : State → Prop) : (first : Option Item) → Option Item × Scan → Prop
  | ended {s : Scan} : Meets c E I none (none, s)
  | error (e : ParseError) {s : Scan} (hdone : s.done = true) : Meets c E I (some (.error e)) (some (.error e), s)
  | found (f : Found) {s : State} (hs : I s) (hstop : c.text.IsBoundary f.stop) :
    Meets c E I (some (.ok f)) (some (.ok f), ⟨c, s, f.stop, false⟩)
  | left {e : ParseError} (he : E e) {first : Option Item} {s : Scan} (hdone : s.done = true) :
    Meets c E I first (some (.error e), s)
  | right {e : ParseError} (he : E e) {x : Option Item × Scan} : Meets c E I (some (.error e)) x

namespace Answering

variable {c : Context} {E : ParseError → Prop} {I : State → Prop} {A : Nat → Answer → Prop} (h : Answering c E I A)
  {p : Nat} {s : State}
include h

/-- **One step of a scan** finds the first item of the reference. -/
theorem nextWithin (fuel : Nat) (hs : I s) (hp : c.text.IsBoundary p ∨ c.text.size < p)
    (hfuel : c.text.size < p + fuel) : Meets c E I (firstItem? c p) (Scan.nextWithin fuel ⟨c, s, p, false⟩) := by
  induction fuel generalizing s p with
  | zero =>
    have hlt : c.text.size < p := hfuel
    rw [firstItem?_of_lt hlt]
    exact .ended
  | succ fuel ih =>
    unfold Scan.nextWithin
    by_cases hend : c.text.size < p
    · rw [firstItem?_of_lt hend, if_pos (by simp [hend])]
      exact .ended
    · rw [if_neg (by simp [hend])]
      have hp : c.text.IsBoundary p := hp.resolve_right hend
      let start := (c.grammar.rule c.grammar.root).lead c.text true p
      have hstart : c.text.IsBoundary start := Rule.isBoundary_lead _ hp true
      have hle : p ≤ start := Rule.le_lead _ _ _ _
      have hshared := h.shared hstart hs
      simp only [EStateM.run, h.attemptAt_eq]
      cases hr : attempt c c c.grammar.root start true false s with
      | error halt s' =>
        rw [hr] at hshared
        rcases hshared.1 with hA | ⟨halt', heq, hE⟩
        · rcases h.itemAt?_eq hp hA with hitem | ⟨e, he, hitem⟩
          · rw [firstItem?_of_itemAt? hp hitem]
            exact .error _ rfl
          · rw [firstItem?_of_itemAt? hp hitem]
            exact .right he
        · obtain rfl : halt = halt' := Except.error.inj heq
          exact .left hE rfl
      | ok step s' =>
        rw [hr] at hshared
        obtain ⟨hanswers, hkeeps⟩ := hshared
        have hs' : I s' := hkeeps step s' rfl
        have hA : A start (.ok step) := hanswers.resolve_right fun ⟨_, heq, _⟩ => absurd heq (by simp [outcomeOf])
        -- past a miss both go on from the place after the one where skipping leads
        have hmissed (hmiss : ∀ stop r, step = .matched stop r → stop ≤ p) :
            Meets c E I (firstItem? c p) (Scan.nextWithin fuel ⟨c, s', c.text.next start, false⟩) := by
          rcases firstItem?_of_misses hp hstart hle fun q hq => h.itemAt?_of_miss hp hA hmiss hq with heq | ⟨e, he, heq⟩
          · rw [heq]
            have hlt := c.text.lt_next start
            exact ih hs' hstart.next (by omega)
          · rw [heq]
            exact .right he
        cases step with
        | failed d => exact hmissed fun _ _ heq => absurd heq (by simp)
        | matched stop r =>
          dsimp only
          by_cases hlt : p < stop
          · rw [if_pos hlt]
            have hyields : itemOf? c p (.ok (.matched stop r)) = some (.ok ⟨r, start, stop⟩) := if_pos hlt
            rcases h.itemAt?_eq hp hA with hitem | ⟨e, he, hitem⟩
            · rw [firstItem?_of_itemAt? hp (hitem.trans hyields)]
              exact .found ⟨r, start, stop⟩ hs' (h.lead_le_stop hstart hs hr).2
            · rw [firstItem?_of_itemAt? hp hitem]
              exact .right he
          · rw [if_neg hlt]
            refine hmissed fun stop' r' heq => ?_
            obtain ⟨rfl, -⟩ := Step.matched.inj heq
            exact Nat.not_lt.mp hlt

/-- **A run of a scan** yields the items of the reference. -/
theorem collect (n : Nat) (hs : I s) (hp : c.text.IsBoundary p ∨ c.text.size < p) :
    AgreeUpTo E ((Scan.collect n ⟨c, s, p, false⟩).1.map (·.1)) (naive c n p) := by
  induction n generalizing s p with
  | zero => exact .nil
  | succ n ih =>
    have hmeets := h.nextWithin (c.text.size + 2) hs hp (by omega)
    unfold Scan.collect naive
    rw [Scan.next]
    revert hmeets
    generalize Scan.nextWithin (c.text.size + 2) ⟨c, s, p, false⟩ = x
    generalize firstItem? c p = first
    intro hmeets
    cases hmeets with
    | ended => exact .nil
    | error e hdone =>
      simp only [List.map_cons, collect_done hdone, List.map_nil]
      exact .cons _ .nil
    | found f hs hstop => exact .cons _ (ih hs (Or.inl hstop))
    | left he hdone =>
      simp only [List.map_cons, collect_done hdone, List.map_nil]
      exact .left he _
    | right he => exact .right he _

end Answering

/-! ## Modes -/

section Modes

variable {c : Context} (hapart : c.adjacent = false) (hignores : (c.grammar.rule c.grammar.root).ignores = [])
include hapart hignores

/-- Where nothing is remembered, attempts answer the same in whatever state they are made, at the limit of nesting as
well. -/
theorem answering_plain (hc : c.IsPlain) (hlimit : ∀ limit ∈ c.config.recursionLimit, c.depth < limit) :
    Answering c (fun _ => False) (fun s => s.memo = .off ∧ s.Placed .places c.text)
      fun q o => outcomeOf (attempt c c c.grammar.root q true false (State.initial c.config)) = o where
  ignores := hignores
  placed hs := hs.2
  unique ho ho' := ho.symm.trans ho'
  shared := by
    intro q s hq hs
    have halike : State.Alike .disabled s (State.initial c.config) := by
      refine ⟨?_, by simp⟩
      rw [hs.1, hc.initial_off]
      exact .off
    have hpair : Coupling.LockstepPair c.grammar .disabled c c := ⟨⟨rfl, rfl, rfl, rfl⟩, hc, hc, rfl, rfl, rfl⟩
    have hlinked : (Coupling.lockstep c.grammar .disabled).Linked () false (Step.Alike true)
        (attempt c c c.grammar.root q true false) (attempt c c c.grammar.root q true false) :=
      Coupling.lockstep_agrees _ _ _ hpair trivial fun _ => rfl
    refine ⟨Or.inl (hlinked _ _ halike).outcomeOf_eq.symm, fun step s' hrun => ⟨?_, ?_⟩⟩
    · exact memo_attemptWithin rfl hc hs.1 _ _ q true false hrun
    · have hsound : (Upkeep.places c.grammar).Run c q (Sites.places.Holds c.text q)
          (attempt c c c.grammar.root q true false) :=
        Upkeep.attemptWithin_sound (Upkeep.places c.grammar) (attemptFuel c) rfl trivial hq
      have hkeeps := hsound s hs.2
      rw [hrun] at hkeeps
      exact hkeeps.2
  alone := by
    intro q hq
    left
    obtain ⟨n, hn⟩ : ∃ n, attemptFuel c = n + 1 := Nat.exists_eq_succ_of_ne_zero (attemptFuel_pos c).ne'
    have hagree := Coupling.agree_lead (r := false) hc hapart hlimit hignores n q true hc.initial_off hc.initial_off
    rw [rootFrom, attempt, hn]
    exact hagree.outcomeOf_eq.symm

omit hignores in
/-- Where outcomes are remembered, an attempt of the root answers what settles its key, unless it nests too deeply. -/
theorem answers_key (hseedless : c.config.memoization ≠ .leftRecursion) {q : Nat} (hq : c.text.IsBoundary q)
    (skips : Bool) {s : State} (hs : s.Truthful c.grammar c.text) :
    Answers c (fun e => e.isTooDeep = true) (fun q o => c.grammar.Settles c.text ⟨c.grammar.root, q, true, skips, false⟩ o)
        q (outcomeOf (attempt c c c.grammar.root q true skips s)) ∧
      ∀ step s', attempt c c c.grammar.root q true skips s = .ok step s' → s'.Truthful c.grammar c.text := by
  have hadequate := attemptWithin_adequate rfl hseedless (attemptFuel c) c.grammar.root hq true skips hs
  rw [Context.key, hapart] at hadequate
  unfold attempt
  cases hr : attemptWithin (attemptFuel c) c c.grammar.root q true skips s with
  | ok step s' =>
    rw [hr] at hadequate
    refine ⟨Or.inl hadequate.1, fun _ _ heq => ?_⟩
    obtain ⟨-, rfl⟩ := EStateM.Result.ok.inj heq
    exact hadequate.2
  | error halt s' =>
    rw [hr] at hadequate
    refine ⟨?_, fun _ _ heq => absurd heq (by simp)⟩
    rcases hadequate.1 with htoo | hsettles
    · exact Or.inr ⟨halt, rfl, (Halt.isTooDeep_toError _ _).trans htoo⟩
    · exact Or.inl hsettles

/-- Where outcomes are remembered, attempts answer what settles their keys, unless they nest too deeply. -/
theorem answering_remembering (hseedless : c.config.memoization ≠ .leftRecursion) :
    Answering c (fun e => e.isTooDeep = true) (State.Truthful c.grammar c.text)
      fun q o => c.grammar.Settles c.text ⟨c.grammar.root, q, true, false, false⟩ o where
  ignores := hignores
  placed hs := hs.placed
  unique ho ho' := ho.unique ho'
  shared hq hs := answers_key hapart hseedless hq false hs
  alone hq := by
    have hinitial := State.Truthful.initial c.grammar c.text c.config
    exact (answers_key hapart hseedless hq true hinitial).1.imp_left (Grammar.settles_lead hignores)

end Modes

/-- Under the limit zero, the first attempt of a scan is one too many. -/
theorem collect_of_limit_zero {g : Grammar} (hignores : (g.rule g.root).ignores = []) {config : Config}
    (hlimit : config.recursionLimit = some 0) (watch : Watch) (t : Text) (n : Nat) :
    ((Scan.new g config watch t).collect n).1.map (·.1)
      = [Except.error (.recursionLimit 0 ((g.rule g.root).lead t true 0))].take n := by
  let c := Context.top g config watch t
  have hhalt (q : Nat) (s : State) : attempt c c g.root q true false s = .error (.recursionLimit 0 q) s := by
    have hl : c.config.recursionLimit = some 0 := hlimit
    rw [attempt, attemptFuel, hl, attemptWithin, hl]
    rfl
  have hattempt : attemptAt c 0 (State.initial config)
      = .error (.recursionLimit 0 ((g.rule g.root).lead t true 0)) (State.initial config) := by
    have hskip : skipLeading (attempt c) c (c.grammar.rule c.grammar.root) 0 = pure ((g.rule g.root).lead t true 0) :=
      skipLeading_eq hignores _ _ _
    rw [attemptAt, hskip]
    simp only [pure_bind]
    exact bind_error (hhalt _ _)
  cases n with
  | zero => rfl
  | succ n =>
    have hnext : (Scan.new g config watch t).next
        = (some (.error (.recursionLimit 0 ((g.rule g.root).lead t true 0))),
          { Scan.new g config watch t with done := true }) := by
      unfold next nextWithin
      rw [if_neg (by simp [Scan.new])]
      simp only [EStateM.run]
      rw [show attemptAt (Scan.new g config watch t).context (Scan.new g config watch t).position
        (Scan.new g config watch t).state = _ from hattempt]
      rfl
    rw [collect, hnext]
    simp only [List.map_cons, collect_done, List.map_nil, List.take_succ_cons, List.take_nil]

end Scan

/-- **A scan yields what the reference yields**, where the root has no ignorables. -/
theorem scan_eq_naive (g : Grammar) (hignores : (g.rule g.root).ignores = []) (config : Config) (watch : Watch) (t : Text)
    (n : Nat) :
    let c := Context.top g config watch t
    let items := ((Scan.new g config watch t).collect n).1.map (·.1)
    (config.memoization = .disabled → config.recursionLimit ≠ some 0 → items = Scan.naive c n 0) ∧
    (config.recursionLimit = some 0 → items = [.error (.recursionLimit 0 ((g.rule g.root).lead t true 0))].take n) ∧
    (∀ capacity, config.memoization = .packrat capacity →
      AgreeUpTo (fun e => e.isTooDeep = true) items (Scan.naive c n 0)) ∧
    Scan.Proceeds c 0 items ∧ items.length ≤ t.size + 1 ∧ (Scan.new g config watch t).collectAll.2.done = true := by
  intro c items
  have hscanning : (Upkeep.places g).Scanning t (Scan.new g config watch t) := Upkeep.Scanning.new config watch t
  have hproceeds (n : Nat) : Scan.Proceeds c 0 (((Scan.new g config watch t).collect n).1.map (·.1)) :=
    Scan.collect_proceeds n hscanning
  have hlength (n : Nat) : ((Scan.new g config watch t).collect n).1.length ≤ t.size + 1 := by
    have hle := (hproceeds n).length_le (Nat.zero_le _)
    rw [List.length_map, Nat.zero_add] at hle
    exact hle
  refine ⟨fun hmode hlimit => ?_, fun hlimit => Scan.collect_of_limit_zero hignores hlimit watch t n,
    fun capacity hmode => ?_, hproceeds n, by rw [List.length_map]; exact hlength n, ?_⟩
  · have hanswering := Scan.answering_plain (c := c) rfl hignores hmode fun limit hl =>
      Nat.pos_of_ne_zero fun hzero => hlimit (hzero ▸ hl)
    have hplain : c.IsPlain := hmode
    have hagree : AgreeUpTo (fun _ => False) items (Scan.naive c n 0) :=
      hanswering.collect n ⟨hplain.initial_off, State.Placed.initial _ _ _⟩ (Or.inl (Text.isBoundary_zero _))
    exact hagree.eq (fun _ _ => id) fun _ _ => id
  · have hanswering := Scan.answering_remembering (c := c) rfl hignores (by rw [show c.config.memoization = _ from hmode]; simp)
    exact hanswering.collect n (State.Truthful.initial _ _ _) (Or.inl (Text.isBoundary_zero _))
  · show ((Scan.new g config watch t).collect (t.size + 2)).2.done = true
    exact Scan.collect_over hscanning (Nat.lt_succ_of_le (hlength _))

/-- A letter that may be left out, in a text with blanks and a letter of two bytes: plainly, and with a small table. -/
theorem scan_eq_naive_optionalLetter :
    let t : Text := [' ', 'a', 'x', 'é', ' ']
    let plain := Config.plain {}
    let remembering : Config := { memoization := .packrat (some 3) }
    ((Scan.new optionalLetter plain default t).collect 9).1.map (·.1) = Scan.naive (.top optionalLetter plain default t) 9 0 ∧
      ((Scan.new optionalLetter remembering default t).collect 9).1.map (·.1)
        = Scan.naive (.top optionalLetter remembering default t) 9 0 := by
  intro t plain remembering
  have hignores : (optionalLetter.rule optionalLetter.root).ignores = [] := by decide
  constructor
  · exact (scan_eq_naive optionalLetter hignores plain default t 9).1 rfl (by decide)
  · have hscan : (((Scan.new optionalLetter remembering default t).collect 9).1.map (·.1)).all
        (fun item => decide (¬ TooDeep item)) = true := by decide +kernel
    have hnaive : (Scan.naive (.top optionalLetter remembering default t) 9 0).all
        (fun item => decide (¬ TooDeep item)) = true := by decide +kernel
    have hagree := (scan_eq_naive optionalLetter hignores remembering default t 9).2.2.1 (some 3) rfl
    exact hagree.eq (fun e he => of_decide_eq_true (List.all_eq_true.mp hscan _ he))
      fun e he => of_decide_eq_true (List.all_eq_true.mp hnaive _ he)

/-- A grouped letter, attempted near the root when it is not what is wanted, and further down when it is. -/
def groupedLetter : Grammar :=
  Grammar.ofKinds [.literal "a" false, .literal "b" false, .group 1, .literal "z" false, .sequence [0, 2, 3], .notAhead 0,
    .orderedChoice [2], .orderedChoice [6], .sequence [5, 7], .orderedChoice [4, 8]] 9

/-- A letter in groups, attempted after another letter and on its own. -/
def nestedLetter : Grammar :=
  Grammar.ofKinds [.literal "a" false, .literal "b" false, .group 1, .group 2, .literal "z" false, .sequence [0, 3, 4],
    .empty, .sequence [6, 3, 4], .group 2, .group 8, .group 9, .orderedChoice [5, 7, 10]] 11

/-- At the limit of nesting a scan and the reference differ. The group that an earlier attempt has left takes no room in
the scan; or it does, where the table has kept the outcome around it instead; and under the limit zero the error of the
scan is where skipping leads. -/
theorem not_scan_eq_naive :
    let deep (capacity : Nat) : Config := { memoization := .packrat (some capacity), recursionLimit := some 5 }
    let shallow : Config := { memoization := .disabled, recursionLimit := some 0 }
    ((Scan.new groupedLetter (deep 30) default ['a', 'b']).collect 1).1.map (·.1)
        ≠ Scan.naive (.top groupedLetter (deep 30) default ['a', 'b']) 1 0 ∧
      ((Scan.new nestedLetter (deep 15) default ['a', 'b']).collect 1).1.map (·.1)
        ≠ Scan.naive (.top nestedLetter (deep 15) default ['a', 'b']) 1 0 ∧
      ((Scan.new optionalLetter shallow default [' ', 'a']).collect 1).1.map (·.1)
        ≠ Scan.naive (.top optionalLetter shallow default [' ', 'a']) 1 0 := by
  intro deep shallow
  refine ⟨fun h => ?_, fun h => ?_, fun h => ?_⟩
  · exact absurd (congrArg (List.map Except.isOk) h) (by decide +kernel)
  · exact absurd (congrArg (List.map Except.isOk) h) (by decide +kernel)
  · have hplaces := congrArg (List.map fun item : Item => match item with
      | .error e => e.position?
      | .ok _ => none) h
    exact absurd hplaces (by decide +kernel)

end Packrat
