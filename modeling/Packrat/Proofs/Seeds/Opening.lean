import Packrat.Proofs.Seeds.Safety

/-!
# `Packrat.Proofs.Seeds.Opening` — forwards that are open

A run that grows seeds is compared with a plain one. A seed in the table is either the first or half-grown seed
of a forward that is being attempted, or a failure that stayed behind. The plain run can only attempt an open
forward again by nesting too deeply, so the first kind is never looked up; and in a safe grammar a failure that
stayed behind is the answer of the plain run.

## Contents

* `Pending` — the text of a run and the seeds of its open forwards;
* `Coupling.seeded` — a plain run and one that grows seeds;
* `FirstAnswer` — the answer of a target, at the least room that gives any;
* `Opening` — one forward more is open, and `Opening.growSeed_answers` — two rounds of growth come to the first
  answer of its target.
-/

namespace Packrat

/-! ## Open forwards -/

/-- The plain attempt that a seed answers, inside or outside a combined region. -/
def SeedKey.attempt (key : SeedKey) (adjacent : Bool) : MemoKey :=
  ⟨key.forward, key.position, key.acts, false, adjacent⟩

/-- The text of a run, and the seeds of the forwards that are open in it. -/
structure Pending where
  text : Text
  seeds : SeedKey → Option Step

namespace Pending

/-- What stays behind for a forward that is not open: a failure that the plain run comes to, wherever it attempts
the forward. -/
def Stale (g : Grammar) (w : Pending) (key : SeedKey) (step : Step) : Prop :=
  ∃ d, step = .failed d ∧ ∀ b r, g.Visits b r key.forward → g.Settles w.text (key.attempt b) (.ok step)

/-- What a table may hold under a key: the seed of an open forward, or else only a failure that stayed behind. -/
def AllowsAt (g : Grammar) (w : Pending) (seeds : Seeds) (key : SeedKey) : Prop :=
  match w.seeds key with
  | some step => seeds.get? key = some step
  | none => ∀ step, seeds.get? key = some step → w.Stale g key step

/-- A table holds the seeds of the open forwards, and besides them only failures that stayed behind. -/
def Allows (g : Grammar) (w : Pending) (seeds : Seeds) : Prop := ∀ key, w.AllowsAt g seeds key

/-- The plain run has no answer for the open forwards, given some room. -/
def Unanswered (g : Grammar) (w : Pending) (k : Nat) : Prop :=
  ∀ key, (w.seeds key).isSome = true → ∀ acts b r, g.Visits b r key.forward →
    g.answer? w.text k ⟨key.forward, key.position, acts, false, b⟩ = none

/-- One more open forward. -/
def opening (w : Pending) (keys : SeedKeys) (acts : Bool) (seed : Bool → Step) : Pending :=
  { w with seeds := fun key => if keys.Owns acts key then some (seed key.acts) else w.seeds key }

variable {g : Grammar} {w : Pending} {seeds : Seeds} {keys : SeedKeys} {acts : Bool}

theorem Unanswered.mono {k k' : Nat} (h : w.Unanswered g k) (hk : k' ≤ k) : w.Unanswered g k' := by
  intro key hkey acts b r hb
  cases ho : g.answer? w.text k' ⟨key.forward, key.position, acts, false, b⟩ with
  | none => rfl
  | some o => exact absurd ((h key hkey acts b r hb).symm.trans (Grammar.answer?_of_le hk ho)) (by simp)

theorem AllowsAt.congr {seeds' : Seeds} {key : SeedKey} (h : w.AllowsAt g seeds key)
    (hget : seeds'.get? key = seeds.get? key) : w.AllowsAt g seeds' key := by
  unfold AllowsAt
  rw [hget]
  exact h

/-- A forward is opened by setting its seeds. -/
theorem allows_opening {seed : Bool → Step}
    (howned : ∀ key, keys.Owns acts key → seeds.get? key = some (seed key.acts))
    (hother : ∀ key, ¬ keys.Owns acts key → w.AllowsAt g seeds key) : (w.opening keys acts seed).Allows g seeds := by
  intro key
  by_cases hkey : keys.Owns acts key
  · simp only [AllowsAt, Pending.opening, if_pos hkey]
    exact howned key hkey
  · simp only [AllowsAt, Pending.opening, if_neg hkey]
    exact hother key hkey

theorem Allows.owned {seed : Bool → Step} (h : (w.opening keys acts seed).Allows g seeds) {key : SeedKey}
    (hkey : keys.Owns acts key) : seeds.get? key = some (seed key.acts) := by
  have hold := h key
  simp only [AllowsAt, Pending.opening, if_pos hkey] at hold
  exact hold

theorem Allows.other {seed : Bool → Step} (h : (w.opening keys acts seed).Allows g seeds) {key : SeedKey}
    (hkey : ¬ keys.Owns acts key) : w.AllowsAt g seeds key := by
  have hold := h key
  simp only [AllowsAt, Pending.opening, if_neg hkey] at hold
  exact hold

/-- A forward is closed when what is left under its keys is nothing, or a failure that the plain run comes to. -/
theorem allows_closing (hclosed : ∀ key, keys.Owns acts key → w.seeds key = none)
    (howned : ∀ key, keys.Owns acts key → ∀ step, seeds.get? key = some step → w.Stale g key step)
    (hother : ∀ key, ¬ keys.Owns acts key → w.AllowsAt g seeds key) : w.Allows g seeds := by
  intro key
  by_cases hkey : keys.Owns acts key
  · unfold AllowsAt
    rw [hclosed key hkey]
    exact howned key hkey
  · exact hother key hkey

end Pending

namespace Coupling

/-! ## Plain and seeded runs -/

/-- Contexts of a plain run and of one that grows seeds, the second with at least the room `k` and the first with
at most that. -/
structure SeedPair (g : Grammar) (w : Pending) (n m k : Nat) (c₁ c₂ : Context) : Prop where
  alike : Context.Alike g c₁ c₂
  text : c₁.text = w.text
  plain : c₁.IsPlain
  seeded : c₂.config.memoization = .leftRecursion
  unbounded : c₂.config.growthLimit = none
  room₁ : c₁.room n ≤ k
  room₂ : k ≤ c₂.room m
  unanswered : w.Unanswered g k

/-- A plain run and one that grows seeds. -/
@[reducible] def seeded (g : Grammar) (n m k : Nat) : Coupling g where
  World := Pending
  exact := true
  state w s₁ s₂ := s₁.memo = .off ∧ s₂.memo = .off ∧ w.Allows g s₂.seeds
  contexts w := SeedPair g w n m k
  nodes := g.Visits
  state_congr := fun hs h₁ h₂ => ⟨h₁.memo.trans hs.1, h₂.memo.trans hs.2.1, h₂.seeds ▸ hs.2.2⟩
  alike := fun hc => hc.alike
  combined := fun hc => ⟨⟨hc.alike.1, hc.alike.2, hc.alike.3, rfl⟩, hc.2, hc.3, hc.4, hc.5, hc.6, hc.7, hc.8⟩
  behind := by
    intro w c₁ c₂ hc p
    refine ⟨⟨(c₁.behind p).text, fun _ => none⟩, ⟨⟨hc.alike.1, hc.alike.2, ?_, rfl⟩, rfl, hc.3, hc.4, hc.5, hc.6,
      hc.7, fun key hkey => absurd hkey (by simp)⟩, ?_, ?_, fun key step h => absurd h (by simp [State.initial])⟩
    · exact congrArg (Text.before · p) hc.alike.text
    · rw [State.initial, hc.plain, Memo.ofStrategy]
    · rw [State.initial, hc.seeded, Memo.ofStrategy]
  nodes_within := .within
  nodes_recovering := .recovering
  nodes_combined := .combined
  nodes_behind := .behind

/-! ## The answer of a target -/

/-- The answers of an attempt without and with actions, at the least room that gives any. -/
structure FirstAnswer (g : Grammar) (t : Text) (adjacent : Bool) (target : ExprId) (p k : Nat) (o : Bool → Answer) :
    Prop where
  answer : ∀ acts, g.answer? t k ⟨target, p, acts, false, adjacent⟩ = some (o acts)
  alike : (o false).Alike false (o true)
  least : ∀ j < k, ∀ acts, g.answer? t j ⟨target, p, acts, false, adjacent⟩ = none

/-- Where no action refuses a match, an attempt that has an answer has a first one, with actions and without. -/
theorem exists_firstAnswer {g : Grammar} {N : ExprId → Prop} (hN : g.Closed N) (haccepting : g.Accepting N)
    {t : Text} {adjacent : Bool} {target : ExprId} (htarget : N target) {p k : Nat} {acts : Bool} {x : Answer}
    (h : g.answer? t k ⟨target, p, acts, false, adjacent⟩ = some x) :
    ∃ j ≤ k, ∃ o, FirstAnswer g t adjacent target p j o ∧ o acts = x := by
  have hprobe {j : Nat} {a : Bool} (b : Bool) {y : Answer}
      (hy : g.answer? t j ⟨target, p, a, false, adjacent⟩ = some y) :
      ∃ y', g.answer? t j ⟨target, p, b, false, adjacent⟩ = some y' ∧ y.Alike false y' :=
    Grammar.answer?_probe hN haccepting htarget b hy
  have hex : ∃ j y, g.answer? t j ⟨target, p, false, false, adjacent⟩ = some y := by
    obtain ⟨y, hy, -⟩ := hprobe false h
    exact ⟨k, y, hy⟩
  classical
  let j := Nat.find hex
  obtain ⟨y, hy⟩ : ∃ y, g.answer? t j ⟨target, p, false, false, adjacent⟩ = some y := Nat.find_spec hex
  obtain ⟨z, hz, halike⟩ := hprobe true hy
  have hj : j ≤ k := by
    obtain ⟨y', hy', -⟩ := hprobe false h
    exact Nat.find_min' hex ⟨y', hy'⟩
  refine ⟨j, hj, fun b => if b then z else y, ⟨fun b => ?_, halike, fun i hi b => ?_⟩, ?_⟩
  · cases b with
    | false => exact hy
    | true => exact hz
  · cases hb : g.answer? t i ⟨target, p, b, false, adjacent⟩ with
    | none => rfl
    | some u =>
      obtain ⟨u', hu', -⟩ := hprobe false hb
      exact absurd ⟨u', hu'⟩ (Nat.find_min hex hi)
  · cases acts with
    | false => exact Option.some.inj ((Grammar.answer?_of_le hj hy).symm.trans h)
    | true => exact Option.some.inj ((Grammar.answer?_of_le hj hz).symm.trans h)

/-! ## Growth of a seed -/

/-- A forward is attempted, and the plain run has room enough for an answer of its target but not for one of the
open forwards. Attempts that nest in this one are compared with plain ones that have just that room. -/
structure Opening (g : Grammar) (w : Pending) (m : Nat) (c : Context) (r : Bool) (f target : ExprId) (p j : Nat)
    (o : Bool → Answer) : Prop where
  safe : g.SeedSafe
  kind : ∃ label, (g.rule f).kind = .forward label (some target)
  visited : g.Visits c.adjacent r f
  pair : SeedPair g w j m j (plainContext g w.text c.adjacent) c
  agrees : (seeded g j m j).Agrees (attemptWithin j) (attemptWithin m)
  first : FirstAnswer g w.text c.adjacent target p j o

namespace Opening

variable {g : Grammar} {m : Nat} {w : Pending} {c : Context} {r : Bool} {f target : ExprId} {p j : Nat}
  {o : Bool → Answer} (h : Opening g w m c r f target p j o)
include h

theorem isForward : g.IsForward f := by
  obtain ⟨label, hk⟩ := h.kind
  exact ⟨label, target, hk⟩

/-- The answer of the forward is the one of its target, at one more level. -/
theorem answer?_succ (k : Nat) (acts : Bool) :
    g.answer? w.text (k + 1) ⟨f, p, acts, false, c.adjacent⟩
      = (g.answer? w.text k ⟨target, p, acts, false, c.adjacent⟩).map (Answer.withOrigin f) := by
  obtain ⟨label, hk⟩ := h.kind
  exact Grammar.answer?_forward hk p acts c.adjacent

/-- The forward has no answer before its target has one. -/
theorem answer?_none (acts : Bool) : g.answer? w.text j ⟨f, p, acts, false, c.adjacent⟩ = none := by
  cases j with
  | zero => rfl
  | succ i =>
    rw [h.answer?_succ, h.first.least i (Nat.lt_succ_self i)]
    rfl

/-- While the forward is open as well, the plain run still has no answer for what is open. -/
theorem unanswered (acts : Bool) (seed : Bool → Step) : (w.opening ⟨p, f⟩ acts seed).Unanswered g j := by
  intro key hkey b a r' ha
  by_cases howned : (SeedKeys.mk p f).Owns acts key
  · rw [howned.eq] at ha ⊢
    have hadj : a = c.adjacent := h.safe.separate h.isForward ha h.visited
    rw [hadj]
    exact h.answer?_none b
  · have hkey' : (w.seeds key).isSome = true := by simpa [Pending.opening, howned] using hkey
    exact h.pair.unanswered key hkey' b a r' ha

/-- An attempt of the target while the forward is open comes to its first answer, and leaves the open seeds
alone. -/
theorem attempt_target {acts : Bool} {seed : Bool → Step} (b : Bool) {s : State} (hs : s.memo = .off)
    (hseeds : (w.opening ⟨p, f⟩ acts seed).Allows g s.seeds) :
    (∃ e s', o b = .error e ∧ attemptWithin m c target p b false s = .error e s') ∨
      ∃ step s', o b = .ok step ∧ attemptWithin m c target p b false s = .ok step s' ∧ s'.memo = .off ∧
        (w.opening ⟨p, f⟩ acts seed).Allows g s'.seeds := by
  obtain ⟨label, hk⟩ := h.kind
  have hpair : SeedPair g (w.opening ⟨p, f⟩ acts seed) j m j (plainContext g w.text c.adjacent) c :=
    ⟨h.pair.1, h.pair.2, h.pair.3, h.pair.4, h.pair.5, h.pair.6, h.pair.7, h.unanswered acts seed⟩
  have hlinked : (seeded g j m j).Linked (w.opening ⟨p, f⟩ acts seed) r (Step.Alike true)
      (attemptWithin j (plainContext g w.text c.adjacent) target p b false) (attemptWithin m c target p b false) :=
    h.agrees hpair (h.visited.within (by simp [hk, NodeKind.within, NodeKind.children])) fun _ => rfl
  rcases (hlinked (State.initial {}) s ⟨rfl, hs, hseeds⟩).ends (h.first.answer b) with
    ⟨e, s', hb, h⟩ | ⟨step, s₁, s', hb, -, h, hstate⟩
  · exact Or.inl ⟨e, s', hb, h⟩
  · exact Or.inr ⟨step, s', hb, h, hstate.2⟩

/-- When the answer is a step, the attempt of the target comes to it. -/
theorem attempt_step {acts : Bool} {seed : Bool → Step} {b : Bool} {step : Step} (hstep : o b = .ok step)
    {s : State} (hs : s.memo = .off) (hseeds : (w.opening ⟨p, f⟩ acts seed).Allows g s.seeds) :
    ∃ s', attemptWithin m c target p b false s = .ok step s' ∧ s'.memo = .off ∧
      (w.opening ⟨p, f⟩ acts seed).Allows g s'.seeds := by
  rcases h.attempt_target b hs hseeds with ⟨e, s', hb, -⟩ | ⟨step', s', hb, hrun⟩
  · exact absurd (hb.symm.trans hstep) (by simp)
  · obtain rfl : step' = step := Except.ok.inj (hb.symm.trans hstep)
    exact ⟨s', hrun⟩

/-- A match of the target is found again with actions, when these are to run, and both become seeds. -/
theorem advanceSeed_matched {acts : Bool} {stop : Nat} {x : Bool → Results}
    (hmatched : ∀ b, o b = .ok (.matched stop (x b)))
    {seed : Bool → Step} {s : State} (hs : s.memo = .off)
    (hseeds : (w.opening ⟨p, f⟩ acts seed).Allows g s.seeds) :
    ∃ s', advanceSeed (attemptWithin m) c ⟨p, f⟩ target acts (.matched stop (x false)) s = .ok none s' ∧
      s'.memo = .off ∧ (w.opening ⟨p, f⟩ acts fun b => .matched stop (x b)).Allows g s'.seeds := by
  cases acts with
  | false =>
    refine ⟨s.withSeeds _, advanceSeed_false _ s, hs, Pending.allows_opening ?_ ?_⟩
    · intro key hkey
      obtain rfl : key = (SeedKeys.mk p f).key false := by simpa [SeedKeys.Owns] using hkey
      exact Seeds.get?_insert_self _ _ _
    · intro key hkey
      exact (hseeds.other hkey).congr (Seeds.get?_insert_of_ne _ _ fun he => hkey (Or.inl he))
  | true =>
    obtain ⟨s₁, h₁, hs₁, hseeds₁⟩ := h.attempt_step (hmatched true) hs hseeds
    refine ⟨s₁.withSeeds (SeedKeys.advance ⟨p, f⟩ _ _), advanceSeed_true _ h₁, hs₁,
      Pending.allows_opening ?_ ?_⟩
    · intro key hkey
      rcases hkey with rfl | ⟨-, rfl⟩
      · exact SeedKeys.get?_advance_false _ _ _
      · exact SeedKeys.get?_advance_true _ _ _
    · intro key hkey
      exact (hseeds₁.other hkey).congr (SeedKeys.get?_advance_of_not_owns hkey _ _ _)

variable {acts : Bool} (hclosed : ∀ key, (SeedKeys.mk p f).Owns acts key → w.seeds key = none)
include hclosed

/-- The second round ends where the first did: the seed is the answer, and is removed. -/
theorem growRounds_settled {stop : Nat} {x : Bool → Results} (hmatched : ∀ b, o b = .ok (.matched stop (x b)))
    {s : State} (hs : s.memo = .off) (hseeds : (w.opening ⟨p, f⟩ acts fun b => .matched stop (x b)).Allows g s.seeds)
    (limit fuel rounds : Nat) :
    ∃ s', growRounds (attemptWithin m) c (g.rule f) ⟨p, f⟩ target limit acts (fuel + 1) rounds
        ⟨some stop, .matched stop (x false)⟩ s = .ok (.matched stop (x acts)) s' ∧
      s'.memo = .off ∧ w.Allows g s'.seeds := by
  obtain ⟨s₁, h₁, hs₁, hseeds₁⟩ := h.attempt_step (hmatched false) hs hseeds
  have hend : furtherEnd (some stop) (some stop) = false := by simp [furtherEnd]
  refine ⟨s₁.withSeeds (SeedKeys.unset ⟨p, f⟩ acts), ?_, hs₁,
    Pending.allows_closing hclosed ?_ ?_⟩
  · rw [growRounds_release h₁ (Or.inl rfl) hend, release_eq]
    cases acts with
    | false => rfl
    | true =>
      rw [if_pos rfl, hseeds₁.owned (Or.inr ⟨rfl, rfl⟩)]
      rfl
  · intro key hkey step hget
    rw [State.withSeeds_seeds, SeedKeys.get?_unset_of_owns hkey] at hget
    exact absurd hget (by simp)
  · intro key hkey
    exact (hseeds₁.other hkey).congr (SeedKeys.get?_unset_of_not_owns hkey _)

/-- A failure of the target stays behind as the seed. -/
theorem allows_refused {d : Diagnostic} (hboth : ∀ b, o b = .ok (.failed d)) {seed : Bool → Step} {s : State}
    (hseeds : (w.opening ⟨p, f⟩ acts seed).Allows g s.seeds) :
    w.Allows g (s.withSeeds (SeedKeys.set ⟨p, f⟩ acts (.failed d))).seeds := by
  refine Pending.allows_closing hclosed (fun key hkey step hget => ?_) fun key hkey =>
    (hseeds.other hkey).congr (SeedKeys.get?_set_of_not_owns hkey _ _)
  rw [State.withSeeds_seeds, SeedKeys.get?_set_of_owns hkey] at hget
  obtain rfl := Option.some.inj hget
  have hsettled (b : Bool) : g.answer? w.text (j + 1) ⟨f, p, b, false, c.adjacent⟩ = some (.ok (.failed d)) := by
    rw [h.answer?_succ, h.first.answer b, hboth b]
    rfl
  refine ⟨d, rfl, fun a r' ha => ⟨j + 1, ?_⟩⟩
  rw [hkey.eq] at ha ⊢
  -- wherever else the forward is attempted, it is in the same region
  have hadj : a = c.adjacent := h.safe.separate h.isForward ha h.visited
  rw [hadj]
  exact hsettled key.acts

/-- A forward that has no seed grows one, in at most two rounds: the outcome is the first answer of its target. -/
theorem growSeed_answers {s : State} (hs : s.memo = .off) (hseeds : w.Allows g s.seeds)
    (hnew : s.seeds.get? ⟨p, f, acts⟩ = none) :
    (∃ e s', o acts = .error e ∧ growSeed (attemptWithin m) c (g.rule f) f target p acts s = .error e s') ∨
      ∃ step s', o acts = .ok step ∧ growSeed (attemptWithin m) c (g.rule f) f target p acts s = .ok step s' ∧
        s'.memo = .off ∧ w.Allows g s'.seeds := by
  have halike := h.first.alike
  have hfirst : (w.opening ⟨p, f⟩ acts fun _ => firstSeed p).Allows g
      (s.withSeeds (SeedKeys.set ⟨p, f⟩ acts (firstSeed p))).seeds :=
    Pending.allows_opening (fun key hkey => SeedKeys.get?_set_of_owns hkey _ _)
      fun key hkey => (hseeds key).congr (SeedKeys.get?_set_of_not_owns hkey _ _)
  have hlimit : growthBound c p = c.text.size - p + 1 := by rw [growthBound, h.pair.unbounded]; rfl
  rw [growSeed_opens hnew, hlimit]
  rcases h.attempt_target false (s := s.withSeeds _) hs hfirst with
    ⟨e, s₁, hfalse, h₁⟩ | ⟨step, s₁, hfalse, h₁, hs₁, hseeds₁⟩
  · -- the first round halts, and so does the answer with actions
    rw [hfalse] at halike
    refine Or.inl ⟨e, s₁, ?_, growRounds_error h₁⟩
    cases acts with
    | false => exact hfalse
    | true => exact halike.error_eq
  · rw [hfalse] at halike
    obtain ⟨step', htrue, hstep⟩ := halike.ok_eq
    rcases hstep.cases with ⟨stop, x, x', rfl, rfl, -⟩ | ⟨d, rfl, rfl⟩
    · -- a match, which the second round finds again
      have hmatched (b : Bool) : o b = .ok (.matched stop (if b then x' else x)) := by
        cases b with
        | false => exact hfalse
        | true => exact htrue
      obtain ⟨s₂, h₂, hs₂, hseeds₂⟩ := h.advanceSeed_matched hmatched (s := s₁.grown) hs₁ hseeds₁
      obtain ⟨s₃, h₃, hs₃, hseeds₃⟩ := h.growRounds_settled hclosed hmatched hs₂ hseeds₂
        (c.text.size - p + 1) c.text.size 1
      refine Or.inr ⟨_, s₃, hmatched acts, ?_, hs₃, hseeds₃⟩
      rw [growRounds_grow h₁ rfl (by omega)]
      exact (bind_ok h₂).trans h₃
    · -- a failure, which stays behind as the seed
      have hboth (b : Bool) : o b = .ok (.failed d) := by
        cases b with
        | false => exact hfalse
        | true => exact htrue
      exact Or.inr ⟨.failed d, s₁.withSeeds (SeedKeys.set ⟨p, f⟩ acts (.failed d)), hboth acts,
        (growRounds_refuse h₁ rfl).trans (refuse_eq _ _ _ _), hs₁, h.allows_refused hclosed hboth hseeds₁⟩

end Opening

end Coupling
end Packrat
