import Packrat.Proofs.Depth.Growth
import Packrat.Proofs.Depth.Runs
import Packrat.Proofs.Placement.Safety

/-!
# `Packrat.Proofs.Seeds.Unbounded` — without a limit of its own, growth is bounded by the text

Every round of growth but the last ends further into the text than the one before, and none ends past the end of the
text, which inside a lookbehind is the place where it is looked back from. A seed thus grows for at most one round
more than there are bytes left: the rounds allowed when no limit is configured.

## Contents

* `Grown`, `Grown.pairwise`, `Grown.length_le` — **rounds end further and further**, so there are few;
* `StaysWithin`, `attemptWithin_staysWithin` — attempts are never stopped for too many rounds;
* `growsFreely` — and neither are runs;
* `growth_bounded_by_text` — **without a limit no run reports too many rounds**.
-/

namespace Packrat

/-! ## Rounds -/

/-- Rounds that a seed grows for, one after the other, by where they end: from a seed and a state to those after
them. -/
inductive Grown (a : Attempt) (c : Context) (keys : SeedKeys) (target : ExprId) (acts : Bool) :
    Seed → State → List Nat → Seed → State → Prop
  | nil (seed : Seed) (s : State) : Grown a c keys target acts seed s [] seed s
  /-- The target is matched further than the seed and becomes it; with actions, it is matched once more. -/
  | round {seed last : Seed} {s s' s'' s₁ : State} {stop : Nat} {r : Results} {ends : List Nat}
    (hround : a c target keys.position false false s = .ok (.matched stop r) s')
    (hend : furtherEnd seed.stop (some stop) = true)
    (hseed : advanceSeed a c keys target acts (.matched stop r) s'.grown = .ok none s'')
    (hrest : Grown a c keys target acts ⟨some stop, .matched stop r⟩ s'' ends last s₁) :
    Grown a c keys target acts seed s (stop :: ends) last s₁

namespace Grown

variable {g : Grammar} {a : Attempt} {c : Context} {keys : SeedKeys} {target : ExprId} {acts : Bool} {seed last : Seed}
  {s s₁ : State} {ends : List Nat}

/-- The loop of growth goes through these rounds, as long as they are not too many. -/
theorem growRounds_eq (h : Grown a c keys target acts seed s ends last s₁) {rule : Rule} {limit rounds : Nat}
    (hlimit : rounds + ends.length ≤ limit) (fuel : Nat) :
    growRounds a c rule keys target limit acts (fuel + ends.length) rounds seed s
      = growRounds a c rule keys target limit acts fuel (rounds + ends.length) last s₁ := by
  induction h generalizing rounds with
  | nil seed s => rfl
  | @round seed last s s' s'' s₁ stop r ends hround hend hseed _ ih =>
    rw [List.length_cons] at hlimit ⊢
    rw [← Nat.add_assoc fuel, growRounds_grow hround hend (by omega), bind_ok hseed]
    have hrest := @ih (rounds + 1) (by omega)
    rw [Nat.add_right_comm, Nat.add_assoc] at hrest
    exact hrest

/-- A round ends further than the seed that it starts from. -/
theorem lt_of_mem (h : Grown a c keys target acts seed s ends last s₁) {stop old : Nat} (hold : seed.stop = some old)
    (hstop : stop ∈ ends) : old < stop := by
  induction h generalizing old with
  | nil seed s => exact absurd hstop List.not_mem_nil
  | round _ hend _ _ ih =>
    rw [hold] at hend
    have hlt := of_decide_eq_true hend
    rcases List.mem_cons.mp hstop with rfl | hmem
    · exact hlt
    · exact hlt.trans (ih rfl hmem)

/-- **Rounds end further and further.** -/
theorem pairwise (h : Grown a c keys target acts seed s ends last s₁) : ends.Pairwise (· < ·) := by
  induction h with
  | nil seed s => exact List.Pairwise.nil
  | round _ _ _ hrest ih => exact List.Pairwise.cons (fun _ hstop => hrest.lt_of_mem rfl hstop) ih

variable (ha : (Upkeep.places g).Sound a) (hg : c.grammar = g) (hp : c.text.IsBoundary keys.position)
include ha hg hp

/-- What a round leaves: an end within the text, and what is remembered at places of it. -/
theorem placed_round {s' s'' : State} {stop : Nat} {r : Results} (hs : s.Placed .places c.text)
    (hround : a c target keys.position false false s = .ok (.matched stop r) s')
    (hseed : advanceSeed a c keys target acts (.matched stop r) s'.grown = .ok none s'') :
    Sites.places.From c.text keys.position stop ∧ s''.Placed .places c.text := by
  have htarget : (Upkeep.places g).nodes target := trivial
  have hmatched := @ha c target keys.position false false hg htarget hp s hs
  rw [hround] at hmatched
  have hgrown : s'.grown.Placed .places c.text := ⟨hmatched.2.memo, hmatched.2.seeds⟩
  have hadvanced := Upkeep.advanceSeed_run ha hg htarget hp acts hmatched.1 s'.grown hgrown
  rw [hseed] at hadvanced
  exact ⟨hmatched.1, hadvanced.2⟩

/-- Rounds end within the text. -/
theorem place (h : Grown a c keys target acts seed s ends last s₁) (hs : s.Placed .places c.text) {stop : Nat}
    (hstop : stop ∈ ends) : Sites.places.From c.text keys.position stop := by
  induction h with
  | nil seed s => exact absurd hstop List.not_mem_nil
  | round hround _ hseed _ ih =>
    obtain ⟨hplace, hs''⟩ := placed_round ha hg hp hs hround hseed
    rcases List.mem_cons.mp hstop with rfl | hmem
    · exact hplace
    · exact ih hs'' hmem

/-- There are no more rounds than bytes between the seed and the end of the text. -/
theorem far_add_length_le (h : Grown a c keys target acts seed s ends last s₁) (hs : s.Placed .places c.text)
    (hfar : seed.far keys.position ≤ c.text.size + 1) :
    seed.far keys.position + ends.length ≤ c.text.size + 1 := by
  induction h with
  | nil seed s => exact hfar
  | @round seed last s s' s'' s₁ stop r ends hround hend hseed _ ih =>
    obtain ⟨hplace, hs''⟩ := placed_round ha hg hp hs hround hseed
    have hlt := Seed.far_lt (r := r) hend hplace.le
    have hrest := ih hs'' (Nat.succ_le_succ hplace.site.le_size)
    simp only [Seed.after] at hlt
    rw [List.length_cons]
    omega

/-- **There is at most one round more than there are bytes left.** -/
theorem length_le (h : Grown a c keys target acts ⟨none, firstSeed keys.position⟩ s ends last s₁)
    (hs : s.Placed .places c.text) : ends.length ≤ c.text.size - keys.position + 1 := by
  have hle := hp.le_size
  have hrounds := h.far_add_length_le ha hg hp hs (Nat.le_succ_of_le hle)
  simp only [Seed.far] at hrounds
  omega

end Grown

/-! ## Attempts -/

/-- Attempts in contexts without a limit of growth are never stopped for too many rounds. -/
def StaysWithin (g : Grammar) (a : Attempt) : Prop :=
  ∀ ⦃c i p acts skips⦄, c.grammar = g → c.config.growthLimit = none → c.text.IsBoundary p →
    Keeps (State.Placed .places c.text) (fun h => h.isGrowthLimit = false) (Sites.places.Holds c.text p)
      (a c i p acts skips)

/-- One run in one context, in which seeds grow as far as the text goes. -/
@[reducible] def withinTwin {g : Grammar} (a : Attempt) (c : Context) (hc : c.grammar = g) : Twin g :=
  { Checked.placesTwin a a c hc with
    halts := fun h => h.isGrowthLimit = false
    ordinary := fun _ h => h }

section Attempts

variable {g : Grammar} {a : Attempt} {c : Context} (ha : StaysWithin g a) (hg : c.grammar = g)
  (hnone : c.config.growthLimit = none) {p : Nat}
include ha hg hnone

theorem StaysWithin.meets (acts : Bool) (q : Nat) (j : ExprId) (hq : c.text.IsBoundary q) :
    (withinTwin a c hg).Meets acts j q := by
  intro b skips _
  exact Concur.refl ((ha hg hnone hq).mono (fun _ h => Checked.lands_of_holds h rfl) fun _ => id)

/-- While a seed grows, everything lies at places, and the rounds fit into the text. -/
theorem StaysWithin.growSeed (i target : ExprId) (hp : c.text.IsBoundary p) (acts : Bool) :
    Keeps (State.Placed .places c.text) (fun h => h.isGrowthLimit = false) (Sites.places.Holds c.text p)
      (growSeed a c (g.rule i) i target p acts) := by
  have hplaced := @Checked.growth_placed c.text ⟨p, i⟩ hp acts
  have hgrowth : Growth (State.Placed .places c.text) (State.Placed .places c.text) (fun h => h.isGrowthLimit = false)
      (Sites.places.Holds c.text p) c.text ⟨p, i⟩ acts := { hplaced with }
  exact (growSeed_same hgrowth (fun b _ => Concur.refl (ha hg hnone hp)) rfl rfl (Or.inr hnone)).keeps

/-- Attempts that are performed are not stopped when those that they make are not. -/
theorem StaysWithin.perform (i : ExprId) (hp : c.text.IsBoundary p) (acts skips : Bool) :
    Keeps (State.Placed .places c.text) (fun h => h.isGrowthLimit = false) (fun _ => True)
      (perform a c i p acts skips) := by
  have hserves (q : Nat) (hq : c.text.IsBoundary q) : (withinTwin a c hg).Serves i q acts := by
    apply Twin.Serves.of_everywhere (ha.meets hg hnone) hq fun _ => rfl
    · exact fun child => StaysWithin.meets (c := c.combined) ha hg hnone acts q child hq
    · intro child
      refine ⟨State.Placed .places (c.behind q).text, ?_, ?_⟩
      · exact fun s hs => (State.Placed.initial _ _ c.config).congr hs
      · exact fun q' hq' => Concur.refl ((ha (c := c.behind q) hg hnone hq').mono (fun _ _ => trivial) fun _ => id)
    · intro label target hk
      by_cases hmode : c.config.memoization = .leftRecursion
      · simp only [matchNode, hk, hmode, if_true]
        refine Concur.refl ((ha.growSeed hg hnone i target hq acts).mono (fun step hstep => ?_) fun _ => id)
        exact Checked.lands_of_holds hstep trivial
      · rw [matchNode_forward hmode hk]
        exact ha.meets hg hnone acts q target hq acts false id
  have hsame := Twin.perform_same (D := withinTwin a c hg) (fun q _ hq => hserves q hq) hp skips
  exact hsame.keeps.mono (fun _ _ => trivial) fun _ => id

end Attempts

/-- **Attempts are never stopped for too many rounds** in contexts without a limit of growth. -/
theorem attemptWithin_staysWithin (g : Grammar) (n : Nat) : StaysWithin g (attemptWithin n) := by
  induction n with
  | zero => exact fun c i p acts skips _ _ _ => Keeps.halt rfl
  | succ n ih =>
    intro c i p acts skips hg hnone hp
    have hdeep : c.deeper.grammar = g := hg
    have hperform (b : Bool) : Keeps (State.Placed .places c.text) (fun h => h.isGrowthLimit = false)
        (Sites.places.Holds c.text p) (perform (attemptWithin n) c.deeper i p acts b) :=
      (ih.perform hdeep hnone i hp acts b).also (fun _ hs => hs)
        (Upkeep.perform_run (Upkeep.attemptWithin_sound (Upkeep.places g) n) hdeep trivial hp acts b)
    apply Upkeep.attemptWithin_succ_keeps fun _ => rfl
    exact Upkeep.remember_keeps (fun {s} hs => hs.congr s.counted_sameTables) (hperform _) (Upkeep.consult_placed _)
      fun _ hstep => Upkeep.store_placed hstep

/-! ## Runs -/

section Runs

variable {c : Context} (hnone : c.config.growthLimit = none)
include hnone

theorem matchRoot_staysWithin (all : Bool) :
    Keeps (State.Placed .places c.text) (fun h => h.isGrowthLimit = false) (fun _ => True) (matchRoot c all) := by
  have ha : StaysWithin c.grammar (attempt c) := attemptWithin_staysWithin c.grammar (attemptFuel c)
  have hmeets {acts : Bool} {q : Nat} (j : ExprId) (hq : c.text.IsBoundary q) :
      (withinTwin (attempt c) c rfl).Meets acts j q := ha.meets rfl hnone acts q j hq
  exact (Twin.matchRoot_same (D := withinTwin (attempt c) c rfl) rfl rfl (hmeets c.grammar.root c.text.isBoundary_zero)
    (fun j _ q _ hq => hmeets j hq) all).keeps

theorem attemptAt_staysWithin {p : Nat} (hp : c.text.IsBoundary p) :
    Keeps (State.Placed .places c.text) (fun h => h.isGrowthLimit = false) (fun _ => True) (Scan.attemptAt c p) := by
  have ha : StaysWithin c.grammar (attempt c) := attemptWithin_staysWithin c.grammar (attemptFuel c)
  unfold Scan.attemptAt
  have hignores : ∀ i ∈ (c.grammar.rule c.grammar.root).ignores,
      (withinTwin (attempt c) c rfl).MeetsFrom false p i := fun j _ q _ hq => ha.meets rfl hnone false q j hq
  have hskip := Twin.skipLeading_same hignores hp
  refine hskip.keeps.bind fun start hstart => ?_
  exact (ha rfl hnone hstart.place).bind fun step _ => Keeps.pure trivial

end Runs

/-- Whether an error says that a seed has grown for too many rounds. -/
def ParseError.isGrowthLimit : ParseError → Bool
  | .growthLimit _ _ _ => true
  | _ => false

theorem Halt.isGrowthLimit_toError (t : Text) (h : Halt) : (h.toError t).isGrowthLimit = h.isGrowthLimit := by
  cases h <;> rfl

/-- No run of a grammar under a configuration reports that a seed has grown for too many rounds. -/
structure Grammar.GrowsFreely (g : Grammar) (config : Config) (watch : Watch) : Prop where
  parse : ∀ state t all e, (Parser.parse ⟨g, config, watch, state⟩ t all).1.outcome = .error e → e.isGrowthLimit = false
  scan : ∀ t n e, .error e ∈ ((Scan.new g config watch t).collect n).1.map (·.1) → e.isGrowthLimit = false
  search : ∀ t e, (Scan.new g config watch t).search = .error e → e.isGrowthLimit = false
  replace : ∀ t e, (Scan.new g config watch t).replace = .error e → e.isGrowthLimit = false

theorem growsFreely (g : Grammar) {config : Config} (hnone : config.growthLimit = none) (watch : Watch) :
    g.GrowsFreely config watch := by
  have hscan (t : Text) (n : Nat) (e : ParseError)
      (he : .error e ∈ ((Scan.new g config watch t).collect n).1.map (·.1)) : e.isGrowthLimit = false := by
    have hattempt (p : Nat) (hp : t.IsBoundary p) := attemptAt_staysWithin (c := .top g config watch t) hnone hp
    obtain ⟨h, hh, rfl⟩ := Scan.haltsWith_collect n (Upkeep.Scanning.new (g := g) config watch t) hattempt _ he e rfl
    rw [Halt.isGrowthLimit_toError]
    exact hh
  have hsearch (t : Text) (e : ParseError) (he : (Scan.new g config watch t).search = .error e) :
      e.isGrowthLimit = false := hscan t (Scan.new g config watch t).itemBound e (Upkeep.mem_of_matchesOf he)
  refine ⟨?_, hscan, hsearch, ?_⟩
  · intro state t all e he
    let c := Context.top g config watch (viewOf config t)
    have hkeeps := matchRoot_staysWithin (c := c) hnone all _ (State.Placed.forget _ _ state [])
    change (resolve (viewOf config t) (matchRoot c all _)).1 = .error e at he
    cases hr : matchRoot c all { state.forget with journal := [] } with
    | error h s =>
      rw [hr] at he hkeeps
      obtain rfl := Except.error.inj he
      rw [Halt.isGrowthLimit_toError]
      exact hkeeps.1
    | ok step s =>
      rw [hr] at he
      cases step with
      | matched stop r => exact absurd he (by simp [resolve])
      | failed d =>
        obtain rfl := Except.error.inj he
        rfl
  · intro t e he
    unfold Scan.replace at he
    cases hs : (Scan.new g config watch t).search with
    | error e' =>
      rw [hs] at he
      obtain rfl := Except.error.inj he
      exact hsearch t _ hs
    | ok fs =>
      rw [hs] at he
      exact absurd he (by simp [Except.map])

/-- **Without a limit no run reports too many rounds of growth**: the rounds of a seed end further and further between
the position of the forward and the end of the text in which it is attempted, so that there is at most one more than
there are bytes left. -/
theorem growth_bounded_by_text (g : Grammar) (config : Config) (hnone : config.growthLimit = none) (watch : Watch) :
    g.GrowsFreely config watch ∧
      ∀ (c : Context) (n : Nat) (keys : SeedKeys) (target : ExprId) (acts : Bool) (s s₁ : State) (ends : List Nat)
        (last : Seed), c.grammar = g → c.text.IsBoundary keys.position → s.Placed .places c.text →
        Grown (attemptWithin n) c keys target acts ⟨none, firstSeed keys.position⟩ s ends last s₁ →
          ends.Pairwise (· < ·) ∧ (∀ stop ∈ ends, keys.position ≤ stop ∧ stop ≤ c.text.size) ∧
            ends.length ≤ c.text.size - keys.position + 1 := by
  refine ⟨growsFreely g hnone watch, ?_⟩
  intro c n keys target acts s s₁ ends last hg hp hs h
  have ha := Upkeep.attemptWithin_sound (Upkeep.places g) n
  refine ⟨h.pairwise, fun stop hstop => ?_, h.length_le ha hg hp hs⟩
  have hplace := h.place ha hg hp hs hstop
  exact ⟨hplace.le, hplace.site.le_size⟩

/-- Letters in a row, as a forward that begins with itself or is one letter. -/
def leftLetters : Grammar :=
  Grammar.ofKinds [.forward "letters" (some 3), .literal "a" false, .sequence [0, 1], .orderedChoice [2, 1]] 0

/-- What grows in the letters, without actions. -/
def growingLetters : Context := .top leftLetters { memoization := .leftRecursion } default ['a', 'a']

/-- The state in which the first round is made: the seed fails. -/
def growingState : State :=
  (State.initial growingLetters.config).withSeeds (SeedKeys.set ⟨0, 0⟩ false (firstSeed 0))

/-- The end of the match that a run comes to, if it comes to one. -/
def endOf? : EStateM.Result Halt State Step → Option Nat
  | .ok (.matched stop _) _ => some stop
  | _ => none

theorem exists_of_endOf? {x : EStateM.Result Halt State Step} {stop : Nat} (h : endOf? x = some stop) :
    ∃ r s, x = .ok (.matched stop r) s := by
  cases x with
  | error e s => exact absurd h (by simp [endOf?])
  | ok step s =>
    cases step with
    | failed d => exact absurd h (by simp [endOf?])
    | matched stop' r =>
      obtain rfl := Option.some.inj h
      exact ⟨r, s, rfl⟩

theorem growth_bounded_by_text_leftLetters :
    leftLetters.GrowsFreely { memoization := .leftRecursion } default ∧
      ∃ last s₁, Grown (attemptWithin 9) growingLetters ⟨0, 0⟩ 3 false ⟨none, firstSeed 0⟩ growingState [1] last s₁ ∧
        [1].length ≤ growingLetters.text.size - 0 + 1 := by
  obtain ⟨hfree, hrounds⟩ := growth_bounded_by_text leftLetters { memoization := .leftRecursion } rfl default
  refine ⟨hfree, ?_⟩
  -- the first round matches one letter
  have hstop : endOf? (attemptWithin 9 growingLetters 3 0 false false growingState) = some 1 := by decide +kernel
  obtain ⟨r, s, hround⟩ := exists_of_endOf? hstop
  have hplaced : growingState.Placed .places growingLetters.text :=
    (State.Placed.initial _ _ _).insertSeed _ (Sites.From.self (Text.isBoundary_zero _))
  have hgrown : Grown (attemptWithin 9) growingLetters ⟨0, 0⟩ 3 false ⟨none, firstSeed 0⟩ growingState [1] _ _ :=
    .round hround rfl (advanceSeed_false _ _) (.nil _ _)
  exact ⟨_, _, hgrown, (hrounds _ 9 ⟨0, 0⟩ 3 false _ _ _ _ rfl (Text.isBoundary_zero _) hplaced hgrown).2.2⟩

end Packrat
