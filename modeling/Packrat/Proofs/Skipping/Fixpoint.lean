import Packrat.Proofs.Plain.Beginning
import Packrat.Proofs.Plain.Longest

/-!
# `Packrat.Proofs.Skipping.Fixpoint` — whether there is anything left to skip

Ignorables are skipped over and over until none of them consumes anything, and whitespace is skipped once after that.
What is left to skip then depends on the ignorables. Those that skip the whitespace themselves, and whose own ignorables
do, match past the whitespace what they match before it, so none of them consumes anything there either. One that does
not skip it may match past the whitespace what it could not match before it.

## Contents

* `skipIgnorables_again` — past all ignorables no ignorable is left;
* `Meets` — runs from both ends of some whitespace that stay where they are or meet;
* `Grammar.PassesOver` — ignorables that skip whitespace themselves;
* `answer?_passes` — they match past whitespace what they match before it;
* `skipIgnorables_past` — so past whitespace none of them is left that was not left before it;
* `skipLeading_again` — **past what is skipped nothing is left to skip**, if ignorables pass over the whitespace;
* `not_skipLeading_again_bareMarks` — ignorables that do not, and leave something to skip.
-/

namespace Packrat

/-! ## Ignorables -/

section Again

variable {g : Grammar} {k : Nat} {c : Context} (hg : c.grammar = g) {p q : Nat} (hp : c.text.IsBoundary p)
include hg hp

/-- One round leads to a place further on. -/
theorem from_of_skipEach {ignores : List ExprId} (h : skipEach (told g k) c ignores p = pure q) :
    Sites.places.From c.text p q :=
  Keeps.of_pure (Upkeep.skipEach_quiet ((Upkeep.places g).told_sound k) hg (fun _ _ => trivial) hp) h

/-- Ignorables lead to a place further on. -/
theorem from_of_skipIgnorables {ignores : List ExprId} (h : skipIgnorables (told g k) c ignores p = pure q) :
    Sites.places.From c.text p q :=
  Keeps.of_pure (Upkeep.skipIgnorables_quiet ((Upkeep.places g).told_sound k) hg (fun _ _ => trivial) hp) h

/-- Every round but the last consumes text, so the rounds do not run out before one skips nothing. -/
theorem skipEach_of_skipRounds {ignores : List ExprId} {fuel : Nat} (hfuel : c.text.size < fuel + p)
    (h : skipRounds (told g k) c ignores fuel p = pure q) : skipEach (told g k) c ignores q = pure q := by
  induction fuel generalizing p with
  | zero => exact absurd hp.le_size (by omega)
  | succ fuel ih =>
    rw [skipRounds] at h
    rcases skipEach_still g k c ignores p with ⟨after, hround⟩ | ⟨e, hround⟩
    · rw [hround, pure_bind] at h
      by_cases hafter : after = p
      · rw [if_pos hafter] at h
        obtain rfl : p = q := pure_inj h
        rw [hround, hafter]
      · rw [if_neg hafter] at h
        have hfrom := from_of_skipEach hg hp hround
        have hlt : p < after := Nat.lt_of_le_of_ne hfrom.le (fun h => hafter h.symm)
        exact ih hfrom.site (by omega) h
    · rw [hround] at h
      exact absurd h.symm pure_ne_halt

/-- **Past all ignorables no ignorable is left.** -/
theorem skipIgnorables_again {ignores : List ExprId} (h : skipIgnorables (told g k) c ignores p = pure q) :
    skipIgnorables (told g k) c ignores q = pure q := by
  unfold skipIgnorables at h ⊢
  split
  · rfl
  · next hsome =>
    rw [if_neg hsome] at h
    rw [skipRounds, skipEach_of_skipRounds hg hp (by omega) h, pure_bind, if_pos rfl]

end Again

/-! ## Runs from both ends of some whitespace -/

/-- Two runs meet, or each of them stays where it is. -/
def Meets (x y : Nat) (m m' : MatchM Nat) : Prop := m = m' ∨ m = pure x ∧ m' = pure y

section Meets

variable {g : Grammar} {k : Nat} {c : Context} (hg : c.grammar = g) {x y : Nat} (hy : c.text.IsBoundary y) (hle : x ≤ y)
include hg hy hle

/-- An ignorable that matches the same from both ends is skipped from both or from neither. -/
theorem skipOne_meets {i : ExprId} (hsame : told g k c i x false true = told g k c i y false true) (fuel : Nat) :
    Meets x y (skipOne (told g k) c i fuel x) (skipOne (told g k) c i fuel y) := by
  cases fuel with
  | zero => exact Or.inr ⟨rfl, rfl⟩
  | succ fuel =>
    have hprobe : probe (told g k) c i x = probe (told g k) c i y := congrArg MatchM.recover hsame
    have hrun := Upkeep.probe_quiet ((Upkeep.places g).told_sound k) hg (i := i) trivial hy (State.initial {})
      (State.Placed.initial _ _ _)
    rw [skipOne, skipOne, hprobe]
    rcases probe_still g k c i y with ⟨step, hstep⟩ | ⟨e, hstep⟩
    · rw [hstep] at hrun ⊢
      rw [pure_bind, pure_bind]
      cases step with
      | failed d => exact Or.inr ⟨rfl, rfl⟩
      | matched stop r =>
        have hstop : y ≤ stop := hrun.1.le
        dsimp only
        rcases Nat.lt_or_eq_of_le hstop with hlt | rfl
        · rw [if_neg (by omega), if_neg (by omega)]
          exact Or.inl rfl
        -- a match up to the far end moves the first run there, where it stays like the second one
        rw [if_pos (le_refl _)]
        by_cases hback : y ≤ x
        · rw [if_pos hback]
          exact Or.inr ⟨rfl, rfl⟩
        · rw [if_neg hback]
          refine Or.inl ?_
          cases fuel with
          | zero => rfl
          | succ fuel =>
            rw [skipOne, hstep, pure_bind]
            exact if_pos (le_refl _)
    · rw [hstep]
      exact Or.inl rfl

theorem skipEach_meets {ignores : List ExprId}
    (hsame : ∀ i ∈ ignores, told g k c i x false true = told g k c i y false true) :
    Meets x y (skipEach (told g k) c ignores x) (skipEach (told g k) c ignores y) := by
  induction ignores with
  | nil => exact Or.inr ⟨rfl, rfl⟩
  | cons i ignores ih =>
    rw [skipEach, skipEach]
    rcases skipOne_meets hg hy hle (hsame i List.mem_cons_self) (c.text.size + 1) with hmeet | ⟨hx, hy⟩
    · rw [hmeet]
      exact Or.inl rfl
    · rw [hx, hy]
      exact ih fun j hj => hsame j (List.mem_cons_of_mem _ hj)

theorem skipRounds_meets {ignores : List ExprId}
    (hsame : ∀ i ∈ ignores, told g k c i x false true = told g k c i y false true) (fuel : Nat) :
    Meets x y (skipRounds (told g k) c ignores fuel x) (skipRounds (told g k) c ignores fuel y) := by
  cases fuel with
  | zero => exact Or.inr ⟨rfl, rfl⟩
  | succ fuel =>
    rw [skipRounds, skipRounds]
    rcases skipEach_meets hg hy hle hsame with hmeet | ⟨hx, hy⟩
    · rw [hmeet]
      rcases skipEach_still g k c ignores y with ⟨z, hround⟩ | ⟨e, hround⟩
      · rw [hround, pure_bind, pure_bind]
        have hz : y ≤ z := (from_of_skipEach hg hy hround).le
        by_cases hstay : z = y
        · subst hstay
          by_cases hback : z = x
          · rw [if_pos hback, if_pos rfl]
            exact Or.inr ⟨rfl, rfl⟩
          · -- the first run has come to the second one, which skips nothing more
            rw [if_neg hback, if_pos rfl]
            refine Or.inl ?_
            cases fuel with
            | zero => rfl
            | succ fuel => rw [skipRounds, hround, pure_bind, if_pos rfl]
        · rw [if_neg (by omega), if_neg hstay]
          exact Or.inl rfl
      · rw [hround]
        exact Or.inl rfl
    · rw [hx, hy, pure_bind, pure_bind, if_pos rfl, if_pos rfl]
      exact Or.inr ⟨rfl, rfl⟩

theorem skipIgnorables_meets {ignores : List ExprId}
    (hsame : ∀ i ∈ ignores, told g k c i x false true = told g k c i y false true) :
    Meets x y (skipIgnorables (told g k) c ignores x) (skipIgnorables (told g k) c ignores y) := by
  unfold skipIgnorables
  split
  · exact Or.inr ⟨rfl, rfl⟩
  · exact skipRounds_meets hg hy hle hsame _

end Meets

/-! ## Ignorables that skip whitespace -/

/-- A set of ignorables, with their own, each of which skips certain characters before it. -/
structure Grammar.PassesOver (g : Grammar) (blank : Char → Bool) (N : ExprId → Prop) : Prop where
  skipped : ∀ i, N i → ∀ ch, blank ch = true → (g.rule i).skipped ch = true
  ignores : ∀ i, N i → ∀ j ∈ (g.rule i).ignores, N j

/-- Some of the characters to skip can be skipped first. -/
theorem skip_after_skip {t : Text} {p : Nat} (hp : t.IsBoundary p) {some all : Char → Bool}
    (h : ∀ ch, some ch = true → all ch = true) : t.skip all (t.skip some p) = t.skip all p := by
  have hsplit : t.rest p = (t.rest p).takeWhile some ++ (t.rest p).dropWhile some :=
    (List.takeWhile_append_dropWhile (p := some)).symm
  have hrest : t.rest (t.skip some p) = (t.rest p).dropWhile some := hp.rest_add hsplit
  have hall : ∀ ch ∈ (t.rest p).takeWhile some, all ch = true := fun ch hch => h ch (List.mem_takeWhile_imp hch)
  calc t.skip all (t.skip some p)
      = p + Text.size ((t.rest p).takeWhile some) + Text.size (((t.rest p).dropWhile some).takeWhile all) := by
        rw [Text.skip, hrest]
        rfl
    _ = p + Text.size ((t.rest p).takeWhile some ++ ((t.rest p).dropWhile some).takeWhile all) := by
        rw [Text.size_append, Nat.add_assoc]
    _ = t.skip all p := by
        rw [← List.takeWhile_append_of_pos hall, List.takeWhile_append_dropWhile]
        rfl

/-- **What ignorables match past whitespace that they skip themselves, they match before it.** -/
theorem answer?_passes {g : Grammar} {blank : Char → Bool} {N : ExprId → Prop} (hN : g.PassesOver blank N) {t : Text}
    {x : Nat} (hx : t.IsBoundary x) (k : Nat) {i : ExprId} (hi : N i) (acts : Bool) :
    g.answer? t k ⟨i, x, acts, true, false⟩ = g.answer? t k ⟨i, t.skip blank x, acts, true, false⟩ := by
  induction k generalizing i acts with
  | zero => rfl
  | succ k ih =>
    have hsame : ∀ j ∈ (g.rule i).ignores,
        told g k (plainContext g t false) j x false true
          = told g k (plainContext g t false) j (t.skip blank x) false true :=
      fun j hj => congrArg tell (ih (hN.ignores i hi j hj) false)
    suffices hbegins : g.begins t k false (g.rule i) x true = g.begins t k false (g.rule i) (t.skip blank x) true from
      answer?_congr hbegins acts
    show skipLeading (told g k) (plainContext g t false) (g.rule i) x
      = skipLeading (told g k) (plainContext g t false) (g.rule i) (t.skip blank x)
    rw [skipLeading_eq_bind, skipLeading_eq_bind]
    rcases skipIgnorables_meets (g := g) (c := plainContext g t false) rfl (hx.skip blank) (Text.le_skip _ _ _) hsame
      with hmeet | ⟨hstay, hstay'⟩
    · rw [hmeet]
    · -- no ignorable is skipped from either end, and the whitespace of the ignorable covers what lies between
      rw [hstay, hstay', pure_bind, pure_bind]
      exact congrArg pure (skip_after_skip hx (hN.skipped i hi)).symm

/-! ## Skipping again -/

/-- What is skipped is skipped in two parts: the ignorables, and the whitespace past them. -/
theorem exists_of_skipLeading {g : Grammar} {k : Nat} {c : Context} {rule : Rule} {p q : Nat}
    (h : skipLeading (told g k) c rule p = pure q) :
    ∃ loc, skipIgnorables (told g k) c rule.ignores p = pure loc ∧ c.text.skip rule.skipped loc = q := by
  rw [skipLeading_eq_bind] at h
  rcases skipIgnorables_still g k c rule.ignores p with ⟨loc, hloc⟩ | ⟨e, hloc⟩
  · rw [hloc, pure_bind] at h
    exact ⟨loc, hloc, pure_inj h⟩
  · rw [hloc] at h
    exact absurd h.symm pure_ne_halt

/-- **Ignorables that pass over whitespace and are not left before it are not left past it.** -/
theorem skipIgnorables_past {g : Grammar} {t : Text} {blank : Char → Bool} {N : ExprId → Prop}
    (hN : g.PassesOver blank N) {ignores : List ExprId} (hignores : ∀ i ∈ ignores, N i) {k x : Nat}
    (hx : t.IsBoundary x) (h : skipIgnorables (told g k) (plainContext g t false) ignores x = pure x) :
    skipIgnorables (told g k) (plainContext g t false) ignores (t.skip blank x) = pure (t.skip blank x) := by
  have hsame : ∀ i ∈ ignores, told g k (plainContext g t false) i x false true
      = told g k (plainContext g t false) i (t.skip blank x) false true :=
    fun i hi => congrArg tell (answer?_passes hN hx k (hignores i hi) false)
  have hle : x ≤ t.skip blank x := Text.le_skip _ _ _
  rcases skipIgnorables_meets (g := g) (c := plainContext g t false) rfl (hx.skip blank) hle hsame
    with hmeet | ⟨-, hstay⟩
  · -- what the far end leads to is the near end, so the two are one
    have hback : t.skip blank x ≤ x :=
      (from_of_skipIgnorables (g := g) (c := plainContext g t false) rfl (hx.skip blank) (hmeet.symm.trans h)).le
    exact hmeet.symm.trans (h.trans (congrArg pure (Nat.le_antisymm hle hback)))
  · exact hstay

/-- **Past what is skipped nothing is left to skip**: neither an ignorable of the node nor a character of its whitespace,
if the ignorables pass over the whitespace. Inside a combined region, where ignorables pass over nothing, it takes a node
without ignorables or one without whitespace. -/
theorem skipLeading_again {g : Grammar} {c : Context} (hg : c.grammar = g) (hc : c.IsPlain) {rule : Rule}
    {N : ExprId → Prop} (hN : g.PassesOver rule.skipped N) (hignores : ∀ i ∈ rule.ignores, N i)
    (hregion : c.adjacent = true → rule.ignores = [] ∨ ∀ ch, rule.skipped ch = false) {n p q : Nat}
    (hp : c.text.IsBoundary p) {s s' : State} (hs : s.memo = .off)
    (h : skipLeading (attemptWithin n) c rule p s = .ok q s') :
    ComesTo (skipLeading (attemptWithin n) c rule q) q := by
  let k := c.room n
  let c₀ := plainContext g c.text c.adjacent
  have htold : skipLeading (told g k) c₀ rule p = pure q := (skipLeading_told hg hc hs n rule p q).mp ⟨s', h⟩
  obtain ⟨loc, hloc, rfl⟩ := exists_of_skipLeading htold
  have hplace : c.text.IsBoundary loc := (from_of_skipIgnorables (g := g) (c := c₀) rfl hp hloc).site
  have hagain : skipIgnorables (told g k) c₀ rule.ignores loc = pure loc :=
    skipIgnorables_again (g := g) (c := c₀) rfl hp hloc
  let q := c.text.skip rule.skipped loc
  have hleft : skipIgnorables (told g k) c₀ rule.ignores q = pure q := by
    cases hadjacent : c.adjacent with
    | true =>
      rcases hregion hadjacent with hnone | hblank
      · rw [hnone]
        rfl
      · have hstay : q = loc := by
          show c.text.skip rule.skipped loc = loc
          rw [funext hblank, skip_nothing]
        rw [hstay]
        exact hagain
    | false =>
      have hc₀ : c₀ = plainContext g c.text false := congrArg (plainContext g c.text) hadjacent
      rw [hc₀] at hagain ⊢
      exact skipIgnorables_past hN hignores hplace hagain
  have hrest : c.text.skip rule.skipped q = q := hplace.skip_skip _
  have htold : skipLeading (told g k) c₀ rule q = pure q := by
    rw [skipLeading_eq_bind, hleft, pure_bind]
    exact congrArg pure hrest
  obtain ⟨s₁, hrun⟩ := (skipLeading_told hg hc hs n rule q q).mpr htold
  exact ComesTo.of_skipLeading hg hc hs hrun

/-! ## Marks before a letter -/

/-- A letter that ignores marks before it, which skip blanks or do not; the letter does. -/
def markedLetter (skips : Bool) : Grammar where
  rules :=
    let letter : Rule :=
      { kind := .literal "a" false, whitespace := ⟨[⟨' ', ' '⟩]⟩, ignores := [1], display := "", message := "",
        savesList := false }
    let mark : Rule :=
      { kind := .literal "#" false, skipsWhitespace := skips, whitespace := ⟨[⟨' ', ' '⟩]⟩, display := "",
        message := "", savesList := false }
    #[letter, mark]
  root := 0
  defaultWhitespace := ⟨[⟨' ', ' '⟩]⟩
  leftRecursive := []

/-- Where a run has led, if it has not halted. -/
def landing? : EStateM.Result Halt State Nat → Option Nat
  | .ok p _ => some p
  | .error _ _ => none

theorem exists_of_landing? {x : EStateM.Result Halt State Nat} {p : Nat} (h : landing? x = some p) :
    ∃ s, x = .ok p s := by
  cases x with
  | ok q s => exact ⟨s, by rw [Option.some.inj h]⟩
  | error e s => exact absurd h (by simp [landing?])

/-- Marks that skip blanks are all skipped at once. -/
theorem skipLeading_again_blankMarks :
    let g := markedLetter true
    let c := plainContext g ['#', ' ', '#', ' ', 'a'] false
    let s := State.initial {}
    g.PassesOver (g.rule 0).skipped (· = 1) ∧
      (∃ s', skipLeading (attemptWithin 3) c (g.rule 0) 0 s = .ok 4 s') ∧
        ComesTo (skipLeading (attemptWithin 3) c (g.rule 0) 4) 4 := by
  intro g c s
  have hpasses : g.PassesOver (g.rule 0).skipped (· = 1) := by
    refine ⟨?_, ?_⟩
    · rintro i rfl ch hch
      exact hch
    · rintro i rfl j hj
      exact absurd hj List.not_mem_nil
  have hignores : ∀ i ∈ (g.rule 0).ignores, i = 1 := fun i hi => List.mem_singleton.mp hi
  obtain ⟨s', hrun⟩ : ∃ s', skipLeading (attemptWithin 3) c (g.rule 0) 0 s = .ok 4 s' :=
    exists_of_landing? (by decide +kernel)
  exact ⟨hpasses, ⟨s', hrun⟩, skipLeading_again (c := c) rfl rfl hpasses hignores (by simp [c, plainContext])
    (Text.isBoundary_zero _) rfl hrun⟩

/-- Of marks that do not skip blanks only those before the first blank are skipped: past the blank there is another. -/
theorem not_skipLeading_again_bareMarks :
    let g := markedLetter false
    let c := plainContext g ['#', ' ', '#', ' ', 'a'] false
    ∃ q s', skipLeading (attemptWithin 3) c (g.rule 0) 0 (State.initial {}) = .ok q s' ∧
      ¬ ∃ s'', skipLeading (attemptWithin 3) c (g.rule 0) q s' = .ok q s'' := by
  intro g c
  let skip := skipLeading (attemptWithin 3) c (g.rule 0)
  obtain ⟨s', honce⟩ : ∃ s', skip 0 (State.initial {}) = .ok 2 s' := exists_of_landing? (by decide +kernel)
  have htwice : landing? ((skip 0 >>= skip) (State.initial {})) = some 4 := by decide +kernel
  rw [bind_ok honce] at htwice
  refine ⟨2, s', honce, ?_⟩
  rintro ⟨s'', hstay⟩
  change skip 2 s' = .ok 2 s'' at hstay
  rw [hstay] at htwice
  exact absurd htwice (by simp [landing?])

end Packrat
