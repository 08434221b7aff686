import Packrat.Proofs.Translation.Nodes
import Packrat.Proofs.Memory.Count
import Packrat.Proofs.Scanning.Reference

/-!
# `Packrat.Proofs.Translation.Attempts` — matching is translation invariant

A plain attempt of a node that depends on nothing but the text from its place on comes to the same outcome when the text
stands after a front, with all places moved by the size of the front.

Without a limit of nesting the attempts on the two texts have different room, by the bound that is larger than the
nesting of any attempt that ends. That this is what it is, is shown by counting the attempts that have an answer: while
more room answers more of them there is one more for each level, and once a level answers no more, none ever does.

## Contents

* `agrees_still_iff` — attempts with different room on one text, by their answers;
* `agrees_of_nestingBound_le` — **room beyond the bound of nesting answers nothing more**;
* `translation_invariant` — **matching is translation invariant**.
-/

namespace Packrat

/-- The answer with its place moved by a distance. -/
def Answer.shift (n : Nat) : Answer → Answer
  | .ok step => .ok (step.shift n)
  | .error h => .error (h.shift n)

@[simp] theorem Answer.shift_zero (o : Answer) : o.shift 0 = o := by
  cases o <;> simp [shift]

namespace Move

/-- Moved runs come to moved outcomes. -/
theorem Ends.outcomeOf_eq {M : Move} {p : Nat} {x y : EStateM.Result Halt State Step} (h : M.Ends (M.Steps p) x y) :
    Scan.outcomeOf y = (Scan.outcomeOf x).shift M.distance := by
  cases h with
  | ok hvalue _ _ => cases hvalue <;> rfl
  | error _ _ _ => rfl

/-! ## One text -/

/-- A text without a front, matched without a limit of nesting. -/
def still (t : Text) : Move := ⟨[], t, none⟩

variable {g : Grammar} {t : Text} {c c₁ c₂ : Context} {p : Nat}

theorem distance_still (t : Text) : (still t).distance = 0 := rfl

/-- What is said of two contexts on one text is said of each of them. -/
theorem Pair.left (h : (still t).Pair g c₁ c₂) : (still t).Pair g c₁ c₁ :=
  ⟨h.grammar₁, h.grammar₁, h.text₁, h.text₁, rfl, rfl, h.limit₁, h.limit₁, h.plain₁, h.plain₁⟩

theorem Pair.right (h : (still t).Pair g c₁ c₂) : (still t).Pair g c₂ c₂ :=
  ⟨h.grammar₂, h.grammar₂, h.text₂, h.text₂, rfl, rfl, h.limit₂, h.limit₂, h.plain₂, h.plain₂⟩

theorem pair_plainContext (g : Grammar) (t : Text) (adjacent : Bool) :
    (still t).Pair g (plainContext g t adjacent) (plainContext g t adjacent) :=
  ⟨rfl, rfl, rfl, rfl, rfl, rfl, rfl, rfl, rfl, rfl⟩

section Onward

variable (honward : g.Onward)
include honward

/-- How an attempt ends that has no limit of nesting: it nests too deeply only for want of room. -/
theorem attempt_cases (hc : (still t).Pair g c c) (n : Nat) (i : ExprId) (hp : t.IsBoundary p) (acts skips : Bool)
    {s : State} (hs : s.memo = .off) :
    (∃ step s', attemptWithin n c i p acts skips s = .ok step s' ∧ (still t).Steps p step step ∧ s'.memo = .off) ∨
      ∃ h s', attemptWithin n c i p acts skips s = .error h s' ∧ (h.isTooDeep = true → h = .endless) ∧
        s'.memo = .off := by
  have hends := attemptWithin_moved (still t) honward n hc i hp acts skips s s hs hs
  rw [distance_still, Nat.zero_add] at hends
  rcases hends.cases with ⟨a, b, s₁, s₂, h₁, h₂, hab, hoff⟩ | ⟨h, s₁, s₂, h₁, -, hlimit, hoff⟩
  · obtain ⟨rfl, -⟩ : a = b ∧ s₁ = s₂ := by simpa using h₁.symm.trans h₂
    exact Or.inl ⟨a, s₁, h₁, hab, hoff⟩
  · refine Or.inr ⟨h, s₁, h₁, fun hdeep => ?_, hoff⟩
    cases h with
    | endless => rfl
    | recursionLimit limit q => exact absurd (hlimit limit q rfl) (by simp [still])
    | _ => exact absurd hdeep Bool.false_ne_true

omit honward in
theorem answerOf?_eq (hc : (still t).Pair g c c) (n : Nat) (i : ExprId) (p : Nat) (acts skips : Bool) {s : State}
    (hs : s.memo = .off) :
    answerOf? (attemptWithin n c i p acts skips s) = g.answer? t n ⟨i, p, acts, skips, c.adjacent⟩ := by
  have h := answerOf?_attemptWithin hc.grammar₁ hc.plain₁ hs n i p acts skips
  rwa [Context.room, hc.limit₁, hc.text₁] at h

omit honward in
/-- Attempts that end so are halted alike when they have the same answer. -/
theorem eq_of_answerOf? {e e' : Halt} {s s' : State} (he : e.isTooDeep = true → e = .endless)
    (he' : e'.isTooDeep = true → e' = .endless) (h : answerOf? (.error e s) = answerOf? (.error e' s')) : e = e' := by
  cases hdeep : e.isTooDeep with
  | false =>
    rw [answerOf?_error hdeep] at h
    obtain ⟨-, _, heq⟩ := answerOf?_eq_error h.symm
    exact (EStateM.Result.error.inj heq).1.symm
  | true =>
    cases hdeep' : e'.isTooDeep with
    | true => rw [he hdeep, he' hdeep']
    | false =>
      rw [answerOf?_error hdeep'] at h
      obtain ⟨hnot, _, heq⟩ := answerOf?_eq_error h
      rw [(EStateM.Result.error.inj heq).1, hnot] at hdeep
      exact absurd hdeep Bool.false_ne_true

/-- Attempts with different room on one text agree exactly where their answers do. -/
theorem agrees_still_iff {k m : Nat} :
    (still t).Agrees g (attemptWithin k) (attemptWithin m) ↔
      ∀ key : MemoKey, t.IsBoundary key.position → g.answer? t k key = g.answer? t m key := by
  constructor
  · intro h key hp
    have hpair := pair_plainContext g t key.adjacent
    have hends := h hpair key.id hp key.acts key.skips (State.initial {}) (State.initial {}) rfl rfl
    have houtcome := hends.outcomeOf_eq
    rw [distance_still, Nat.zero_add, Answer.shift_zero] at houtcome
    exact Coupling.answerOf?_congr houtcome.symm
  · intro h c₁ c₂ hc i p hp acts skips s₁ s₂ hs₁ hs₂
    rw [distance_still, Nat.zero_add]
    have hx := attempt_cases honward hc.left k i hp acts skips hs₁
    have hy := attempt_cases honward hc.right m i hp acts skips hs₂
    have heq : answerOf? (attemptWithin k c₁ i p acts skips s₁) = answerOf? (attemptWithin m c₂ i p acts skips s₂) := by
      rw [answerOf?_eq hc.left k i p acts skips hs₁, answerOf?_eq hc.right m i p acts skips hs₂, ← hc.adjacent]
      exact h _ hp
    generalize attemptWithin k c₁ i p acts skips s₁ = x at hx heq ⊢
    generalize attemptWithin m c₂ i p acts skips s₂ = y at hy heq ⊢
    rcases hx with ⟨a, s, rfl, hab, hs⟩ | ⟨e, s, rfl, he, hs⟩ <;>
      rcases hy with ⟨b, s', rfl, -, hs'⟩ | ⟨e', s', rfl, he', hs'⟩
    · obtain rfl : a = b := by simpa using heq
      exact .ok hab hs hs'
    · obtain ⟨_, h⟩ := answerOf?_eq_ok heq.symm
      exact absurd h (by simp)
    · obtain ⟨_, h⟩ := answerOf?_eq_ok heq
      exact absurd h (by simp)
    · obtain rfl : e = e' := eq_of_answerOf? he he' heq
      have hlimit : ∀ limit q, e = .recursionLimit limit q → (still t).limit = some limit := by
        rintro limit q rfl
        exact absurd (he rfl) (by simp)
      have h : (still t).Ends ((still t).Steps p) (.error e s) (.error (e.shift 0) s') := .error hlimit hs hs'
      rwa [Halt.shift_zero] at h

/-! ## Enough room -/

/-- The keys that are answered with some room. -/
def answered (g : Grammar) (t : Text) (k : Nat) : Finset MemoKey :=
  (MemoKey.range g.size t.size).filter fun key => t.IsBoundary key.position ∧ (g.answer? t k key).isSome = true

omit honward in
theorem answered_mono {k m : Nat} (h : k ≤ m) : answered g t k ⊆ answered g t m := by
  intro key hkey
  obtain ⟨hrange, hplace, hsome⟩ := Finset.mem_filter.mp hkey
  obtain ⟨o, ho⟩ := Option.isSome_iff_exists.mp hsome
  refine Finset.mem_filter.mpr ⟨hrange, hplace, ?_⟩
  rw [Grammar.answer?_of_le h ho]
  rfl

omit honward in
theorem card_answered_le (g : Grammar) (t : Text) (k : Nat) : (answered g t k).card ≤ 6 * g.size * (t.size + 1) :=
  (Finset.card_filter_le _ _).trans (MemoKey.card_range_le _ _)

omit honward in
/-- What is no node is answered at once. -/
theorem isSome_answer?_of_size_le {key : MemoKey} (h : g.size ≤ key.id) (k : Nat) :
    (g.answer? t (k + 1) key).isSome = true := by
  have hrule : g.rule key.id = default := by
    rw [Grammar.rule, Array.getElem?_eq_none h]
    rfl
  have hkind : (g.rule key.id).kind = .literal default default := by rw [hrule]; rfl
  have hignores : (g.rule key.id).ignores = [] := by rw [hrule]; rfl
  let c := (plainContext g t key.adjacent).deeper
  have hends : (remember (attemptWithin k) c key.id key.position key.acts key.skips).Ends :=
    remember_ends (perform_literal_ends hkind hignores _ rfl key.position key.acts) key.skips
  obtain ⟨step, s', hrun⟩ := hends (State.initial {})
  have hanswer : g.answer? t (k + 1) key
      = answerOf? (remember (attemptWithin k) c key.id key.position key.acts key.skips (State.initial {})) := rfl
  rw [hanswer, hrun]
  rfl

omit honward in
/-- Where more room answers no more keys, it changes no answer. -/
theorem answer?_eq_of_answered {k m : Nat} (hkm : k + 1 ≤ m) (h : answered g t m ⊆ answered g t (k + 1)) {key : MemoKey}
    (hplace : t.IsBoundary key.position) : g.answer? t (k + 1) key = g.answer? t m key := by
  cases hk : g.answer? t (k + 1) key with
  | some o => exact (Grammar.answer?_of_le hkm hk).symm
  | none =>
    have hnode : key.id < g.size := by
      by_contra hle
      have hsome := isSome_answer?_of_size_le (t := t) (Nat.le_of_not_lt hle) k
      rw [hk] at hsome
      exact absurd hsome Bool.false_ne_true
    -- inside a combined region it makes no difference whether to skip
    let key' : MemoKey := { key with skips := key.skips && !key.adjacent }
    have hskips (n : Nat) : g.answer? t n key' = g.answer? t n key :=
      Grammar.answer?_skips g t n key.id key.position key.acts key.skips key.adjacent
    have hrange : key' ∈ MemoKey.range g.size t.size :=
      MemoKey.mem_range ⟨hnode, by simp [key', Bool.and_assoc]⟩ hplace.le_size
    cases hm : g.answer? t m key with
    | none => rfl
    | some o =>
      have hmem : key' ∈ answered g t m := Finset.mem_filter.mpr ⟨hrange, hplace, by rw [hskips, hm]; rfl⟩
      have hsome := (Finset.mem_filter.mp (h hmem)).2.2
      rw [hskips, hk] at hsome
      exact absurd hsome Bool.false_ne_true

/-- Once a level answers no more keys, the next one answers no more either. -/
theorem card_answered_stays (k : Nat) (h : (answered g t (k + 1)).card = (answered g t (k + 2)).card) :
    (answered g t (k + 2)).card = (answered g t (k + 3)).card := by
  have hsame : answered g t (k + 1) = answered g t (k + 2) :=
    Finset.eq_of_subset_of_card_le (answered_mono (Nat.le_succ _)) h.ge
  have hagrees : (still t).Agrees g (attemptWithin (k + 1)) (attemptWithin (k + 2)) :=
    (agrees_still_iff honward).mpr fun key hplace => answer?_eq_of_answered (Nat.le_succ _) hsame.ge hplace
  have hanswers := (agrees_still_iff honward).mp (hagrees.succ honward)
  have hsub : answered g t (k + 3) ⊆ answered g t (k + 2) := by
    intro key hkey
    obtain ⟨hrange, hplace, hsome⟩ := Finset.mem_filter.mp hkey
    exact Finset.mem_filter.mpr ⟨hrange, hplace, hanswers key hplace ▸ hsome⟩
  exact congrArg Finset.card (hsub.antisymm (answered_mono (Nat.le_succ _))).symm

omit honward in
theorem lt_nestingBound (g : Grammar) (t : Text) : 6 * g.size * (t.size + 1) < nestingBound g t := by
  have hplaces : 6 * g.size * (t.size + 1) ≤ 8 * g.size * (t.size + 1) * (t.size + 1) :=
    calc 6 * g.size * (t.size + 1)
      _ ≤ 8 * g.size * (t.size + 1) := by gcongr; omega
      _ ≤ 8 * g.size * (t.size + 1) * (t.size + 1) := Nat.le_mul_of_pos_right _ (Nat.succ_pos _)
  calc 6 * g.size * (t.size + 1)
    _ < (8 * g.size * (t.size + 1) * (t.size + 1) + 1) * 1 := by omega
    _ ≤ nestingBound g t := Nat.mul_le_mul_left _ (by omega)

/-- **Room beyond the bound of nesting answers nothing more.** -/
theorem agrees_of_nestingBound_le {n : Nat} (hn : nestingBound g t ≤ n) :
    (still t).Agrees g (attemptWithin (nestingBound g t)) (attemptWithin n) := by
  have hbound := lt_nestingBound g t
  obtain ⟨k, hk⟩ : ∃ k, nestingBound g t = k + 1 := ⟨nestingBound g t - 1, by omega⟩
  obtain ⟨m, rfl⟩ : ∃ m, n = m + 1 := ⟨n - 1, by omega⟩
  have hmono : Monotone fun k => (answered g t (k + 1)).card :=
    fun _ _ h => Finset.card_le_card (answered_mono (Nat.succ_le_succ h))
  have hstable {j : Nat} (hj : 6 * g.size * (t.size + 1) ≤ j) :=
    Nat.stabilises_of_monotone hmono (fun k => card_answered_le g t (k + 1)) (card_answered_stays honward) hj
  have hcard : (answered g t (m + 1)).card ≤ (answered g t (k + 1)).card :=
    ((hstable (by omega)).trans (hstable (by omega)).symm).le
  rw [hk] at hn ⊢
  have hsame := Finset.eq_of_subset_of_card_le (answered_mono hn) hcard
  exact (agrees_still_iff honward).mpr fun key hplace => answer?_eq_of_answered hn hsame.ge hplace

end Onward

end Move

/-! ## Translation -/

/-- The context on the text after a front. -/
def Context.prepend (u : Text) (c : Context) : Context := { c with text := u ++ c.text }

theorem nestingBound_append_le (g : Grammar) (u t : Text) : nestingBound g t ≤ nestingBound g (u ++ t) := by
  have hsize : t.size ≤ (u ++ t).size := by
    rw [Text.size_append]
    exact Nat.le_add_left _ _
  unfold nestingBound
  dsimp only
  gcongr

/-- **Matching is translation invariant.** Where nodes depend on nothing but the text from their place on, a plain
attempt at a place of a text after a front comes to the outcome of the attempt at that place of the text alone, with the
same results, and with its end, the place of its failure or that of its halt moved by the size of the front. -/
theorem translation_invariant {g : Grammar} (honward : g.Onward) {c : Context} (hg : c.grammar = g) (hc : c.IsPlain)
    (u : Text) (i : ExprId) {p : Nat} (hp : c.text.IsBoundary p) (acts skips : Bool) {s s' : State}
    (hs : s.memo = .off) (hs' : s'.memo = .off) :
    Scan.outcomeOf (attempt (c.prepend u) (c.prepend u) i (u.size + p) acts skips s')
      = (Scan.outcomeOf (attempt c c i p acts skips s)).shift u.size := by
  subst hg
  let M : Move := ⟨u, c.text, c.config.recursionLimit⟩
  have hpair : M.Pair c.grammar c (c.prepend u) := ⟨rfl, rfl, rfl, rfl, rfl, rfl, rfl, rfl, hc, hc⟩
  have hmoved (n : Nat) : Scan.outcomeOf (attemptWithin n (c.prepend u) i (u.size + p) acts skips s')
      = (Scan.outcomeOf (attemptWithin n c i p acts skips s)).shift u.size :=
    (M.attemptWithin_moved honward n hpair i hp acts skips s s' hs hs').outcomeOf_eq
  have hfuel : (c.prepend u).config.recursionLimit = c.config.recursionLimit := rfl
  cases hlimit : c.config.recursionLimit with
  | some limit =>
    simp only [attempt, attemptFuel, hfuel, hlimit]
    exact hmoved _
  | none =>
    -- the attempt after the front has more room, which makes no difference to the one on the text alone
    have hstill : (Move.still c.text).Pair c.grammar c c := ⟨rfl, rfl, rfl, rfl, rfl, rfl, hlimit, hlimit, hc, hc⟩
    have hroom := (Move.agrees_of_nestingBound_le honward (nestingBound_append_le c.grammar u c.text) hstill i hp acts
      skips s s hs hs).outcomeOf_eq
    rw [Move.distance_still, Nat.zero_add, Answer.shift_zero] at hroom
    simp only [attempt, attemptFuel, hfuel, hlimit]
    rw [hmoved]
    exact congrArg (Answer.shift u.size) hroom

/-- Letters up to the end of a line. -/
def letterLine : Grammar :=
  Grammar.ofKinds [.literal "a" false, .repetition 0 1 none none, .lineEnd, .sequence [1, 2]] 3

theorem translation_invariant_letterLine :
    let c := Context.top letterLine { recursionLimit := none } default [' ', 'a', 'a']
    let s := State.initial {}
    letterLine.Onward ∧ c.IsPlain ∧ c.text.IsBoundary 1 ∧
      Scan.outcomeOf (attempt (c.prepend ['é', '\n']) (c.prepend ['é', '\n']) 3 (3 + 1) true true s)
        = (Scan.outcomeOf (attempt c c 3 1 true true s)).shift 3 := by
  intro c s
  have honward : letterLine.Onward := by decide
  have hp : c.text.IsBoundary 1 := by decide
  exact ⟨honward, rfl, hp, translation_invariant honward (c := c) rfl rfl ['é', '\n'] 3 hp true true rfl rfl⟩

end Packrat
