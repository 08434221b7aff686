import Packrat.Proofs.Plain.Answer
import Packrat.Proofs.Plain.Yields

/-!
# `Packrat.Proofs.Plain.Longest` — which child a longest choice takes

A longest choice ranks its children by how far they match without actions, and then attempts them in that order with
actions, until what is left could be longer only by its actions. As actions may refuse, shorten or lengthen a match,
the ranking is not the order of the matches that are taken: a child that matches only with actions is no candidate, and
one that its actions lengthen may come too late. Up to this the longest match is taken.

## Contents

* `LongestOf` — **what a longest choice comes to**, by what its children come to without actions and with them;
* `FirstLongest`, `LongestOf.firstLongest` — the first of the longest matches, where actions do not change ends;
* `ComesTo` — runs that remember nothing, from any state;
* `filter_ranked` — ranking keeps candidates of one length in order;
* `matchCandidates_takes` — candidates in order, with an early end;
* `longest_choice_takes` — **a plain attempt of a longest choice**.
-/

namespace Packrat

/-! ## What is taken -/

/-- The match of a child does not count against an end: it ends no further, or its actions have lengthened it past an
end that was no further. -/
def Step.YieldsTo (stop : Nat) (peek real : Step) : Prop :=
  ∀ reach r end' r', peek = .matched reach r → real = .matched end' r' → end' ≤ stop ∨ reach < end' ∧ reach ≤ stop

/-- What a choice comes to whose children match as `peek` says without actions and as `real` says with them. It fails
when no child that matches without actions matches with them. Otherwise it is the match of one of these, to which all
others yield, and which is the first of those that reach as far without actions and end there. -/
inductive LongestOf (children : List ExprId) (peek real : ExprId → Step) : Step → Prop
  | failed (d : Diagnostic) (h : ∀ j ∈ children, (peek j).isMatch = true → (real j).isMatch = false) :
    LongestOf children peek real (.failed d)
  | matched {before after : List ExprId} {j : ExprId} {reach stop : Nat} {r r' : Results}
    (hchildren : children = before ++ j :: after) (hpeek : peek j = .matched reach r)
    (hreal : real j = .matched stop r') (hlongest : ∀ l ∈ children, Step.YieldsTo stop (peek l) (real l))
    (hfirst : ∀ l ∈ before, ∀ x y, peek l = .matched reach x → real l ≠ .matched stop y) :
    LongestOf children peek real (.matched stop r')

namespace LongestOf

variable {children : List ExprId} {peek real : ExprId → Step} {step : Step}

/-- A longest choice matches exactly if some child matches both without actions and with them. -/
theorem isMatch_iff (h : LongestOf children peek real step) :
    step.isMatch = true ↔ ∃ j ∈ children, (peek j).isMatch = true ∧ (real j).isMatch = true := by
  cases h with
  | failed d h =>
    constructor
    · exact fun hd => absurd hd Bool.false_ne_true
    · rintro ⟨j, hj, hpeek, hreal⟩
      exact absurd ((h j hj hpeek).symm.trans hreal) Bool.false_ne_true
  | @matched before after j reach stop r r' hchildren hpeek hreal _ _ =>
    have hj : j ∈ children := hchildren ▸ List.mem_append_right _ List.mem_cons_self
    exact ⟨fun _ => ⟨j, hj, by rw [hpeek]; rfl, by rw [hreal]; rfl⟩, fun _ => rfl⟩

end LongestOf

/-- What a choice comes to that takes the longest match with actions, and of several the first. -/
inductive FirstLongest (children : List ExprId) (real : ExprId → Step) : Step → Prop
  | failed (d : Diagnostic) (h : ∀ j ∈ children, (real j).isMatch = false) : FirstLongest children real (.failed d)
  | matched {before after : List ExprId} {j : ExprId} {stop : Nat} {r : Results}
    (hchildren : children = before ++ j :: after) (hreal : real j = .matched stop r)
    (hlongest : ∀ l ∈ children, ∀ end' r', real l = .matched end' r' → end' ≤ stop)
    (hfirst : ∀ l ∈ before, ∀ r', real l ≠ .matched stop r') : FirstLongest children real (.matched stop r)

/-- Where actions may refuse matches but do not make them end elsewhere, and none is made with actions only, the first
of the longest matches is taken. -/
theorem LongestOf.firstLongest {children : List ExprId} {peek real : ExprId → Step} {step : Step}
    (h : LongestOf children peek real step)
    (hkeep : ∀ j ∈ children, ∀ stop r, real j = .matched stop r → ∃ r', peek j = .matched stop r') :
    FirstLongest children real step := by
  cases h with
  | failed d h =>
    refine .failed d fun j hj => ?_
    cases hreal : real j with
    | failed d => rfl
    | matched stop r =>
      obtain ⟨r', hpeek⟩ := hkeep j hj stop r hreal
      have hfails := h j hj (by rw [hpeek]; rfl)
      rw [hreal] at hfails
      exact absurd hfails.symm Bool.false_ne_true
  | @matched before after j reach stop r r' hchildren hpeek hreal hlongest hfirst =>
    have hj : j ∈ children := hchildren ▸ List.mem_append_right _ List.mem_cons_self
    obtain ⟨_, hpeek'⟩ := hkeep j hj stop r' hreal
    obtain rfl : reach = stop := (Step.matched.inj (hpeek.symm.trans hpeek')).1
    refine .matched hchildren hreal ?_ ?_
    · intro l hl end' r₁ hend
      obtain ⟨r₂, hreach⟩ := hkeep l hl end' r₁ hend
      rcases hlongest l hl end' r₂ end' r₁ hreach hend with hle | ⟨hlt, -⟩
      · exact hle
      · exact absurd hlt (lt_irrefl _)
    · intro l hl r₁ hend
      have hl' : l ∈ children := hchildren ▸ List.mem_append_left _ hl
      obtain ⟨r₂, hreach⟩ := hkeep l hl' reach r₁ hend
      exact hfirst l hl r₂ r₁ hreach hend

/-! ## Runs that remember nothing -/

/-- From wherever nothing is remembered a computation comes to a value, and leaves nothing remembered. -/
def ComesTo {α : Type} (m : MatchM α) (a : α) : Prop :=
  ∀ s : State, s.memo = .off → ∃ s', m s = .ok a s' ∧ s'.memo = .off

namespace ComesTo

variable {α β : Type} {m : MatchM α} {a : α}

protected theorem pure (a : α) : ComesTo (pure a : MatchM α) a := Yields.pure a

protected theorem bind {f : α → MatchM β} {b : β} (hm : ComesTo m a) (hf : ComesTo (f a) b) :
    ComesTo (m >>= f) b := Yields.bind hm hf

/-- A plain attempt comes from everywhere to what it comes to from one state. -/
theorem of_attemptWithin {g : Grammar} {c : Context} (hg : c.grammar = g) (hc : c.IsPlain) {n : Nat} {i : ExprId}
    {p : Nat} {acts skips : Bool} {s₀ s₁ : State} (hs₀ : s₀.memo = .off) {step : Step}
    (h : attemptWithin n c i p acts skips s₀ = .ok step s₁) : ComesTo (attemptWithin n c i p acts skips) step := by
  intro s hs
  have hanswer := answerOf?_attemptWithin hg hc hs₀ n i p acts skips
  rw [h, answerOf?_ok, ← answerOf?_attemptWithin hg hc hs n i p acts skips] at hanswer
  obtain ⟨s', hrun⟩ := answerOf?_eq_ok hanswer.symm
  exact ⟨s', hrun, memo_attemptWithin hg hc hs n i p acts skips hrun⟩

/-- Skipping leads plain attempts from everywhere to one place. -/
theorem of_skipLeading {g : Grammar} {c : Context} (hg : c.grammar = g) (hc : c.IsPlain) {n : Nat} {rule : Rule}
    {p start : Nat} {s₀ s₁ : State} (hs₀ : s₀.memo = .off)
    (h : skipLeading (attemptWithin n) c rule p s₀ = .ok start s₁) :
    ComesTo (skipLeading (attemptWithin n) c rule p) start := by
  intro s hs
  have hpair : Coupling.PlainPair g n n (c.room n) c c := ⟨⟨hg, hg, rfl, rfl⟩, hc, hc, le_refl _, le_refl _⟩
  have hagrees := Coupling.plain_agrees (Grammar.Closed.all g) (by simp : true = false → _) n n (c.room n)
  have hignores : ∀ i ∈ rule.ignores, True := fun _ _ => trivial
  have hlinked := Coupling.skipLeading_linked (w := ()) (r := false) hagrees hpair hignores p s₀ s ⟨hs₀, hs⟩
  rw [h] at hlinked
  rcases hlinked.cases rfl with ⟨e, s', -, he⟩ | ⟨e, s', s'', he, -, -⟩ | ⟨a, b, s', s'', ha, hb, rfl, hs''⟩
  · exact absurd he (by simp)
  · exact absurd he (by simp)
  · obtain ⟨rfl, -⟩ : start = a ∧ s₁ = s' := by simpa using ha
    exact ⟨s'', hb, hs''.2⟩

/-- A performance matches the node where it begins. -/
protected theorem perform {a : Attempt} {c : Context} {i : ExprId} {p start : Nat} {acts skips : Bool} {step : Step}
    (hbegin : ComesTo (if skips = true then skipLeading a c (c.rule i) p else pure p) start)
    (h : ComesTo (matchNode a c i (c.rule i) start acts) step) :
    ComesTo (perform a c i p acts skips) (step.mapResults (ResultsOf.withOrigin i)) :=
  Yields.perform (fun _ _ hsame hs => hsame.memo.trans hs) hbegin h

end ComesTo

/-! ## Ranking -/

/-- Whether a candidate may stand before another one. -/
def Candidate.before (a b : Candidate) : Bool := b.stop ≤ a.stop

section Ranking

variable {found : List Candidate}

theorem pairwise_ranked (found : List Candidate) :
    (found.mergeSort Candidate.before).Pairwise fun a b => b.stop ≤ a.stop := by
  have h : (found.mergeSort Candidate.before).Pairwise fun a b => Candidate.before a b = true :=
    List.pairwise_mergeSort (by simp [Candidate.before]; omega) (by simp [Candidate.before]; omega) found
  exact h.imp fun hab => of_decide_eq_true hab

/-- Ranking keeps candidates that reach equally far in order. -/
theorem filter_ranked (found : List Candidate) (stop : Nat) :
    (found.mergeSort Candidate.before).filter (·.stop == stop) = found.filter (·.stop == stop) := by
  have hpairwise : (found.filter (·.stop == stop)).Pairwise (fun a b => Candidate.before a b = true) := by
    refine List.pairwise_of_forall_mem_list fun a ha b hb => ?_
    have ha := (List.mem_filter.mp ha).2
    have hb := (List.mem_filter.mp hb).2
    simp only [beq_iff_eq] at ha hb
    simp [Candidate.before, ha, hb]
  have hsub := List.sublist_mergeSort (by simp [Candidate.before]; omega) (by simp [Candidate.before]; omega)
    hpairwise List.filter_sublist
  have hfilter := hsub.filter (·.stop == stop)
  simp only [List.filter_filter, Bool.and_self] at hfilter
  have hperm := (List.mergeSort_perm found Candidate.before).filter (·.stop == stop)
  exact (hfilter.eq_of_length hperm.length_eq.symm).symm

/-- A list splits in one way before the first place of an element. -/
theorem eq_of_append_cons_eq {α : Type} {as bs cs ds : List α} {x : α} (h : as ++ x :: bs = cs ++ x :: ds)
    (ha : x ∉ as) (hc : x ∉ cs) : as = cs := by
  induction as generalizing cs with
  | nil =>
    cases cs with
    | nil => rfl
    | cons c cs =>
      obtain rfl : x = c := (List.cons.inj h).1
      exact absurd List.mem_cons_self hc
  | cons a as ih =>
    cases cs with
    | nil =>
      obtain rfl : a = x := (List.cons.inj h).1
      exact absurd List.mem_cons_self ha
    | cons c cs =>
      obtain ⟨rfl, hrest⟩ := List.cons.inj h
      rw [ih hrest (fun hx => ha (List.mem_cons_of_mem _ hx)) fun hx => hc (List.mem_cons_of_mem _ hx)]

/-- What stands before an element among the found, and reaches as far, stands before its first place when they are
ranked. -/
theorem mem_of_ranked {before after pre post : List Candidate} {x y : Candidate} (hfound : found = before ++ x :: after)
    (hranked : found.mergeSort Candidate.before = pre ++ x :: post) (hbefore : x ∉ before) (hpre : x ∉ pre)
    (hy : y ∈ before) (hstop : y.stop = x.stop) : y ∈ pre := by
  have hfilter := filter_ranked found x.stop
  rw [hranked, hfound, List.filter_append, List.filter_append, List.filter_cons_of_pos (by simp),
    List.filter_cons_of_pos (by simp)] at hfilter
  have heq := eq_of_append_cons_eq hfilter (fun hx => hpre (List.mem_of_mem_filter hx))
    fun hx => hbefore (List.mem_of_mem_filter hx)
  have hmem : y ∈ before.filter (·.stop == x.stop) := List.mem_filter.mpr ⟨hy, by simp [hstop]⟩
  rw [← heq] at hmem
  exact List.mem_of_mem_filter hmem

end Ranking

/-! ## Candidates -/

/-- The child as a candidate, if it matches without actions. -/
def Candidate.ofPeek? (peek : ExprId → Step) (j : ExprId) : Option Candidate :=
  match peek j with
  | .matched reach r => some ⟨reach, j, r⟩
  | .failed _ => none

section Candidates

variable {a : Attempt} {c : Context} {rule : Rule} {start : Nat} {peek real : ExprId → Step}

theorem Candidate.eq_of_ofPeek? {j : ExprId} {x : Candidate} (h : Candidate.ofPeek? peek j = some x) :
    x.child = j ∧ peek j = .matched x.stop x.results := by
  unfold ofPeek? at h
  split at h
  · next reach r hpeek =>
    obtain rfl := Option.some.inj h
    exact ⟨rfl, hpeek⟩
  · exact absurd h (by simp)

theorem Candidate.ofPeek?_of_matched {j : ExprId} {reach : Nat} {r : Results} (h : peek j = .matched reach r) :
    Candidate.ofPeek? peek j = some ⟨reach, j, r⟩ := by
  rw [ofPeek?, h]

/-- The candidates are the children that match without actions. -/
theorem findCandidates_comesTo {children : List ExprId}
    (hpeek : ∀ j ∈ children, ComesTo (a c j start false true) (peek j)) (found : List Candidate)
    (best : Option Diagnostic) :
    ∃ best', ComesTo (findCandidates a c start children found best)
      (found.reverse ++ children.filterMap (Candidate.ofPeek? peek), best') := by
  induction children generalizing found best with
  | nil =>
    rw [findCandidates, List.filterMap_nil, List.append_nil]
    exact ⟨best, ComesTo.pure _⟩
  | cons j children ih =>
    have hrest : ∀ l ∈ children, ComesTo (a c l start false true) (peek l) :=
      fun l hl => hpeek l (List.mem_cons_of_mem _ hl)
    rw [findCandidates]
    cases hstep : peek j with
    | matched reach r =>
      obtain ⟨best', h⟩ := ih hrest (⟨reach, j, r⟩ :: found) best
      rw [List.reverse_cons, List.append_assoc] at h
      rw [List.filterMap_cons_some (Candidate.ofPeek?_of_matched hstep)]
      exact ⟨best', (hstep ▸ hpeek j List.mem_cons_self).bind h⟩
    | failed d =>
      obtain ⟨best', h⟩ := ih hrest found (furthestOf best d)
      have hnone : Candidate.ofPeek? peek j = none := by rw [Candidate.ofPeek?, hstep]
      rw [List.filterMap_cons_none hnone]
      exact ⟨best', (hstep ▸ hpeek j List.mem_cons_self).bind h⟩

/-- A candidate yields to an end, by what it comes to with actions. -/
def Candidate.YieldsTo (real : ExprId → Step) (stop : Nat) (x : Candidate) : Prop :=
  ∀ end' r, real x.child = .matched end' r → end' ≤ stop ∨ x.stop < end' ∧ x.stop ≤ stop

/-- What attempting ranked candidates comes to, when the longest match so far is given: it stays, and all candidates
yield to it; or one of them is taken that ends further, those before it end less far, and those after it yield. -/
inductive Takes (real : ExprId → Step) (longest : Option (Nat × Results)) (xs : List Candidate) : Step → Prop
  | refused (d : Diagnostic) (hlongest : longest = none) (h : ∀ x ∈ xs, (real x.child).isMatch = false) :
    Takes real longest xs (.failed d)
  | kept {stop : Nat} {r : Results} (hlongest : longest = some (stop, r)) (h : ∀ x ∈ xs, x.YieldsTo real stop) :
    Takes real longest xs (.matched stop r)
  | taken {pre post : List Candidate} {x : Candidate} {stop : Nat} {r : Results} (hxs : xs = pre ++ x :: post)
    (hreal : real x.child = .matched stop r) (hlongest : ∀ y ∈ longest, y.1 < stop)
    (hpre : ∀ y ∈ pre, ∀ end' r', real y.child = .matched end' r' → end' < stop)
    (hpost : ∀ y ∈ post, y.YieldsTo real stop) : Takes real longest xs (.matched stop r)

/-- A candidate that was tried and ends less far than what is taken later does not change what is taken. -/
theorem Takes.cons {longest longest' : Option (Nat × Results)} {x : Candidate} {xs : List Candidate} {step : Step}
    (h : Takes real longest' xs step)
    (hnone : longest' = none → longest = none ∧ (real x.child).isMatch = false)
    (hkept : ∀ stop r, longest' = some (stop, r) →
      longest = some (stop, r) ∧ x.YieldsTo real stop ∨
        real x.child = .matched stop r ∧ ∀ y ∈ longest, y.1 < stop)
    (htaken : ∀ stop, (∀ y ∈ longest', y.1 < stop) →
      (∀ y ∈ longest, y.1 < stop) ∧ ∀ end' r', real x.child = .matched end' r' → end' < stop) :
    Takes real longest (x :: xs) step := by
  cases h with
  | refused d hlongest h =>
    obtain ⟨hl, hx⟩ := hnone hlongest
    exact .refused d hl (List.forall_mem_cons.mpr ⟨hx, h⟩)
  | kept hlongest h =>
    rcases hkept _ _ hlongest with ⟨hl, hx⟩ | ⟨hx, hl⟩
    · exact .kept hl (List.forall_mem_cons.mpr ⟨hx, h⟩)
    · exact .taken (List.nil_append _).symm hx hl (by simp) h
  | @taken pre post y stop r hxs hreal hlongest hpre hpost =>
    obtain ⟨hl, hx⟩ := htaken stop hlongest
    have hxs' : x :: xs = (x :: pre) ++ y :: post := by rw [hxs]; rfl
    exact .taken hxs' hreal hl (List.forall_mem_cons.mpr ⟨hx, hpre⟩) hpost

theorem isLonger_eq_true {longest : Option (Nat × Results)} {stop : Nat} :
    isLonger longest stop = true ↔ ∀ y ∈ longest, y.1 < stop := by
  rcases longest with _ | ⟨old, r⟩ <;> simp [isLonger]

/-- A candidate that matched becomes the longest match so far if it is longer, and yields to it otherwise. -/
theorem Takes.tried {longest : Option (Nat × Results)} {x : Candidate} {xs : List Candidate} {step : Step} {stop : Nat}
    {r : Results} (hstep : real x.child = .matched stop r)
    (h : Takes real (if isLonger longest stop then some (stop, r) else longest) xs step) :
    Takes real longest (x :: xs) step := by
  have hends : ∀ end' r', real x.child = .matched end' r' → end' = stop :=
    fun end' r' h => (Step.matched.inj (h.symm.trans hstep)).1
  cases hlonger : isLonger longest stop with
  | true =>
    rw [if_pos hlonger] at h
    have hlt := isLonger_eq_true.mp hlonger
    refine h.cons (fun h => absurd h (by simp)) ?_ ?_
    · intro stop' r' h
      obtain ⟨rfl, rfl⟩ := Prod.mk.inj (Option.some.inj h)
      exact Or.inr ⟨hstep, hlt⟩
    · intro stop' h
      have hstop' : stop < stop' := h _ rfl
      exact ⟨fun y hy => (hlt y hy).trans hstop', fun end' r' h => hends end' r' h ▸ hstop'⟩
  | false =>
    rw [if_neg (by simp [hlonger])] at h
    obtain ⟨⟨old, q⟩, hold, hle⟩ : ∃ y, y ∈ longest ∧ ¬ y.1 < stop := by
      simpa using mt isLonger_eq_true.mpr (by simp [hlonger])
    obtain rfl := Option.mem_def.mp hold
    have hle : stop ≤ old := Nat.le_of_not_lt hle
    refine h.cons (fun h => absurd h (by simp)) ?_ ?_
    · intro stop' r' h
      obtain ⟨rfl, rfl⟩ := Prod.mk.inj (Option.some.inj h)
      exact Or.inl ⟨rfl, fun end' r' h => Or.inl (hends end' r' h ▸ hle)⟩
    · intro stop' h
      exact ⟨h, fun end' r' hx => hends end' r' hx ▸ hle.trans_lt (h _ rfl)⟩

/-- Where the longest match so far is at least as long as the next candidate, the search ends. -/
theorem matchCandidates_ended {x : Candidate} {stop : Nat} (h : x.stop ≤ stop) (xs : List Candidate) (r : Results)
    (best : Option Diagnostic) :
    matchCandidates a c rule start (x :: xs) (some (stop, r)) best = pure (.matched stop r) := by
  rw [matchCandidates]
  simp only [if_pos h]

/-- Where the next candidate could be longer than the longest match so far, it is tried. -/
theorem matchCandidates_tries {x : Candidate} {longest : Option (Nat × Results)} (h : ∀ y ∈ longest, y.1 < x.stop)
    (xs : List Candidate) (best : Option Diagnostic) :
    matchCandidates a c rule start (x :: xs) longest best
      = tryCandidate a c start x longest best (matchCandidates a c rule start xs) := by
  rcases longest with _ | ⟨stop, r⟩
  · rfl
  · have hlt : ¬ x.stop ≤ stop := Nat.not_le_of_lt (h _ rfl)
    rw [matchCandidates]
    simp only [if_neg hlt]

/-- **Candidates in order**, with an early end: what is left when the search ends could be longer only by its
actions. -/
theorem matchCandidates_takes (rule : Rule) {xs : List Candidate} (hranked : xs.Pairwise fun x y => y.stop ≤ x.stop)
    (hreal : ∀ x ∈ xs, ComesTo (a c x.child start true true) (real x.child)) (longest : Option (Nat × Results))
    (best : Option Diagnostic) :
    ∃ step, ComesTo (matchCandidates a c rule start xs longest best) step ∧ Takes real longest xs step := by
  induction xs generalizing longest best with
  | nil =>
    rcases longest with _ | ⟨stop, r⟩
    · obtain ⟨d, hd⟩ := choiceFailure_eq_failed best start rule
      exact ⟨.failed d, fun s hs => ⟨s, by rw [matchCandidates, ← hd]; rfl, hs⟩, .refused d rfl (by simp)⟩
    · exact ⟨.matched stop r, ComesTo.pure _, .kept rfl (by simp)⟩
  | cons x xs ih =>
    obtain ⟨hshorter, hranked⟩ := List.pairwise_cons.mp hranked
    have ih := ih hranked fun y hy => hreal y (List.mem_cons_of_mem _ hy)
    have hx := hreal x List.mem_cons_self
    -- what reaches no further than an end yields to it
    have hyields {stop : Nat} (hstop : x.stop ≤ stop) {y : Candidate} (hy : y.stop ≤ x.stop) : y.YieldsTo real stop :=
      fun end' _ _ => (Nat.lt_or_ge stop end').symm.imp_right fun hlt => by omega
    by_cases htry : ∀ y ∈ longest, y.1 < x.stop
    · rw [matchCandidates_tries htry]
      unfold tryCandidate
      cases hstep : real x.child with
      | failed d =>
        rw [hstep] at hx
        obtain ⟨step, hrun, htakes⟩ := ih longest (furthestOf best d)
        refine ⟨step, hx.bind hrun, htakes.cons ?_ ?_ ?_⟩
        · exact fun h => ⟨h, by rw [hstep]; rfl⟩
        · exact fun stop r h => Or.inl ⟨h, fun _ _ h => absurd (hstep.symm.trans h) (by simp)⟩
        · exact fun stop h => ⟨h, fun _ _ h => absurd (hstep.symm.trans h) (by simp)⟩
      | matched stop r =>
        rw [hstep] at hx
        by_cases hstop : x.stop ≤ stop
        · refine ⟨.matched stop r, hx.bind ?_, .taken (List.nil_append _).symm hstep ?_ (by simp) ?_⟩
          · simp only [if_pos hstop]
            exact ComesTo.pure _
          · exact fun y hy => (htry y hy).trans_le hstop
          · exact fun y hy => hyields hstop (hshorter y hy)
        · obtain ⟨step, hrun, htakes⟩ := ih (if isLonger longest stop then some (stop, r) else longest) best
          refine ⟨step, hx.bind ?_, ?_⟩
          · simp only [if_neg hstop]
            exact hrun
          · exact htakes.tried hstep
    · obtain ⟨⟨stop, r⟩, hlongest, hle⟩ : ∃ y, y ∈ longest ∧ ¬ y.1 < x.stop := by simpa using htry
      obtain rfl := Option.mem_def.mp hlongest
      have hle : x.stop ≤ stop := Nat.le_of_not_lt hle
      rw [matchCandidates_ended hle]
      refine ⟨.matched stop r, ComesTo.pure _, .kept rfl (List.forall_mem_cons.mpr ⟨?_, ?_⟩)⟩
      · exact hyields hle le_rfl
      · exact fun y hy => hyields hle (hshorter y hy)

/-! ## The choice -/

/-- What is taken of the ranked candidates is what a longest choice comes to. -/
theorem Takes.longestOf {children : List ExprId} {step : Step}
    (h : Takes real none ((children.filterMap (Candidate.ofPeek? peek)).mergeSort Candidate.before) step) :
    LongestOf children peek real step := by
  have hmem {j : ExprId} (hj : j ∈ children) {reach : Nat} {r : Results} (hpeek : peek j = .matched reach r) :
      ⟨reach, j, r⟩ ∈ (children.filterMap (Candidate.ofPeek? peek)).mergeSort Candidate.before :=
    List.mem_mergeSort.mpr (List.mem_filterMap.mpr ⟨j, hj, Candidate.ofPeek?_of_matched hpeek⟩)
  generalize hranked : (children.filterMap (Candidate.ofPeek? peek)).mergeSort Candidate.before = xs at h hmem
  cases h with
  | refused d _ h =>
    refine .failed d fun j hj hmatch => ?_
    cases hpeek : peek j with
    | matched reach r => exact h _ (hmem hj hpeek)
    | failed d => rw [hpeek] at hmatch; exact absurd hmatch Bool.false_ne_true
  | kept hlongest _ => exact absurd hlongest (by simp)
  | @taken pre post x stop r hxs hreal _ hpre hpost =>
    have hx : x ∈ children.filterMap (Candidate.ofPeek? peek) :=
      List.mem_mergeSort.mp (hranked ▸ hxs ▸ List.mem_append_right _ List.mem_cons_self)
    obtain ⟨j, hj, hfound⟩ := List.mem_filterMap.mp hx
    obtain ⟨rfl, hpeek⟩ := Candidate.eq_of_ofPeek? hfound
    obtain ⟨before, after, hchildren, hbefore⟩ := List.eq_append_cons_of_mem hj
    refine .matched hchildren hpeek hreal ?_ ?_
    · intro l hl reach r₀ end' r' hreach hend
      have hmem := hmem hl hreach
      rw [hxs] at hmem
      rcases List.mem_append.mp hmem with hmem | hmem
      · exact Or.inl (hpre _ hmem end' r' hend).le
      · rcases List.mem_cons.mp hmem with rfl | hmem
        · exact Or.inl (Step.matched.inj (hend.symm.trans hreal)).1.le
        · exact hpost _ hmem end' r' hend
    · intro l hl r₀ r' hreach hend
      -- an earlier child that reaches as far is ranked before, where matches are shorter
      have hsplit : children.filterMap (Candidate.ofPeek? peek)
          = before.filterMap (Candidate.ofPeek? peek) ++ x :: after.filterMap (Candidate.ofPeek? peek) := by
        rw [hchildren, List.filterMap_append, List.filterMap_cons_some hfound]
      have hnot : x ∉ before.filterMap (Candidate.ofPeek? peek) := by
        intro hx
        obtain ⟨j, hj, hfound⟩ := List.mem_filterMap.mp hx
        exact hbefore ((Candidate.eq_of_ofPeek? hfound).1 ▸ hj)
      have hnot' : x ∉ pre := fun hx => absurd (hpre x hx stop r hreal) (lt_irrefl _)
      have hearlier : ⟨x.stop, l, r₀⟩ ∈ before.filterMap (Candidate.ofPeek? peek) :=
        List.mem_filterMap.mpr ⟨l, hl, Candidate.ofPeek?_of_matched hreach⟩
      have hrank := mem_of_ranked hsplit (hranked.trans hxs) hnot hnot' hearlier rfl
      exact absurd (hpre _ hrank stop r' hend) (lt_irrefl _)

theorem matchLongest_takes (rule : Rule) {children : List ExprId}
    (hpeek : ∀ j ∈ children, ComesTo (a c j start false true) (peek j))
    (hreal : ∀ j ∈ children, ComesTo (a c j start true true) (real j)) :
    ∃ step, ComesTo (matchLongest a c rule children start true) step ∧ LongestOf children peek real step := by
  obtain ⟨best, hfound⟩ := findCandidates_comesTo hpeek [] none
  have hchild {x : Candidate} (hx : x ∈ (children.filterMap (Candidate.ofPeek? peek)).mergeSort Candidate.before) :
      x.child ∈ children := by
    obtain ⟨j, hj, hfound⟩ := List.mem_filterMap.mp (List.mem_mergeSort.mp hx)
    exact (Candidate.eq_of_ofPeek? hfound).1 ▸ hj
  obtain ⟨step, hrun, htakes⟩ := matchCandidates_takes rule (pairwise_ranked _)
    (fun x hx => hreal x.child (hchild hx)) none best
  exact ⟨step, hfound.bind hrun, htakes.longestOf⟩

end Candidates

/-! ## Attempts of longest choices -/

/-- Where a node begins to match that is attempted from a state: at its place, or where skipping leads from there. -/
def Context.BeginsAt (c : Context) (n : Nat) (i : ExprId) (p : Nat) (skips : Bool) (s : State) (start : Nat) : Prop :=
  if skips && !c.adjacent then ∃ s', skipLeading (attemptWithin n) c (c.rule i) p s = .ok start s' else start = p

section Attempts

variable {g : Grammar} {c : Context} (hg : c.grammar = g) (hc : c.IsPlain)
include hg hc

/-- An attempt is performed by matching its node where it begins. -/
theorem attemptWithin_comesTo {n : Nat} (hlimit : ∀ limit ∈ c.config.recursionLimit, c.depth < limit) {i : ExprId}
    {p start : Nat} {acts skips : Bool} {s : State} (hs : s.memo = .off)
    (hstart : c.deeper.BeginsAt n i p skips s start) {step : Step}
    (h : ComesTo (matchNode (attemptWithin n) c.deeper i (c.deeper.rule i) start acts) step) :
    ComesTo (attemptWithin (n + 1) c i p acts skips) (step.mapResults (ResultsOf.withOrigin i)) := by
  have hbegin : ComesTo (if (skips && !c.deeper.adjacent) = true
      then skipLeading (attemptWithin n) c.deeper (c.deeper.rule i) p else pure p) start := by
    unfold Context.BeginsAt at hstart
    split at hstart
    · next hskips =>
      obtain ⟨s', hrun⟩ := hstart
      rw [if_pos hskips]
      exact ComesTo.of_skipLeading (c := c.deeper) hg hc hs hrun
    · next hskips =>
      rw [if_neg hskips, hstart]
      exact ComesTo.pure p
  intro s hs
  rcases attemptWithin_succ n c i p acts skips with ⟨limit, hmem, hle, -⟩ | heq
  · exact absurd (hlimit limit hmem) (Nat.not_lt_of_le hle)
  · rw [heq, remember_off hs]
    exact ComesTo.perform hbegin h s.counted hs

/-- **A plain attempt of a longest choice** whose children do not halt where it begins comes to what its children come
to there without actions and with them. -/
theorem longest_choice_takes {n : Nat} (hlimit : ∀ limit ∈ c.config.recursionLimit, c.depth < limit) {i : ExprId}
    {children : List ExprId} (hkind : (g.rule i).kind = .longestChoice children) {p start : Nat} {skips : Bool}
    {s : State} (hs : s.memo = .off) (hstart : c.deeper.BeginsAt n i p skips s start) {peek real : ExprId → Step}
    (hpeek : ∀ j ∈ children, ∃ s', attemptWithin n c.deeper j start false true s = .ok (peek j) s')
    (hreal : ∀ j ∈ children, ∃ s', attemptWithin n c.deeper j start true true s = .ok (real j) s') :
    ∃ step s', attemptWithin (n + 1) c i p true skips s = .ok (step.mapResults (ResultsOf.withOrigin i)) s'
      ∧ LongestOf children peek real step := by
  have hcomes {acts : Bool} {out : ExprId → Step}
      (h : ∀ j ∈ children, ∃ s', attemptWithin n c.deeper j start acts true s = .ok (out j) s') (j : ExprId)
      (hj : j ∈ children) : ComesTo (attemptWithin n c.deeper j start acts true) (out j) := by
    obtain ⟨s', hrun⟩ := h j hj
    exact ComesTo.of_attemptWithin (c := c.deeper) hg hc hs hrun
  obtain ⟨step, hmatch, hlongest⟩ := matchLongest_takes (c.deeper.rule i) (hcomes hpeek) (hcomes hreal)
  have hnode : matchNode (attemptWithin n) c.deeper i (c.deeper.rule i) start true
      = matchLongest (attemptWithin n) c.deeper (c.deeper.rule i) children start true := by
    have hk : (c.deeper.rule i).kind = .longestChoice children := by
      rw [← hkind, ← hg]
      rfl
    simp only [matchNode, hk]
  rw [← hnode] at hmatch
  obtain ⟨s', hrun, -⟩ := attemptWithin_comesTo hg hc hlimit hs hstart hmatch s hs
  exact ⟨step, s', hrun, hlongest⟩

end Attempts

/-- A choice between a letter that an action rejects, and the rejected letter or two letters before a third one. -/
def rejectedLetter : Grammar :=
  Grammar.ofKinds [.literal "a" false, .transform 0 (.ofTest (fun _ => false) "no"), .literal "ab" false,
    .orderedChoice [1, 2], .literal "c" false, .sequence [3, 4], .longestChoice [1, 5]] 6

/-- Whether a run matches. -/
def matches? (x : EStateM.Result Halt State Step) : Option Bool :=
  match x with
  | .ok step _ => some step.isMatch
  | .error _ _ => none

theorem exists_of_matches? {x : EStateM.Result Halt State Step} {b : Bool} (h : matches? x = some b) :
    ∃ step s', x = .ok step s' ∧ step.isMatch = b := by
  cases x with
  | ok step s' => exact ⟨step, s', rfl, Option.some.inj h⟩
  | error e s' => exact absurd h (by simp [matches?])

/-- What the children come to: neither matches both without actions and with them. -/
theorem rejectedLetter_children (acts : Bool) (j : ExprId) (hj : j ∈ [1, 5]) :
    ∃ step s', attemptWithin 5 (plainContext rejectedLetter ['a', 'b', 'c'] false).deeper j 0 acts true
      (State.initial {}) = .ok step s' ∧ step.isMatch = (decide (j = 5) == acts) := by
  apply exists_of_matches?
  rcases List.mem_pair.mp hj with rfl | rfl <;> cases acts <;> decide +kernel

theorem longest_choice_takes_rejectedLetter :
    let c := plainContext rejectedLetter ['a', 'b', 'c'] false
    let s := State.initial {}
    ∃ peek real, (∀ j ∈ [1, 5], ∃ s', attemptWithin 5 c.deeper j 0 false true s = .ok (peek j) s') ∧
      (∀ j ∈ [1, 5], ∃ s', attemptWithin 5 c.deeper j 0 true true s = .ok (real j) s') ∧
      ∃ step s', attemptWithin 6 c 6 0 true false s = .ok (step.mapResults (ResultsOf.withOrigin 6)) s' ∧
        LongestOf [1, 5] peek real step := by
  intro c s
  choose! peek s₁ hpeek using rejectedLetter_children false
  choose! real s₂ hreal using rejectedLetter_children true
  have hpeek : ∀ j ∈ [1, 5], ∃ s', attemptWithin 5 c.deeper j 0 false true s = .ok (peek j) s' :=
    fun j hj => ⟨s₁ j, (hpeek j hj).1⟩
  have hreal : ∀ j ∈ [1, 5], ∃ s', attemptWithin 5 c.deeper j 0 true true s = .ok (real j) s' :=
    fun j hj => ⟨s₂ j, (hreal j hj).1⟩
  have hlimit : ∀ limit ∈ c.config.recursionLimit, c.depth < limit := by simp [c, plainContext]
  have hstart : c.deeper.BeginsAt 5 6 0 false s 0 := rfl
  exact ⟨peek, real, hpeek, hreal, longest_choice_takes (c := c) rfl rfl hlimit rfl rfl hstart hpeek hreal⟩

/-- The longest match with actions is not always taken, and the choice may fail where a child matches: the second child
matches only because the letter is rejected, so that without actions it is no candidate. -/
theorem not_firstLongest_rejectedLetter :
    let c := plainContext rejectedLetter ['a', 'b', 'c'] false
    let s := State.initial {}
    ∃ real, (∀ j ∈ [1, 5], ∃ s', attemptWithin 5 c.deeper j 0 true true s = .ok (real j) s') ∧
      ∃ step s', attemptWithin 6 c 6 0 true false s = .ok step s' ∧
        ¬ ∃ r, FirstLongest [1, 5] real r ∧ step = r.mapResults (ResultsOf.withOrigin 6) := by
  intro c s
  choose! real s₂ hreal using rejectedLetter_children true
  have hchoice : matches? (attemptWithin 6 c 6 0 true false s) = some false := by decide +kernel
  obtain ⟨step, s', hrun, hfails⟩ := exists_of_matches? hchoice
  refine ⟨real, fun j hj => ⟨s₂ j, (hreal j hj).1⟩, step, s', hrun, ?_⟩
  rintro ⟨r, hfirst, rfl⟩
  cases hfirst with
  | failed d h =>
    have hmatch : (real 5).isMatch = true := (hreal 5 (by simp)).2
    exact absurd ((h 5 (by simp)).symm.trans hmatch) Bool.false_ne_true
  | matched hchildren hend hlongest hearlier => exact absurd hfails.symm Bool.false_ne_true

end Packrat
