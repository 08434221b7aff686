import Packrat.Proofs.Plain.Longest
import Packrat.Proofs.Plain.Told
import Packrat.Proofs.Region.Spelling
import Packrat.Proofs.Scanning.Naive

/-!
# `Packrat.Proofs.Plain.Lookbehind` — the match that ends at a place

Looking behind attempts a child on the text before the start, from the places before the start, the nearest first, until
a match ends at the start. So it matches exactly if there is such a place, and keeps the fields of the nearest one. The
start itself is no such place: what the child matches there without consuming text ends there, but is not found.

## Contents

* `Text.Behind`, `Text.placesBehind` — the places behind a start, and those that are tried, in order;
* `NearestMatch` — **what looking behind comes to**, by what its child comes to from each place;
* `ComesTo.recover`, `ComesTo.aside` — plain attempts whose committed failures count as ordinary ones, on a state apart;
* `findBehind_comesTo`, `matchPrecededBy_comesTo` — the search;
* `preceded_by_takes_nearest` — **a plain attempt that looks behind**.
-/

namespace Packrat

/-! ## Places behind -/

namespace Text

/-- A place from which a match may begin that ends at the start: one with at most `retreat` characters up to the start. -/
structure Behind (t : Text) (start : Nat) (retreat : Option Nat) (q : Nat) : Prop where
  place : t.IsBoundary q
  le : q ≤ start
  near : ∀ n ∈ retreat, (t.slice q start).length ≤ n

/-- The places that are tried, in order. -/
def placesBehind (t : Text) (start : Nat) (retreat : Option Nat) : List Nat :=
  match retreat with
  | some n => (t.before start).starts.reverse.take n
  | none => (t.before start).starts.reverse

theorem length_startsFrom (base : Nat) (t : Text) : (startsFrom base t).length = t.length := by
  induction t generalizing base with
  | nil => rfl
  | cons c t ih => rw [startsFrom, List.length_cons, List.length_cons, ih]

theorem pairwise_startsFrom (base : Nat) (t : Text) : (startsFrom base t).Pairwise (· < ·) := by
  induction t generalizing base with
  | nil => exact .nil
  | cons c t ih =>
    refine .cons (fun q hq => ?_) (ih _)
    exact (Nat.lt_add_of_pos_right (Char.utf8Size_pos c)).trans_le (le_of_mem_startsFrom hq)

theorem starts_concat (u : Text) (c : Char) : (u ++ [c]).starts.reverse = u.size :: u.starts.reverse := by
  rw [starts, startsFrom_append, List.reverse_append, Nat.zero_add]
  rfl

theorem size_pos {t : Text} (h : t ≠ []) : 0 < t.size := by
  cases t with
  | nil => exact absurd rfl h
  | cons c t => exact Nat.add_pos_left (Char.utf8Size_pos c) _

/-- The last `n` characters of a text start where at most `n` characters are left of it. -/
theorem mem_take_reverse_starts {u : Text} {n q : Nat} :
    q ∈ u.starts.reverse.take n ↔ ∃ x y, u = x ++ y ∧ x.size = q ∧ y ≠ [] ∧ y.length ≤ n := by
  induction u using List.reverseRecOn generalizing n with
  | nil =>
    constructor
    · exact fun h => absurd (List.mem_of_mem_take h) List.not_mem_nil
    · rintro ⟨x, y, h, -, hy, -⟩
      exact absurd (List.append_eq_nil_iff.mp h.symm).2 hy
  | append_singleton u c ih =>
    rw [starts_concat]
    cases n with
    | zero =>
      constructor
      · exact fun h => absurd h List.not_mem_nil
      · rintro ⟨x, y, -, -, hy, hlength⟩
        exact absurd (List.eq_nil_of_length_eq_zero (Nat.le_zero.mp hlength)) hy
    | succ n =>
      rw [List.take_succ_cons, List.mem_cons, ih]
      constructor
      · rintro (rfl | ⟨x, y, rfl, rfl, -, hlength⟩)
        · exact ⟨u, [c], rfl, rfl, List.cons_ne_nil c [], Nat.le_add_left 1 n⟩
        · refine ⟨x, y ++ [c], List.append_assoc x y [c], rfl, by simp, ?_⟩
          rw [List.length_append]
          exact Nat.succ_le_succ hlength
      · rintro ⟨x, y, hsplit, rfl, hy, hlength⟩
        -- what is left after the place ends with the last character
        obtain ⟨y, d, rfl⟩ := (List.eq_nil_or_concat' y).resolve_left hy
        rw [← List.append_assoc] at hsplit
        obtain ⟨rfl, -⟩ := List.append_inj' hsplit rfl
        rw [List.length_append] at hlength
        by_cases hy : y = []
        · subst hy
          exact Or.inl (by rw [List.append_nil])
        · exact Or.inr ⟨x, y, rfl, rfl, hy, Nat.le_of_succ_le_succ hlength⟩

variable {t : Text} {start q : Nat} {retreat : Option Nat}

/-- The slice between two parts of a text is what lies between them. -/
theorem slice_between (x y b : Text) : ((x ++ y) ++ b).slice x.size (x ++ y).size = y := by
  have hplace : ((x ++ y) ++ b).IsBoundary x.size := isBoundary_iff.mpr ⟨x, y ++ b, List.append_assoc x y b, rfl⟩
  have hrest : ((x ++ y) ++ b).rest x.size = y ++ b := by rw [List.append_assoc, rest_append]
  rw [size_append, hplace.slice_of_rest hrest]

theorem mem_placesBehind_append {u b : Text} :
    q ∈ (u ++ b).placesBehind u.size retreat ↔
      ∃ x y, u = x ++ y ∧ x.size = q ∧ y ≠ [] ∧ ∀ n ∈ retreat, y.length ≤ n := by
  unfold placesBehind
  rw [before_append]
  cases retreat with
  | none =>
    have hall : u.starts.reverse = u.starts.reverse.take u.length := by
      rw [List.take_of_length_le]
      rw [List.length_reverse, starts, length_startsFrom]
    show q ∈ u.starts.reverse ↔ _
    rw [hall, mem_take_reverse_starts]
    constructor
    · rintro ⟨x, y, hu, hq, hy, -⟩
      exact ⟨x, y, hu, hq, hy, fun n hn => absurd hn (by simp)⟩
    · rintro ⟨x, y, rfl, hq, hy, -⟩
      exact ⟨x, y, rfl, hq, hy, by rw [List.length_append]; exact Nat.le_add_left _ _⟩
  | some n =>
    show q ∈ u.starts.reverse.take n ↔ _
    rw [mem_take_reverse_starts]
    simp only [Option.mem_some_iff, forall_eq']

/-- All places behind are tried, but for the start. -/
theorem mem_placesBehind (hstart : t.IsBoundary start) :
    q ∈ t.placesBehind start retreat ↔ t.Behind start retreat q ∧ q < start := by
  obtain ⟨u, b, rfl, rfl⟩ := isBoundary_iff.mp hstart
  rw [mem_placesBehind_append]
  constructor
  · rintro ⟨x, y, rfl, rfl, hy, hnear⟩
    have hlt : x.size < (x ++ y).size := by
      rw [size_append]
      exact Nat.lt_add_of_pos_right (size_pos hy)
    refine ⟨⟨isBoundary_iff.mpr ⟨x, y ++ b, List.append_assoc x y b, rfl⟩, hlt.le, ?_⟩, hlt⟩
    rw [slice_between]
    exact hnear
  · rintro ⟨⟨hplace, hle, hnear⟩, hlt⟩
    obtain ⟨x, z, hsplit, rfl⟩ := isBoundary_iff.mp hplace
    obtain ⟨y, rfl, -⟩ := exists_append_of_size_le hsplit.symm hle
    rw [slice_between] at hnear
    refine ⟨x, y, rfl, rfl, ?_, hnear⟩
    rintro rfl
    rw [List.append_nil] at hlt
    exact absurd hlt (lt_irrefl _)

/-- The nearest place comes first. -/
theorem pairwise_placesBehind (t : Text) (start : Nat) (retreat : Option Nat) :
    (t.placesBehind start retreat).Pairwise (· > ·) := by
  have hall : ((t.before start).starts.reverse).Pairwise (· > ·) :=
    List.pairwise_reverse.mpr (pairwise_startsFrom 0 (t.before start))
  cases retreat with
  | none => exact hall
  | some n => exact hall.sublist (List.take_sublist n _)

end Text

/-! ## The nearest match -/

/-- What looking behind comes to that tries some places, from each of which its child comes to what `back` says: the
match from the nearest place that ends at the start, with its fields and without its tokens, or a failure at the start if
there is none. -/
inductive NearestMatch (places : Nat → Prop) (start : Nat) (rule : Rule) (back : Nat → Step) : Step → Prop
  | failed (h : ∀ q, places q → ∀ r, back q ≠ .matched start r) :
    NearestMatch places start rule back (Step.failAt start rule)
  | matched {q : Nat} {r : Results} (hplace : places q) (hback : back q = .matched start r)
    (hnearest : ∀ q', places q' → ∀ r', back q' = .matched start r' → q' ≤ q) :
    NearestMatch places start rule back (.matched start (r.setTokens []))

namespace NearestMatch

variable {places : Nat → Prop} {start : Nat} {rule : Rule} {back : Nat → Step} {step : Step}

/-- Looking behind matches exactly if there is a place from which the child matches up to the start. -/
theorem isMatch_iff (h : NearestMatch places start rule back step) :
    step.isMatch = true ↔ ∃ q r, places q ∧ back q = .matched start r := by
  cases h with
  | failed h =>
    constructor
    · exact fun hd => absurd hd Bool.false_ne_true
    · rintro ⟨q, r, hplace, hback⟩
      exact absurd hback (h q hplace r)
  | @matched q r hplace hback _ => exact ⟨fun _ => ⟨q, r, hplace, hback⟩, fun _ => rfl⟩

/-- Further places from which nothing matches up to the start make no difference. -/
theorem widen (h : NearestMatch places start rule back step) {wider : Nat → Prop} (hsub : ∀ q, places q → wider q)
    (hnew : ∀ q r, wider q → back q = .matched start r → places q) : NearestMatch wider start rule back step := by
  cases h with
  | failed h =>
    apply NearestMatch.failed
    intro q hq r hback
    exact h q (hnew q r hq hback) r hback
  | matched hplace hback hnearest =>
    apply NearestMatch.matched (hsub _ hplace) hback
    intro q' hq' r' hback'
    exact hnearest q' (hnew q' r' hq' hback') r' hback'

end NearestMatch

/-- The results of a match that ends at a position. -/
def Step.endingAt? (stop : Nat) : Step → Option Results
  | .matched stop' r => if stop' = stop then some r else none
  | .failed _ => none

theorem Step.endingAt?_eq_some {stop : Nat} {step : Step} {r : Results} :
    step.endingAt? stop = some r ↔ step = .matched stop r := by
  cases step with
  | matched stop' r' => simp [endingAt?]
  | failed d => simp [endingAt?]

/-- What a search comes to that takes the first match among the places, the nearest being first. -/
theorem nearestMatch_findSome? {positions : List Nat} (hsorted : positions.Pairwise (· > ·)) (start : Nat) (rule : Rule)
    (back : Nat → Step) :
    NearestMatch (· ∈ positions) start rule back
      (match positions.findSome? fun q => (back q).endingAt? start with
        | some r => .matched start (r.setTokens [])
        | none => Step.failAt start rule) := by
  cases hfound : positions.findSome? fun q => (back q).endingAt? start with
  | none =>
    apply NearestMatch.failed
    intro q hq r hback
    have hnone := List.findSome?_eq_none_iff.mp hfound q hq
    rw [Step.endingAt?_eq_some.mpr hback] at hnone
    exact Option.some_ne_none r hnone
  | some r =>
    obtain ⟨before, q, after, rfl, hq, hbefore⟩ := List.findSome?_eq_some_iff.mp hfound
    apply NearestMatch.matched (q := q) (by simp) (Step.endingAt?_eq_some.mp hq)
    intro q' hq' r' hback'
    rcases List.mem_append.mp hq' with hq' | hq'
    · -- a nearer place is tried before
      have hnone := hbefore q' hq'
      rw [Step.endingAt?_eq_some.mpr hback'] at hnone
      exact absurd hnone (Option.some_ne_none r')
    · rcases List.mem_cons.mp hq' with rfl | hq'
      · exact le_rfl
      · have hafter := (List.pairwise_cons.mp (List.pairwise_append.mp hsorted).2.1).1
        exact (hafter q' hq').le

/-! ## The search -/

namespace ComesTo

/-- A plain attempt whose committed failure counts as an ordinary one comes from everywhere to what it comes to from one
state. -/
theorem recover {g : Grammar} {c : Context} (hg : c.grammar = g) (hc : c.IsPlain) {n : Nat} {i : ExprId} {p : Nat}
    {acts skips : Bool} {s₀ s₁ : State} (hs₀ : s₀.memo = .off) {step : Step}
    (h : MatchM.recover (attemptWithin n c i p acts skips) s₀ = .ok step s₁) :
    ComesTo (MatchM.recover (attemptWithin n c i p acts skips)) step := by
  intro s hs
  have hanswer := (answerOf?_attemptWithin hg hc hs₀ n i p acts skips).trans
    (answerOf?_attemptWithin hg hc hs n i p acts skips).symm
  unfold MatchM.recover at h ⊢
  cases hrun : attemptWithin n c i p acts skips s₀ with
  | ok step' s' =>
    rw [hrun] at h
    obtain ⟨rfl, -⟩ := EStateM.Result.ok.inj h
    obtain ⟨s'', hrun', hs''⟩ := of_attemptWithin hg hc hs₀ hrun s hs
    exact ⟨s'', by rw [hrun'], hs''⟩
  | error e s' =>
    cases e with
    | committed d =>
      rw [hrun] at h hanswer
      obtain ⟨rfl, -⟩ := EStateM.Result.ok.inj h
      obtain ⟨-, s'', hrun'⟩ := answerOf?_eq_error hanswer.symm
      exact ⟨s'', by rw [hrun'], memo_of_committed hg hc hs hrun' rfl⟩
    | _ =>
      rw [hrun] at h
      exact absurd h (by simp)

/-- Where nothing is remembered, a computation comes to the same on a state of its own. -/
theorem aside {α : Type} {config : Config} (hconfig : config.memoization = .disabled) {m : MatchM α} {a : α}
    (h : ComesTo m a) : ComesTo (aside config m) a := by
  intro s hs
  have hoff : { State.initial config with journal := s.journal }.memo = .off := by
    show Memo.ofStrategy config.memoization = .off
    rw [hconfig, Memo.ofStrategy]
  obtain ⟨t, hrun, -⟩ := h _ hoff
  refine ⟨{ s with
    journal := t.journal
    metrics := { s.metrics with attempts := s.metrics.attempts + t.metrics.attempts } }, ?_, hs⟩
  unfold Packrat.aside
  rw [hrun]

end ComesTo

section Search

variable {a : Attempt} {c : Context} {child : ExprId} {acts : Bool} {back : Nat → Step}

theorem findBehind_comesTo {start : Nat} (hsize : c.text.size = start) {positions : List Nat}
    (hback : ∀ q ∈ positions, ComesTo (MatchM.recover (a c child q acts false)) (back q)) :
    ComesTo (findBehind a c child acts positions) (positions.findSome? fun q => (back q).endingAt? start) := by
  induction positions with
  | nil => exact ComesTo.pure _
  | cons q positions ih =>
    have ih := ih fun q' hq' => hback q' (List.mem_cons_of_mem q hq')
    rw [findBehind, List.findSome?_cons, hsize]
    refine (hback q List.mem_cons_self).bind ?_
    cases hstep : back q with
    | failed d => exact ih
    | matched stop r =>
      by_cases hstop : stop = start
      · simp only [Step.endingAt?, if_pos hstop]
        exact ComesTo.pure _
      · simp only [Step.endingAt?, if_neg hstop]
        exact ih

/-- Looking behind comes to the nearest match. -/
theorem matchPrecededBy_comesTo (rule : Rule) {start : Nat} {retreat : Option Nat} (hc : c.IsPlain)
    (hstart : c.text.IsBoundary start)
    (hback : ∀ q, c.text.Behind start retreat q → q < start →
      ComesTo (MatchM.recover (a (c.behind start) child q acts false)) (back q)) :
    ∃ step, ComesTo (matchPrecededBy a c rule child retreat start acts) step ∧
      NearestMatch (fun q => c.text.Behind start retreat q ∧ q < start) start rule back step := by
  let positions := c.text.placesBehind start retreat
  have hplaces : (fun q => c.text.Behind start retreat q ∧ q < start) = (· ∈ positions) :=
    funext fun q => propext (Text.mem_placesBehind hstart).symm
  have hsearch : ComesTo (aside c.config (findBehind a (c.behind start) child acts positions))
      (positions.findSome? fun q => (back q).endingAt? start) := by
    apply ComesTo.aside hc
    apply findBehind_comesTo hstart.size_before
    intro q hq
    obtain ⟨hbehind, hlt⟩ := (Text.mem_placesBehind hstart).mp hq
    exact hback q hbehind hlt
  rw [hplaces]
  refine ⟨_, ?_, nearestMatch_findSome? (Text.pairwise_placesBehind c.text start retreat) start rule back⟩
  have hrun : matchPrecededBy a c rule child retreat start acts
      = aside c.config (findBehind a (c.behind start) child acts positions) >>= fun
        | some results => return .matched start (results.setTokens [])
        | none => return Step.failAt start rule := by
    cases retreat <;> rfl
  rw [hrun]
  refine hsearch.bind ?_
  cases positions.findSome? fun q => (back q).endingAt? start with
  | some r => exact ComesTo.pure _
  | none => exact ComesTo.pure _

end Search

/-! ## Attempts that look behind -/

/-- **A plain attempt that looks behind** takes the nearest match that ends where it begins, consuming nothing, provided
its child does not halt on the text before from any place there. The start is not tried, which makes no difference as
long as its child does not match there without consuming text. -/
theorem preceded_by_takes_nearest {g : Grammar} {c : Context} (hg : c.grammar = g) (hc : c.IsPlain) {n : Nat}
    (hlimit : ∀ limit ∈ c.config.recursionLimit, c.depth < limit) {i child : ExprId} {retreat : Option Nat}
    (hkind : (g.rule i).kind = .precededBy child retreat) {p start : Nat} {acts skips : Bool} {s : State}
    (hs : s.memo = .off) (hstart : c.deeper.BeginsAt n i p skips s start) (hplace : c.text.IsBoundary start)
    {back : Nat → Step}
    (hback : ∀ q, c.text.Behind start retreat q → q < start → ∃ s',
      MatchM.recover (attemptWithin n (c.deeper.behind start) child q acts false) s = .ok (back q) s') :
    ∃ step s', attemptWithin (n + 1) c i p acts skips s = .ok (step.mapResults (ResultsOf.withOrigin i)) s' ∧
      NearestMatch (fun q => c.text.Behind start retreat q ∧ q < start) start (g.rule i) back step ∧
      ((∀ r, back start ≠ .matched start r) →
        NearestMatch (c.text.Behind start retreat) start (g.rule i) back step) := by
  have hchild : ∀ q, c.deeper.text.Behind start retreat q → q < start →
      ComesTo (MatchM.recover (attemptWithin n (c.deeper.behind start) child q acts false)) (back q) := by
    intro q hbehind hlt
    obtain ⟨s', hrun⟩ := hback q hbehind hlt
    exact ComesTo.recover (c := c.deeper.behind start) hg hc hs hrun
  obtain ⟨step, hmatch, hnearest⟩ := matchPrecededBy_comesTo (c := c.deeper) (c.deeper.rule i) hc hplace hchild
  have hrule : c.deeper.rule i = g.rule i := congrArg (Grammar.rule · i) hg
  have hnode : matchNode (attemptWithin n) c.deeper i (c.deeper.rule i) start acts
      = matchPrecededBy (attemptWithin n) c.deeper (c.deeper.rule i) child retreat start acts := by
    have hk : (c.deeper.rule i).kind = .precededBy child retreat := by rw [hrule, hkind]
    simp only [matchNode, hk]
  rw [← hnode] at hmatch
  rw [hrule] at hnearest
  obtain ⟨s', hrun, -⟩ := attemptWithin_comesTo hg hc hlimit hs hstart hmatch s hs
  refine ⟨step, s', hrun, hnearest, fun hstill => hnearest.widen (fun q hq => hq.1) ?_⟩
  rintro q r hq hback
  refine ⟨hq, hq.le.lt_of_ne ?_⟩
  rintro rfl
  exact hstill r hback

/-- A pair of letters under a name, looked for at most three characters back. -/
def pairBehind : Grammar := Grammar.ofKinds [.literal "ab" false, .named 0 "pair" false, .precededBy 1 (some 3)] 2

/-- The pair is found two characters back, after a letter of two bytes. -/
theorem pairBehind_child (q : Nat) (hq : q ∈ [3, 2, 0]) :
    ∃ step s', MatchM.recover (attemptWithin 3 ((plainContext pairBehind ['é', 'a', 'b'] false).deeper.behind 4) 1 q true
      false) (State.initial {}) = .ok step s' ∧ step.isMatch = decide (q = 2) := by
  apply exists_of_matches?
  simp only [List.mem_cons, List.not_mem_nil, or_false] at hq
  rcases hq with rfl | rfl | rfl <;> decide +kernel

theorem preceded_by_takes_nearest_pairBehind :
    let c := plainContext pairBehind ['é', 'a', 'b'] false
    let s := State.initial {}
    ∃ back, (∀ q, c.text.Behind 4 (some 3) q → q < 4 → ∃ s',
        MatchM.recover (attemptWithin 3 (c.deeper.behind 4) 1 q true false) s = .ok (back q) s') ∧
      ∃ step s', attemptWithin 4 c 2 4 true false s = .ok (step.mapResults (ResultsOf.withOrigin 2)) s' ∧
        NearestMatch (fun q => c.text.Behind 4 (some 3) q ∧ q < 4) 4 (pairBehind.rule 2) back step ∧
        ((∀ r, back 4 ≠ .matched 4 r) → NearestMatch (c.text.Behind 4 (some 3)) 4 (pairBehind.rule 2) back step) := by
  intro c s
  choose! back s' hback using pairBehind_child
  have hplace : c.text.IsBoundary 4 := c.text.isBoundary_size
  have hbehind : ∀ q, c.text.Behind 4 (some 3) q → q < 4 → ∃ s',
      MatchM.recover (attemptWithin 3 (c.deeper.behind 4) 1 q true false) s = .ok (back q) s' := by
    intro q hq hlt
    exact ⟨s' q, (hback q ((Text.mem_placesBehind hplace).mpr ⟨hq, hlt⟩)).1⟩
  have hlimit : ∀ limit ∈ c.config.recursionLimit, c.depth < limit := by simp [c, plainContext]
  have hstart : c.deeper.BeginsAt 3 2 4 false s 4 := rfl
  exact ⟨back, hbehind, preceded_by_takes_nearest (c := c) rfl rfl hlimit rfl rfl hstart hplace hbehind⟩

/-- What is always there, looked for behind. -/
def emptyBehind : Grammar := Grammar.ofKinds [.empty, .precededBy 0 none] 1

/-- The nearest match is not found where it begins and ends at the start. -/
theorem not_nearestMatch_emptyBehind :
    let c := plainContext emptyBehind [] false
    let s := State.initial {}
    ∃ back, (∀ q, c.text.Behind 0 none q → ∃ s',
        MatchM.recover (attemptWithin 2 (c.deeper.behind 0) 0 q true false) s = .ok (back q) s') ∧
      ∃ step s', attemptWithin 3 c 1 0 true false s = .ok step s' ∧
        ¬ ∃ x, NearestMatch (c.text.Behind 0 none) 0 (emptyBehind.rule 1) back x ∧
          step = x.mapResults (ResultsOf.withOrigin 1) := by
  intro c s
  have hnode : matches? (attemptWithin 3 c 1 0 true false s) = some false := by decide +kernel
  obtain ⟨step, s', hrun, hfails⟩ := exists_of_matches? hnode
  refine ⟨fun _ => .matched 0 (ResultsOf.withOrigin 0 {}), ?_, step, s', hrun, ?_⟩
  · intro q hq
    obtain rfl : q = 0 := Nat.le_zero.mp hq.le
    exact ⟨_, rfl⟩
  · rintro ⟨x, hnearest, rfl⟩
    have hstart : c.text.Behind 0 none 0 := ⟨Text.isBoundary_zero _, le_rfl, by simp⟩
    have hmatch : x.isMatch = true := hnearest.isMatch_iff.mpr ⟨0, _, hstart, rfl⟩
    cases x with
    | matched stop r => exact absurd hfails.symm Bool.false_ne_true
    | failed d => exact absurd hmatch Bool.false_ne_true

end Packrat
