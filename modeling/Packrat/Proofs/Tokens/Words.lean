import Packrat.Matching.Attempt
import Packrat.Proofs.Placement.Boundary

/-!
# `Packrat.Proofs.Tokens.Words` — words are taken whole

A word takes characters until one is not in its body, or until it has as many as it may have. In the second case it looks
at one more character, and fails if that belongs to the word as well. So a word never ends in the middle of a run: what it
matches is the longest run where it is attempted, if the length of that run is within the bounds, and nothing otherwise.

## Contents

* `IsRun`, `LongestRun` — runs of the characters of a word, and the longest one at the front of a text;
* `longestRun_wordRun`, `LongestRun.unique` — there is one longest run;
* `wordAt?_eq_some_iff` — a word takes the longest run or nothing;
* `words_maximal` — **what a word matches**, and the bounds that a builder gives it.
-/

namespace Packrat

/-! ## Runs -/

section Runs

variable (init body : CharSet)

/-- The characters of a word: one of `init`, and then characters of `body`. -/
def IsRun (w : Text) : Prop := ∃ c r, w = c :: r ∧ init.contains c = true ∧ ∀ d ∈ r, body.contains d = true

/-- The longest run at the front of a text, which is empty if the first character begins none. -/
structure LongestRun (t run : Text) : Prop where
  front : run <+: t
  isRun : run = [] ∨ IsRun init body run
  longest : ∀ w, w <+: t → IsRun init body w → w.length ≤ run.length

/-- The longest run at the front of a text, character by character. -/
def wordRun : Text → Text
  | [] => []
  | c :: r => if init.contains c then c :: r.takeWhile body.contains else []

variable {init body}

theorem longestRun_wordRun (t : Text) : LongestRun init body t (wordRun init body t) := by
  cases t with
  | nil => exact ⟨List.prefix_rfl, Or.inl rfl, fun w hw _ => hw.length_le⟩
  | cons c r =>
    rw [wordRun]
    split
    · next hc =>
      refine ⟨(List.prefix_cons_inj c).mpr (List.takeWhile_prefix _), Or.inr ⟨c, _, rfl, hc, ?_⟩, ?_⟩
      · exact fun d hd => List.mem_takeWhile_imp hd
      · rintro w hw ⟨d, u, rfl, -, hu⟩
        -- all of `u` is in the body, so taking characters of the body does not stop in it
        obtain ⟨y, rfl⟩ := (List.cons_prefix_cons.mp hw).2
        rw [List.takeWhile_append_of_pos hu, List.length_cons, List.length_cons, List.length_append]
        omega
    · next hc =>
      refine ⟨List.nil_prefix, Or.inl rfl, ?_⟩
      rintro w hw ⟨d, u, rfl, hd, -⟩
      rw [(List.cons_prefix_cons.mp hw).1] at hd
      exact absurd hd hc

namespace LongestRun

variable {t run run' : Text} (h : LongestRun init body t run)
include h

theorem length_le (h' : LongestRun init body t run') : run'.length ≤ run.length := by
  rcases h'.isRun with rfl | hrun
  · exact Nat.zero_le _
  · exact h.longest run' h'.front hrun

theorem unique (h' : LongestRun init body t run') : run = run' := by
  have hlength : run.length = run'.length := Nat.le_antisymm (h'.length_le h) (h.length_le h')
  exact (List.prefix_of_prefix_length_le h.front h'.front hlength.le).eq_of_length hlength

/-- Behind the longest run there is no character that would go on with it. -/
theorem not_contains_next {d : Char} {r : Text} (hne : run ≠ []) (ht : t = run ++ d :: r) :
    body.contains d = false := by
  rw [Bool.eq_false_iff]
  intro hd
  obtain ⟨c, u, rfl, hc, hu⟩ := h.isRun.resolve_left hne
  have hlonger : IsRun init body (c :: u ++ [d]) := by
    refine ⟨c, u ++ [d], rfl, hc, fun d' hd' => ?_⟩
    rcases List.mem_append.mp hd' with hd' | hd'
    · exact hu d' hd'
    · rwa [List.mem_singleton.mp hd']
  have hfront : c :: u ++ [d] <+: t := ⟨r, by rw [ht, List.append_assoc]; rfl⟩
  have hle := h.longest _ hfront hlonger
  rw [List.length_append, List.length_singleton] at hle
  omega

end LongestRun

end Runs

/-! ## The run and the bounds -/

/-- Of the characters in front that are in a set, at most so many are taken. -/
theorem takeRun_some (set : Char → Bool) (n : Nat) (t : Text) : takeRun set (some n) t = (t.takeWhile set).take n := by
  show (t.take n).takeWhile set = _
  induction t generalizing n with
  | nil => simp
  | cons c r ih =>
    cases n with
    | zero => rfl
    | succ n =>
      rw [List.take_succ_cons, List.takeWhile_cons, List.takeWhile_cons]
      split
      · rw [ih, List.take_succ_cons]
      · rfl

/-- Behind the characters that are taken there is another one of the set if not all of them are. -/
theorem any_head?_drop (set : Char → Bool) (n : Nat) (t : Text) :
    (t.drop ((t.takeWhile set).take n).length).head?.any set = decide (n < (t.takeWhile set).length) := by
  induction t generalizing n with
  | nil => simp
  | cons c r ih =>
    rw [List.takeWhile_cons]
    split
    · next hc =>
      cases n with
      | zero => simpa using hc
      | succ n =>
        rw [List.take_succ_cons, List.length_cons, List.drop_succ_cons, ih, List.length_cons]
        exact decide_eq_decide.mpr Nat.succ_lt_succ_iff.symm
    · next hc => simpa using hc

section Word

variable {init body : CharSet} {min : Nat} {max : Option Nat}

/-- **A word takes the longest run or nothing**: that run, if its length is within the bounds. -/
theorem wordAt?_eq_some_iff (hmin : 1 ≤ min) (hmax : ∀ m ∈ max, min ≤ m) {t token : Text} :
    wordAt? init body min max t = some token ↔
      token = wordRun init body t ∧ min ≤ token.length ∧ ∀ m ∈ max, token.length ≤ m := by
  have hempty {p : Prop} : ¬ (token = [] ∧ min ≤ token.length ∧ p) := by
    rintro ⟨rfl, hle, -⟩
    exact absurd (hmin.trans hle) (by simp)
  cases t with
  | nil => exact iff_of_false (by simp [wordAt?]) hempty
  | cons c r =>
    by_cases hc : init.contains c = true
    · rw [wordRun, if_pos hc, wordAt?, hc]
      let run := r.takeWhile body.contains
      have hfits {p : Prop} (hp : token = c :: run → p) :
          (if (c :: run).length < min then none else some (c :: run)) = some token ↔
            token = c :: run ∧ min ≤ token.length ∧ p := by
        constructor
        · intro h
          split at h
          · exact absurd h (by simp)
          · next hle =>
            obtain rfl := Option.some.inj h
            exact ⟨rfl, Nat.not_lt.mp hle, hp rfl⟩
        · rintro ⟨rfl, hle, -⟩
          rw [if_neg (Nat.not_lt.mpr hle)]
      cases max with
      | none =>
        simp only [Bool.not_true, Bool.false_eq_true, if_false, Option.any_none, Bool.false_and, Bool.or_false,
          decide_eq_true_eq]
        exact hfits fun _ m hm => absurd hm (by simp)
      | some m =>
        have hpos : 1 ≤ m := hmin.trans (hmax m rfl)
        obtain ⟨n, rfl⟩ : ∃ n, m = n + 1 := ⟨m - 1, by omega⟩
        simp only [Bool.not_true, Bool.false_eq_true, if_false, Option.map_some, Nat.add_sub_cancel, takeRun_some,
          List.length_cons, List.drop_succ_cons, any_head?_drop, Option.any_some]
        by_cases hlong : n < run.length
        · -- the run goes on behind the greatest number of characters
          have htaken : (run.take n).length = n := List.length_take_of_le hlong.le
          rw [if_pos (by simp [run, htaken, hlong])]
          refine iff_of_false (by simp) ?_
          rintro ⟨rfl, -, hle⟩
          have hle : run.length + 1 ≤ n + 1 := hle _ rfl
          omega
        · rw [List.take_of_length_le (Nat.not_lt.mp hlong), decide_eq_false hlong, Bool.and_false, Bool.or_false]
          simp only [decide_eq_true_eq]
          refine hfits fun htoken m hm => ?_
          obtain rfl : n + 1 = m := by simpa using hm
          rw [htoken, List.length_cons]
          omega
    · rw [wordRun, if_neg hc]
      exact iff_of_false (by simp [wordAt?, hc]) hempty

end Word

/-! ## Nodes -/

/-- The bounds of a range are in order. -/
theorem Bounds.le_of_resolve {bounds : Bounds} {min : Nat} {max : Option Nat} (h : bounds.resolve = .ok (min, max)) :
    ∀ m ∈ max, min ≤ m := by
  unfold Bounds.resolve at h
  have hle {n : Nat} (h : (if n < bounds.least then .error (.invalidBounds bounds.least n)
      else .ok (bounds.least, some n) : Except BuildError (Nat × Option Nat)) = .ok (min, max)) : ∀ m ∈ max, min ≤ m := by
    split at h
    · exact absurd h (by simp)
    · next hlt =>
      obtain ⟨rfl, rfl⟩ := Prod.mk.inj (Except.ok.inj h)
      rintro m ⟨⟩
      exact Nat.not_lt.mp hlt
  cases hupper : bounds.upper with
  | unbounded =>
    rw [hupper] at h
    obtain ⟨-, rfl⟩ := Prod.mk.inj (Except.ok.inj h)
    exact fun m hm => absurd hm (by simp)
  | included n =>
    rw [hupper] at h
    exact hle h
  | excluded n =>
    rw [hupper] at h
    cases n with
    | zero => exact absurd h (by simp)
    | succ n => exact hle h

/-- A builder makes words of at least one character, with bounds in order. -/
theorem Builder.bounds_of_word {b b' : Builder} {init body : CharSet} {bounds : Bounds} {i : ExprId}
    (h : b.word init body bounds = .ok (i, b')) : ∃ min max, bounds.resolve = .ok (min, max) ∧
      kindOf? b'.nodes i = some (.word init body min max) ∧ 1 ≤ min ∧ ∀ m ∈ max, min ≤ m := by
  unfold Builder.word at h
  by_cases hinit : init.isEmpty = true
  · rw [if_pos hinit] at h
    cases h
  · rw [if_neg hinit] at h
    by_cases hbody : body.isEmpty = true
    · rw [if_pos hbody] at h
      cases h
    · rw [if_neg hbody] at h
      cases hresolve : bounds.resolve with
      | error e =>
        rw [hresolve] at h
        cases h
      | ok x =>
        obtain ⟨min, max⟩ := x
        rw [hresolve] at h
        change (if min = 0 then _ else _) = _ at h
        by_cases hmin : min = 0
        · rw [if_pos hmin] at h
          cases h
        · rw [if_neg hmin] at h
          obtain ⟨rfl, rfl⟩ := Prod.mk.inj (Except.ok.inj h)
          exact ⟨min, max, rfl, by simp [kindOf?], Nat.one_le_iff_ne_zero.mpr hmin, Bounds.le_of_resolve hresolve⟩

/-- What a word comes to where a run is the longest: it matches if the length of the run is within the bounds. Then its
token is the run, and ends where the run ends, so that no character of the body is next. -/
structure TakesRun (body : CharSet) (min : Nat) (max : Option Nat) (t : Text) (start : Nat) (run : Text) (step : Step) :
    Prop where
  isMatch_iff : step.isMatch = true ↔ min ≤ run.length ∧ ∀ m ∈ max, run.length ≤ m
  matched : step.isMatch = true → step = .matched (start + run.size) (ResultsOf.single (Value.ofText run))
  stops : step.isMatch = true → ∀ d, t.charAt? (start + run.size) = some d → body.contains d = false

section Nodes

variable {init body : CharSet} {min : Nat} {max : Option Nat} (hmin : 1 ≤ min) (hmax : ∀ m ∈ max, min ≤ m)
include hmin hmax

theorem takesRun_matchToken {rule : Rule} (hkind : rule.kind = .word init body min max) {t : Text} {start : Nat}
    (hstart : t.IsBoundary start) :
    TakesRun body min max t start (wordRun init body (t.rest start)) (matchToken rule t start) := by
  let run := wordRun init body (t.rest start)
  have hrun : LongestRun init body (t.rest start) run := longestRun_wordRun _
  have htoken : matchToken rule t start =
      ((wordAt? init body min max (t.rest start)).map (tokenStep start)).getD (Step.failAt start rule) := by
    simp only [matchToken, hkind]
  by_cases hfits : min ≤ run.length ∧ ∀ m ∈ max, run.length ≤ m
  · have hword : wordAt? init body min max (t.rest start) = some run :=
      (wordAt?_eq_some_iff hmin hmax).mpr ⟨rfl, hfits⟩
    rw [htoken, hword]
    refine ⟨iff_of_true rfl hfits, fun _ => rfl, fun _ d hd => ?_⟩
    have hne : run ≠ [] := fun h => absurd (hmin.trans hfits.1) (by simp [h])
    obtain ⟨y, hy⟩ := hrun.front
    rw [Text.charAt?, hstart.rest_add hy.symm] at hd
    obtain ⟨r, rfl⟩ := List.head?_eq_some_iff.mp hd
    exact hrun.not_contains_next hne hy.symm
  · have hword : wordAt? init body min max (t.rest start) = none := by
      refine Option.eq_none_iff_forall_ne_some.mpr fun token h => hfits ?_
      obtain ⟨rfl, h⟩ := (wordAt?_eq_some_iff hmin hmax).mp h
      exact h
    rw [htoken, hword]
    exact ⟨iff_of_false Bool.false_ne_true hfits, fun h => absurd h Bool.false_ne_true,
      fun h => absurd h Bool.false_ne_true⟩

/-- **Words are maximal.** A word matches where the length of the longest run is within its bounds, and takes that run as
its token. -/
theorem words_maximal {rule : Rule} (hkind : rule.kind = .word init body min max) (attempt : Attempt) (c : Context)
    (i : ExprId) {start : Nat} (hstart : c.text.IsBoundary start) (acts : Bool) :
    ∃ run, LongestRun init body (c.text.rest start) run ∧
      ∃ step, matchNode attempt c i rule start acts = pure step ∧ TakesRun body min max c.text start run step := by
  refine ⟨_, longestRun_wordRun _, _, ?_, takesRun_matchToken hmin hmax hkind hstart⟩
  simp only [matchNode, hkind]

end Nodes

/-- A short name in the middle of a text: a letter, and one or two letters or digits. The word takes all three characters
up to the hyphen. -/
theorem words_maximal_shortName :
    let init : CharSet := ⟨[⟨'a', 'z'⟩]⟩
    let body : CharSet := ⟨[⟨'0', '9'⟩, ⟨'a', 'z'⟩]⟩
    let rule : Rule :=
      { kind := .word init body 2 (some 3), whitespace := ⟨[]⟩, display := "", message := "", savesList := false }
    let c : Context := .top default {} default ['_', 'a', '1', 'b', '-']
    (∃ b, ({} : Builder).word init body ⟨.included 2, .excluded 4⟩ = .ok (0, b) ∧ kindOf? b.nodes 0 = some rule.kind) ∧
      (1 ≤ 2 ∧ (∀ m ∈ some 3, 2 ≤ m) ∧ c.text.IsBoundary 1) ∧
      ∃ run, LongestRun init body (c.text.rest 1) run ∧
        ∃ step, matchNode (attempt c) c 0 rule 1 true = pure step ∧ TakesRun body 2 (some 3) c.text 1 run step ∧
          run = ['a', '1', 'b'] ∧ step.isMatch = true := by
  intro init body rule c
  have hmade : ({} : Builder).word init body ⟨.included 2, .excluded 4⟩ = .ok (0, _) := rfl
  obtain ⟨min, max, hresolve, hword, hmin, hmax⟩ := Builder.bounds_of_word hmade
  obtain ⟨rfl, rfl⟩ := Prod.mk.inj (Except.ok.inj hresolve)
  have hstart : c.text.IsBoundary 1 := by decide
  have hkind : rule.kind = .word init body 2 (some 3) := rfl
  obtain ⟨run, hrun, step, hstep, htakes⟩ := words_maximal hmin hmax hkind (attempt c) c 0 hstart true
  have hlongest : run = ['a', '1', 'b'] :=
    (hrun.unique (longestRun_wordRun (c.text.rest 1))).trans (by decide +kernel)
  refine ⟨⟨_, hmade, hword⟩, ⟨hmin, hmax, hstart⟩, run, hrun, step, hstep, htakes, hlongest, ?_⟩
  rw [htakes.isMatch_iff, hlongest]
  decide

end Packrat
