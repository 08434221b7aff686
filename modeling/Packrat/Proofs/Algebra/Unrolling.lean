import Packrat.Proofs.Algebra.Flattening
import Packrat.Proofs.Plain.Longest

/-!
# `Packrat.Proofs.Algebra.Unrolling` — repetitions as sequences

A repetition of exactly so many copies of a node can be compared with the sequence of these copies. Both attempt the
copies one after the other, and as long as each copy consumes text both come to the same. But a repetition ends with the
first copy that consumes nothing: unless that was the last one, it then fails for want of the others, while the sequence
goes on to match them there.

## Contents

* `Grammar.Advances`, `Grammar.StallsAt` — copies that consume text, and one that does not before the last;
* `toldRounds_unrolls`, `toldRounds_stalls` — **rounds and copies**;
* `Grammar.Unrolls`, `Unrolled` — a repetition with its sequence, and how their outcomes compare;
* `repetition_unrolls` — **attempts of a repetition and of its sequence**;
* `not_sameUpTo_emptyCopies` — copies that match nothing.
-/

namespace Packrat

/-! ## Copies -/

section Copies

variable (g : Grammar) (t : Text) (acts adjacent : Bool) (child : ExprId)

/-- So many copies of a node match one after the other, each one consuming text. -/
inductive Grammar.Advances : (copies : Nat) → (loc stop : Nat) → Prop
  | none (loc : Nat) : Advances 0 loc loc
  | next {copies loc after stop : Nat} {r : Results}
    (hcopy : g.Settles t ⟨child, loc, acts, true, adjacent⟩ (.ok (.matched after r))) (hlt : loc < after)
    (h : Advances copies after stop) : Advances (copies + 1) loc stop

/-- Of so many copies one before the last matches without consuming anything, at a place to which the copies before it
have advanced. -/
def Grammar.StallsAt (copies loc place : Nat) : Prop :=
  ∃ m, m + 1 < copies ∧ g.Advances t acts adjacent child m loc place ∧
    ∃ r, g.Settles t ⟨child, place, acts, true, adjacent⟩ (.ok (.matched place r))

variable {g t acts adjacent child} {copies loc after place : Nat} {r : Results}

theorem Grammar.StallsAt.here (h : g.Settles t ⟨child, loc, acts, true, adjacent⟩ (.ok (.matched loc r)))
    (hcopies : 1 < copies) : g.StallsAt t acts adjacent child copies loc loc :=
  ⟨0, hcopies, .none loc, r, h⟩

theorem Grammar.StallsAt.later (hcopy : g.Settles t ⟨child, loc, acts, true, adjacent⟩ (.ok (.matched after r)))
    (hlt : loc < after) (h : g.StallsAt t acts adjacent child copies after place) :
    g.StallsAt t acts adjacent child (copies + 1) loc place := by
  obtain ⟨m, hm, hadvances, hstays⟩ := h
  exact ⟨m + 1, by omega, .next hcopy hlt hadvances, hstays⟩

end Copies

/-! ## Rounds -/

/-- What a repetition comes to by its rounds. -/
def Rounds.outcome (rule : Rule) (min : Nat) (r : Rounds) : Step :=
  if r.count < min then
    match r.failure with
    | some d => .failed d
    | none => Step.failAt r.loc rule
  else .matched r.loc r.results

theorem matchRepetition_eq (a : Attempt) (c : Context) (rule : Rule) (child : ExprId) (min : Nat) (max : Option Nat)
    (stop : Option ExprId) (start : Nat) (acts : Bool) :
    matchRepetition a c rule child min max stop start acts
      = repeatRounds a c child max stop acts (c.text.size + 2) ⟨start, 0, {}, none⟩ >>= fun r =>
          pure (r.outcome rule min) := by
  unfold matchRepetition
  refine congrArg _ (funext fun r => ?_)
  unfold Rounds.outcome
  split <;> rfl

theorem repeatRounds_succ (a : Attempt) (c : Context) (child : ExprId) (max : Nat) (acts : Bool) (fuel : Nat)
    (r : Rounds) :
    repeatRounds a c child (some max) none acts (fuel + 1) r
      = if max ≤ r.count then pure r
        else takeRound a c child acts (repeatRounds a c child (some max) none acts fuel) r := by
  rw [repeatRounds]
  by_cases h : max ≤ r.count
  · have hany : (some max).any (fun m => decide (m ≤ r.count)) = true := by simpa using h
    rw [if_pos hany, if_pos h]
  · have hany : ¬ (some max).any (fun m => decide (m ≤ r.count)) = true := by simpa using h
    rw [if_neg hany, if_neg h]

section Rounds

variable (g : Grammar) (t : Text) (k : Nat) (acts adjacent : Bool) (child : ExprId)

/-- What the rounds of a repetition of `n` copies come to from a position, after so many of them, when attempts are told
their answers. -/
def toldRounds (rule : Rule) (n fuel count loc : Nat) (r : Results) : MatchM Step :=
  repeatRounds (told g k) (plainContext g t adjacent) child (some n) none acts fuel ⟨loc, count, r, none⟩ >>= fun r =>
    pure (r.outcome rule n)

/-- What a sequence of copies comes to from a position, when attempts are told their answers. -/
def toldCopies (copies loc : Nat) (r : Results) : MatchM Step :=
  matchSequence (told g k) (plainContext g t adjacent) acts (List.replicate copies child) false false loc r

variable {g t k acts adjacent child} {rule : Rule} {n fuel count copies loc place : Nat} {r : Results}

theorem toldRounds_done (hdone : n ≤ count) :
    toldRounds g t k acts adjacent child rule n (fuel + 1) count loc r = pure (.matched loc r) := by
  rw [toldRounds, repeatRounds_succ, if_pos hdone, pure_bind, Rounds.outcome, if_neg (Nat.not_lt_of_le hdone)]

/-- One round, and those after it if it consumes text. -/
theorem toldRounds_succ (hmore : count < n) :
    toldRounds g t k acts adjacent child rule n (fuel + 1) count loc r
      = told g k (plainContext g t adjacent) child loc acts true >>= fun step =>
          match step with
          | .matched after part =>
            if loc < after then toldRounds g t k acts adjacent child rule n fuel (count + 1) after (r.extend part)
            else if count + 1 < n then pure (Step.failAt after rule) else pure (.matched after (r.extend part))
          | .failed d => pure (.failed d) := by
  rw [toldRounds, repeatRounds_succ, if_neg (Nat.not_le_of_lt hmore), takeRound, bind_assoc]
  refine congrArg _ (funext fun step => ?_)
  cases step with
  | failed d =>
    rw [pure_bind, Rounds.outcome, if_pos hmore]
  | matched after part =>
    dsimp only
    by_cases hlt : loc < after
    · rw [if_pos hlt, if_pos hlt, toldRounds]
    · rw [if_neg hlt, if_neg hlt, pure_bind, Rounds.outcome]
      split <;> rfl

/-- One copy, and those after it. -/
theorem toldCopies_succ (hchild : (g.rule child).kind.isCommit = false) :
    toldCopies g t k acts adjacent child (copies + 1) loc r
      = told g k (plainContext g t adjacent) child loc acts true >>= fun step =>
          match step with
          | .matched after part => toldCopies g t k acts adjacent child copies after (r.extend part)
          | .failed d => pure (.failed d) := by
  have hcommit : ((plainContext g t adjacent).rule child).kind.isCommit = false := hchild
  rw [toldCopies, List.replicate_succ]
  exact matchSequence_child _ hcommit

/-- A copy that is told to match ends at a place further on. -/
theorem from_of_told {after : Nat} {part : Results} (hloc : t.IsBoundary loc)
    (h : told g k (plainContext g t adjacent) child loc acts true = pure (.matched after part)) :
    Sites.places.From t loc after := by
  have hrun : (Upkeep.places g).Run (plainContext g t adjacent) loc (Sites.places.Holds t loc)
      (told g k (plainContext g t adjacent) child loc acts true) :=
    (Upkeep.places g).told_sound k (c := plainContext g t adjacent) rfl trivial hloc
  exact hrun.of_pure h

/-- **Rounds and copies** come to the same, unless a copy before the last consumes nothing. Every round that is
followed by another consumes text, so the rounds do not run out. -/
theorem toldRounds_unrolls (hchild : (g.rule child).kind.isCommit = false) (hloc : t.IsBoundary loc)
    (hfuel : t.size + 1 < fuel + loc) (hcount : count + copies = n)
    (hstalls : ∀ place, ¬ g.StallsAt t acts adjacent child copies loc place) :
    toldRounds g t k acts adjacent child rule n fuel count loc r
      = toldCopies g t k acts adjacent child copies loc r := by
  induction copies generalizing fuel loc count r with
  | zero =>
    obtain ⟨fuel, rfl⟩ : ∃ fuel', fuel = fuel' + 1 := ⟨fuel - 1, by have := hloc.le_size; omega⟩
    rw [toldRounds_done (by omega)]
    rfl
  | succ copies ih =>
    obtain ⟨fuel, rfl⟩ : ∃ fuel', fuel = fuel' + 1 := ⟨fuel - 1, by have := hloc.le_size; omega⟩
    rw [toldRounds_succ (by omega), toldCopies_succ hchild]
    rcases told_still g k (plainContext g t adjacent) child loc acts true with ⟨step, hstep⟩ | ⟨e, hhalt⟩
    · rw [hstep, pure_bind, pure_bind]
      cases step with
      | failed d => rfl
      | matched after part =>
        have hsettles : g.Settles t ⟨child, loc, acts, true, adjacent⟩ (.ok (.matched after part)) :=
          ⟨k, answer?_of_told hstep⟩
        have hfrom := from_of_told hloc hstep
        dsimp only
        by_cases hlt : loc < after
        · rw [if_pos hlt]
          exact ih hfrom.site (by omega) (by omega) fun place h => hstalls place (h.later hsettles hlt)
        · -- a copy that consumes nothing is the last one
          obtain rfl : loc = after := Nat.le_antisymm hfrom.le (Nat.le_of_not_lt hlt)
          have hlast : copies = 0 := by
            by_contra hmore
            exact hstalls loc (.here hsettles (by omega))
          subst hlast
          rw [if_neg hlt, if_neg (by omega)]
          rfl
    · rw [hhalt]
      rfl

/-- Where a copy matches without consuming anything, so do all that come after it. -/
theorem toldCopies_stays (hchild : (g.rule child).kind.isCommit = false) {part : Results}
    (h : told g k (plainContext g t adjacent) child loc acts true = pure (.matched loc part)) (copies : Nat)
    (r : Results) : ∃ r', toldCopies g t k acts adjacent child copies loc r = pure (.matched loc r') := by
  induction copies generalizing r with
  | zero => exact ⟨r, rfl⟩
  | succ copies ih =>
    rw [toldCopies_succ hchild, h, pure_bind]
    exact ih (r.extend part)

/-- **Rounds end with a copy that consumes nothing**: where it is not the last one the repetition fails there, while the
copies match up to there. With too little room for the copies both halt. -/
theorem toldRounds_stalls (hchild : (g.rule child).kind.isCommit = false)
    (hfuel : t.size + 1 < fuel + loc) (hloc : t.IsBoundary loc) (hcount : count + copies = n)
    (hstalls : g.StallsAt t acts adjacent child copies loc place) :
    (toldRounds g t k acts adjacent child rule n fuel count loc r = MatchM.halt .endless ∧
        toldCopies g t k acts adjacent child copies loc r = MatchM.halt .endless) ∨
      (toldRounds g t k acts adjacent child rule n fuel count loc r = pure (Step.failAt place rule) ∧
        ∃ r', toldCopies g t k acts adjacent child copies loc r = pure (.matched place r')) := by
  obtain ⟨m, hm, hadvances, part, hstays⟩ := hstalls
  induction hadvances generalizing fuel count copies r with
  | none loc =>
    obtain ⟨fuel, rfl⟩ : ∃ fuel', fuel = fuel' + 1 := ⟨fuel - 1, by have := hloc.le_size; omega⟩
    obtain ⟨copies, rfl⟩ : ∃ copies', copies = copies' + 1 := ⟨copies - 1, by omega⟩
    rw [toldRounds_succ (by omega), toldCopies_succ hchild]
    rcases told_of_settles (k := k) (c := plainContext g t adjacent) hstays with htold | htold
    · rw [htold, pure_bind, pure_bind]
      dsimp only
      rw [if_neg (lt_irrefl loc), if_pos (by omega)]
      exact Or.inr ⟨rfl, toldCopies_stays hchild htold copies _⟩
    · rw [htold]
      exact Or.inl ⟨rfl, rfl⟩
  | next hcopy hlt _ ih =>
    obtain ⟨fuel, rfl⟩ : ∃ fuel', fuel = fuel' + 1 := ⟨fuel - 1, by have := hloc.le_size; omega⟩
    obtain ⟨copies, rfl⟩ : ∃ copies', copies = copies' + 1 := ⟨copies - 1, by omega⟩
    rw [toldRounds_succ (by omega), toldCopies_succ hchild]
    rcases told_of_settles (k := k) (c := plainContext g t adjacent) hcopy with htold | htold
    · have hfrom := from_of_told hloc htold
      rw [htold, pure_bind, pure_bind]
      dsimp only
      rw [if_pos hlt]
      exact ih (by omega) hfrom.site (by omega) (by omega) hstays
    · rw [htold]
      exact Or.inl ⟨rfl, rfl⟩

end Rounds

/-! ## Attempts -/

/-- A repetition of exactly so many copies of a node, and the sequence of these copies. Both skip what the node does, but
that the empty sequence may skip other whitespace; there are no ignorables, and the node is no commit marker. -/
structure Grammar.Unrolls (g : Grammar) (repetition sequence child : ExprId) (count : Nat) : Prop where
  repeats : (g.rule repetition).kind = .repetition child count (some count) none
  copies : (g.rule sequence).kind = .sequence (List.replicate count child)
  uncommitted : (g.rule child).kind.isCommit = false
  unignoring : (g.rule child).ignores = []
  inherits : (g.rule repetition).SkipsLike (g.rule child)
  sequence_unignoring : (g.rule sequence).ignores = []
  sequence_inherits : count ≠ 0 → (g.rule sequence).skipped = (g.rule child).skipped

/-- How the outcomes of a repetition and of its sequence compare; there is none where attempts nest too deeply. -/
inductive Unrolled (count : Nat) (message : String) (stalls : Nat → Prop) : Option Answer → Option Answer → Prop
  /-- Both nest too deeply. -/
  | tooDeep : Unrolled count message stalls none none
  /-- No copies match nothing, each from where it begins. -/
  | empty (hcount : count = 0) (stop stop' : Nat) {r r' : Results} (h : r.SameContent r') :
    Unrolled count message stalls (some (.ok (.matched stop r))) (some (.ok (.matched stop' r')))
  /-- Every copy before the last that matches consumes text, and both come to the same. -/
  | same {o o' : Answer} (hstalls : ∀ place, ¬ stalls place) (h : o.SameUpTo Eq o') :
    Unrolled count message stalls (some o) (some o')
  /-- A copy before the last matches without consuming anything. The repetition fails there with its own message, and the
  sequence matches up to there. -/
  | stalled {place : Nat} (hstalls : stalls place) (r : Results) :
    Unrolled count message stalls (some (.ok (.failed ⟨place, message⟩))) (some (.ok (.matched place r)))

section Attempts

variable {g : Grammar} {t : Text} {k : Nat} {acts skips adjacent : Bool} {i j child : ExprId} {count p start : Nat}

/-- Where the first copy need not skip, a sequence of copies is one in which all of them do. -/
theorem matchSequence_copies (hchild : (g.rule child).kind.isCommit = false)
    (hfirst : told g k (plainContext g t adjacent) child start acts false
      = told g k (plainContext g t adjacent) child start acts true) (r : Results) :
    matchSequence (told g k) (plainContext g t adjacent) acts (List.replicate count child) true false start r
      = toldCopies g t k acts adjacent child count start r := by
  cases count with
  | zero => rfl
  | succ count =>
    have hcommit : ((plainContext g t adjacent).rule child).kind.isCommit = false := hchild
    rw [toldCopies_succ hchild, ← hfirst, List.replicate_succ]
    exact matchSequence_child _ hcommit

/-- Where nothing is left of the whitespace of a node, it need not skip. -/
theorem told_of_nothing_left (hignores : (g.rule child).ignores = [])
    (hleft : adjacent = true ∨ t.skip (g.rule child).skipped start = start) :
    told g k (plainContext g t adjacent) child start acts false
      = told g k (plainContext g t adjacent) child start acts true := by
  refine congrArg tell (?_ : g.answer? t k ⟨child, start, acts, false, adjacent⟩
    = g.answer? t k ⟨child, start, acts, true, adjacent⟩)
  cases k with
  | zero => rfl
  | succ k =>
    refine answer?_congr ?_ acts
    rw [begins_of_not_skips, begins_of_ignores_nil g t k adjacent hignores]
    rcases hleft with rfl | hleft
    · rfl
    · rw [hleft, ite_self]

/-- Where the answers of attempts of the two nodes come from, and how they compare. -/
theorem Grammar.Unrolls.answers (h : g.Unrolls i j child count) (hp : t.IsBoundary p)
    (hplace : skips = true ∨ adjacent = true ∨ t.skip (g.rule child).skipped p = p)
    (hstart : start = if (skips && !adjacent) = true then t.skip (g.rule child).skipped p else p) :
    Unrolled count (g.rule i).message (g.StallsAt t acts adjacent child count start)
      (g.answer? t k ⟨i, p, acts, skips, adjacent⟩) (g.answer? t k ⟨j, p, acts, skips, adjacent⟩) := by
  cases k with
  | zero => exact .tooDeep
  | succ k =>
    let s₀ := State.initial {}
    have hbegins : g.begins t k adjacent (g.rule i) p skips = pure start := by
      rw [begins_of_ignores_nil g t k adjacent (h.inherits.ignores.trans h.unignoring), h.inherits.skipped, hstart]
    have hrounds : matchNode (told g k) (plainContext g t adjacent) i (g.rule i) start acts
        = toldRounds g t k acts adjacent child (g.rule i) count (t.size + 2) 0 start {} := by
      simp only [matchNode, h.repeats, matchRepetition_eq]
      rfl
    rw [answer?_of_begins hbegins acts s₀, hrounds]
    have hbegins' := begins_of_ignores_nil g t k adjacent h.sequence_unignoring p skips
    by_cases hcount : count = 0
    · subst hcount
      rw [answer?_of_begins hbegins' acts s₀, toldRounds_done (Nat.le_refl 0)]
      simp only [matchNode, h.copies]
      exact .empty rfl _ _ ⟨rfl, rfl⟩
    rw [h.sequence_inherits hcount, ← hstart] at hbegins'
    have hplace' : t.IsBoundary start := by
      rw [hstart]
      split
      · exact hp.skip _
      · exact hp
    have hleft : adjacent = true ∨ t.skip (g.rule child).skipped start = start := by
      cases adjacent with
      | true => exact Or.inl rfl
      | false =>
        refine Or.inr ?_
        cases skips with
        | true =>
          obtain rfl : start = t.skip (g.rule child).skipped p := hstart
          exact skip_skip _ t p
        | false =>
          obtain rfl : start = p := hstart
          simpa using hplace
    have hcopies : matchNode (told g k) (plainContext g t adjacent) j (g.rule j) start acts
        = toldCopies g t k acts adjacent child count start {} := by
      simp only [matchNode, h.copies]
      exact matchSequence_copies h.uncommitted (told_of_nothing_left h.unignoring hleft) {}
    rw [answer?_of_begins hbegins' acts s₀, hcopies]
    have hfuel : t.size + 1 < t.size + 2 + start := by omega
    by_cases hstalls : ∃ place, g.StallsAt t acts adjacent child count start place
    · obtain ⟨place, hstalls⟩ := hstalls
      rcases toldRounds_stalls (k := k) (r := {}) h.uncommitted hfuel hplace' (Nat.zero_add count) hstalls with
        ⟨hdeep, hdeep'⟩ | ⟨hfails, r, hmatches⟩
      · rw [hdeep, hdeep']
        exact .tooDeep
      · rw [hfails, hmatches]
        exact .stalled hstalls _
    · have hstalls : ∀ place, ¬ g.StallsAt t acts adjacent child count start place := fun place h => hstalls ⟨place, h⟩
      rw [toldRounds_unrolls h.uncommitted hplace' hfuel (Nat.zero_add count) hstalls]
      cases answerOf? (toldCopies g t k acts adjacent child count start {} s₀) with
      | none => exact .tooDeep
      | some o => exact .same hstalls ((Answer.SameUpTo.refl (fun _ => rfl) o).asOf i j)

/-- **Attempts of a repetition and of its sequence.** Where the attempts skip first, or nothing is left to skip, they come
to the same match, failure or halt unless a copy before the last matches without consuming anything; then the repetition
fails there while the sequence matches. -/
theorem repetition_unrolls {c : Context} (hg : c.grammar = g) (hc : c.IsPlain) (h : g.Unrolls i j child count)
    (hp : c.text.IsBoundary p) (hplace : skips = true ∨ c.adjacent = true ∨ c.text.skip (g.rule child).skipped p = p)
    (n : Nat) (acts : Bool) {s s' : State} (hs : s.memo = .off) (hs' : s'.memo = .off) :
    let start := if (skips && !c.adjacent) = true then c.text.skip (g.rule child).skipped p else p
    Unrolled count (g.rule i).message (g.StallsAt c.text acts c.adjacent child count start)
      (answerOf? (attemptWithin n c i p acts skips s)) (answerOf? (attemptWithin n c j p acts skips s')) := by
  intro start
  rw [answerOf?_attemptWithin hg hc hs, answerOf?_attemptWithin hg hc hs']
  exact h.answers hp hplace rfl

end Attempts

/-- Two letters as a repetition and as a sequence. -/
theorem repetition_unrolls_twoLetters :
    let g := Grammar.ofKinds [.literal "a" false, .repetition 0 2 (some 2) none, .sequence [0, 0]] 1
    let c := plainContext g ['a', ' ', 'a'] false
    let s := State.initial {}
    g.Unrolls 1 2 0 2 ∧
      Unrolled 2 (g.rule 1).message (g.StallsAt c.text true false 0 2 0) (answerOf? (attemptWithin 4 c 1 0 true true s))
        (answerOf? (attemptWithin 4 c 2 0 true true s)) := by
  intro g c s
  have hunrolls : g.Unrolls 1 2 0 2 := ⟨rfl, rfl, rfl, rfl, ⟨rfl, rfl⟩, rfl, fun _ => rfl⟩
  have hstart : (if (true && !c.adjacent) = true then c.text.skip (c.grammar.rule 0).skipped 0 else 0) = 0 := by
    decide +kernel
  have hoff : s.memo = .off := rfl
  have hruns :=
    repetition_unrolls (c := c) rfl rfl hunrolls (Text.isBoundary_zero _) (Or.inl rfl) 4 true hoff hoff
  simp only [hstart] at hruns
  exact ⟨hunrolls, hruns⟩

/-- Two copies of what matches nothing: the repetition fails after the first one, and the sequence matches. -/
theorem not_sameUpTo_emptyCopies :
    let g := Grammar.ofKinds [.empty, .repetition 0 2 (some 2) none, .sequence [0, 0]] 1
    let c := plainContext g [] false
    let s := State.initial {}
    g.Unrolls 1 2 0 2 ∧
      ¬ (ending (attemptWithin 4 c 1 0 true true s)).SameUpTo Eq (ending (attemptWithin 4 c 2 0 true true s)) := by
  intro g c s
  refine ⟨⟨rfl, rfl, rfl, rfl, ⟨rfl, rfl⟩, rfl, fun _ => rfl⟩, fun hsame => ?_⟩
  obtain ⟨x, s₁, hfails, hx⟩ := exists_of_matches? (x := attemptWithin 4 c 1 0 true true s) (b := false)
    (by decide +kernel)
  obtain ⟨y, s₂, hmatches, hy⟩ := exists_of_matches? (x := attemptWithin 4 c 2 0 true true s) (b := true)
    (by decide +kernel)
  rw [hfails, hmatches] at hsame
  cases x with
  | matched stop r => exact absurd hx Bool.false_ne_true.symm
  | failed d =>
    cases y with
    | matched stop r => exact nomatch hsame
    | failed d' => exact absurd hy Bool.false_ne_true

end Packrat
