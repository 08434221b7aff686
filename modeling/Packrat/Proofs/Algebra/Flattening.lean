import Packrat.Proofs.Algebra.Concatenation
import Packrat.Proofs.Memory.Course
import Packrat.Proofs.Plain.Beginning

/-!
# `Packrat.Proofs.Algebra.Flattening` — sequences in sequences, choices in choices

A sequence in a sequence can be written out in its place, and so can a choice in a choice. What an attempt of such a
node comes to is told step by step by what its children come to, so the steps of the inner node can be put between those
of the outer one. The inner node must skip what its first child would have skipped, and in a choice what each of its
children would have.

## Contents

* `Answer.SameUpTo`, `ending` — outcomes that agree up to the origin of results;
* `SequenceTo`, `GoesOn` — what a sequence comes to, step by step;
* `SequenceTo.flatten` — a sequence in a sequence;
* `ChoiceTo`, `ChoiceTo.flatten` — choices;
* `flattening_preserves` — **attempts of nested nodes and of flat ones**.
-/

namespace Packrat

/-! ## Outcomes up to origins -/

/-- Two outcomes are matches up to the same end with the same tokens and fields, failures that have something in common,
or the same halt. -/
inductive Answer.SameUpTo (D : Diagnostic → Diagnostic → Prop) : Answer → Answer → Prop
  | matched (stop : Nat) {r r' : Results} (h : r.SameContent r') :
    SameUpTo D (.ok (.matched stop r)) (.ok (.matched stop r'))
  | failed {d d' : Diagnostic} (h : D d d') : SameUpTo D (.ok (.failed d)) (.ok (.failed d'))
  | halted (e : Halt) : SameUpTo D (.error e) (.error e)

namespace Answer.SameUpTo

variable {D : Diagnostic → Diagnostic → Prop} {o o' : Answer}

protected theorem refl (hD : ∀ d, D d d) (o : Answer) : SameUpTo D o o := by
  rcases o with e | step
  · exact .halted e
  · cases step with
    | matched stop r => exact .matched stop (.refl r)
    | failed d => exact .failed (hD d)

protected theorem trans (hD : ∀ d d' d'', D d d' → D d' d'' → D d d'') {o'' : Answer} (h : SameUpTo D o o')
    (h' : SameUpTo D o' o'') : SameUpTo D o o'' := by
  cases h with
  | matched stop h =>
    cases h' with
    | matched _ h' => exact .matched stop ⟨h.tokens.trans h'.tokens, h.fields.trans h'.fields⟩
  | failed h =>
    cases h' with
    | failed h' => exact .failed (hD _ _ _ h h')
  | halted e => exact h'

theorem asOf (h : SameUpTo D o o') (i j : ExprId) : SameUpTo D (o.asOf i) (o'.asOf j) := by
  cases h with
  | matched stop h => exact .matched stop (h.withOrigin i j)
  | failed h => exact .failed h
  | halted e => exact .halted e

/-- Whose match an outcome is makes no difference. -/
theorem asOf_self (hD : ∀ d, D d d) (i : ExprId) (o : Answer) : SameUpTo D (o.asOf i) o := by
  rcases o with e | step
  · exact .halted e
  · cases step with
    | matched stop r => exact .matched stop ⟨rfl, rfl⟩
    | failed d => exact .failed (hD d)

end Answer.SameUpTo

/-- How a run ends, whatever state it leaves. -/
def ending : EStateM.Result Halt State Step → Answer
  | .ok step _ => .ok step
  | .error e _ => .error e

theorem ending_of_answer {x : EStateM.Result Halt State Step} {o : Answer} (h : answerOf? x = some o) :
    ending x = o := by
  rcases o with e | step
  · obtain ⟨-, s, rfl⟩ := answerOf?_eq_error h
    rfl
  · obtain ⟨s, rfl⟩ := answerOf?_eq_ok h
    rfl

/-! ## Sequences -/

section Sequences

/-- A commit marker attempts nothing, but failures after it are final. -/
theorem matchSequence_marker (a : Attempt) {c : Context} {acts : Bool} {i : ExprId} {children : List ExprId}
    {first committed : Bool} {loc : Nat} {r : Results} (hi : (c.rule i).kind.isCommit = true) :
    matchSequence a c acts (i :: children) first committed loc r
      = matchSequence a c acts children false true loc r := by
  rw [matchSequence, if_pos hi]

/-- Any other child is attempted, and the sequence goes on after its match. -/
theorem matchSequence_child (a : Attempt) {c : Context} {acts : Bool} {i : ExprId} {children : List ExprId}
    {first committed : Bool} {loc : Nat} {r : Results} (hi : (c.rule i).kind.isCommit = false) :
    matchSequence a c acts (i :: children) first committed loc r
      = a c i loc acts (!first) >>= fun step =>
          match step with
          | .matched stop part => matchSequence a c acts children false committed stop (r.extend part)
          | .failed d => if committed then MatchM.halt (.committed d) else pure (.failed d) := by
  have hcommit : ¬ (c.rule i).kind.isCommit = true := by
    rw [hi]
    exact Bool.false_ne_true
  rw [matchSequence]
  exact if_neg hcommit

/-- The outcome of a sequence whose child fails. -/
def refused (committed : Bool) (d : Diagnostic) : Answer := if committed then .error (.committed d) else .ok (.failed d)

variable (g : Grammar) (t : Text) (acts adjacent : Bool)

/-- What a sequence comes to that goes on with its children from a position, by what they settle on. -/
inductive SequenceTo : (children : List ExprId) → (first committed : Bool) → (loc : Nat) → Results → Answer → Prop
  | done (first committed : Bool) (loc : Nat) (r : Results) :
    SequenceTo [] first committed loc r (.ok (.matched loc r))
  | marker {i : ExprId} {children : List ExprId} {first committed : Bool} {loc : Nat} {r : Results} {o : Answer}
    (hi : (g.rule i).kind.isCommit = true) (h : SequenceTo children false true loc r o) :
    SequenceTo (i :: children) first committed loc r o
  | next {i : ExprId} {children : List ExprId} {first committed : Bool} {loc stop : Nat} {r part : Results} {o : Answer}
    (hi : (g.rule i).kind.isCommit = false)
    (hpart : g.Settles t ⟨i, loc, acts, !first, adjacent⟩ (.ok (.matched stop part)))
    (h : SequenceTo children false committed stop (r.extend part) o) :
    SequenceTo (i :: children) first committed loc r o
  | failed {i : ExprId} {first : Bool} {loc : Nat} {d : Diagnostic} (hi : (g.rule i).kind.isCommit = false)
    (hpart : g.Settles t ⟨i, loc, acts, !first, adjacent⟩ (.ok (.failed d))) (children : List ExprId)
    (committed : Bool) (r : Results) : SequenceTo (i :: children) first committed loc r (refused committed d)
  | halted {i : ExprId} {first : Bool} {loc : Nat} {e : Halt} (hi : (g.rule i).kind.isCommit = false)
    (hpart : g.Settles t ⟨i, loc, acts, !first, adjacent⟩ (.error e)) (children : List ExprId)
    (committed : Bool) (r : Results) : SequenceTo (i :: children) first committed loc r (.error e)

/-- What a sequence comes to that has got an answer from one child and goes on with others. -/
inductive GoesOn (children : List ExprId) (committed : Bool) (r : Results) : Answer → Answer → Prop
  | matched {stop : Nat} {part : Results} {o : Answer}
    (h : SequenceTo g t acts adjacent children false committed stop (r.extend part) o) :
    GoesOn children committed r (.ok (.matched stop part)) o
  | failed (d : Diagnostic) : GoesOn children committed r (.ok (.failed d)) (refused committed d)
  | halted (e : Halt) : GoesOn children committed r (.error e) (.error e)

variable {g t acts adjacent} {i j : ExprId} {before inside after children : List ExprId} {first committed : Bool}
  {loc start : Nat} {r part : Results} {o o' : Answer}

/-- Told attempts lead a sequence along these steps. -/
theorem SequenceTo.of_told {k : Nat} {s : State}
    (h : answerOf? (matchSequence (told g k) (plainContext g t adjacent) acts children first committed loc r s)
      = some o) : SequenceTo g t acts adjacent children first committed loc r o := by
  induction children generalizing first committed loc r with
  | nil =>
    obtain rfl : Except.ok (.matched loc r) = o := Option.some.inj h
    exact .done first committed loc r
  | cons i children ih =>
    cases hi : (g.rule i).kind.isCommit with
    | true =>
      have hmarker : ((plainContext g t adjacent).rule i).kind.isCommit = true := hi
      rw [matchSequence_marker _ hmarker] at h
      exact .marker hi (ih h)
    | false =>
      have hchild : ((plainContext g t adjacent).rule i).kind.isCommit = false := hi
      rw [matchSequence_child _ hchild] at h
      rcases told_bind_cases h with ⟨e, hanswer, rfl⟩ | ⟨step, hanswer, hrest⟩
      · exact .halted hi ⟨k, hanswer⟩ children committed r
      · cases step with
        | matched stop part => exact .next hi ⟨k, hanswer⟩ (ih hrest)
        | failed d =>
          have hrefused : refused committed d = o := by
            cases committed with
            | true => exact Option.some.inj hrest
            | false => exact Option.some.inj hrest
          rw [← hrefused]
          exact .failed hi ⟨k, hanswer⟩ children committed r

/-- A sequence comes to one answer. -/
theorem SequenceTo.unique (h : SequenceTo g t acts adjacent children first committed loc r o)
    (h' : SequenceTo g t acts adjacent children first committed loc r o') : o = o' := by
  induction h with
  | done => cases h'; rfl
  | marker hi _ ih =>
    cases h' with
    | marker _ h' => exact ih h'
    | next hi' | failed hi' | halted hi' => exact absurd (hi.symm.trans hi') Bool.true_eq_false.mp
  | next hi hpart _ ih =>
    cases h' with
    | marker hi' => exact absurd (hi'.symm.trans hi) Bool.true_eq_false.mp
    | next _ hpart' h' =>
      obtain ⟨rfl, rfl⟩ := Step.matched.inj (Except.ok.inj (hpart.unique hpart'))
      exact ih h'
    | failed _ hpart' => exact absurd (hpart.unique hpart') (by simp)
    | halted _ hpart' => exact absurd (hpart.unique hpart') (by simp)
  | failed hi hpart =>
    cases h' with
    | marker hi' => exact absurd (hi'.symm.trans hi) Bool.true_eq_false.mp
    | next _ hpart' => exact absurd (hpart.unique hpart') (by simp)
    | failed _ hpart' => rw [Step.failed.inj (Except.ok.inj (hpart.unique hpart'))]
    | halted _ hpart' => exact absurd (hpart.unique hpart') (by simp)
  | halted hi hpart =>
    cases h' with
    | marker hi' => exact absurd (hi'.symm.trans hi) Bool.true_eq_false.mp
    | next _ hpart' => exact absurd (hpart.unique hpart') (by simp)
    | failed _ hpart' => exact absurd (hpart.unique hpart') (by simp)
    | halted _ hpart' => exact hpart.unique hpart'

/-- A sequence gets an answer from its first child and goes on with the others. -/
theorem SequenceTo.goesOn (hi : (g.rule i).kind.isCommit = false)
    (h : SequenceTo g t acts adjacent (i :: children) first committed loc r o) :
    ∃ o', g.Settles t ⟨i, loc, acts, !first, adjacent⟩ o' ∧ GoesOn g t acts adjacent children committed r o' o := by
  cases h with
  | marker hi' => exact absurd (hi'.symm.trans hi) Bool.true_eq_false.mp
  | next _ hpart h => exact ⟨_, hpart, .matched h⟩
  | failed _ hpart => exact ⟨_, hpart, .failed _⟩
  | halted _ hpart => exact ⟨_, hpart, .halted _⟩

/-- Whose match the child's is makes no difference. -/
theorem GoesOn.of_asOf (h : GoesOn g t acts adjacent children committed r (o'.asOf i) o) :
    GoesOn g t acts adjacent children committed r o' o := by
  rcases o' with e | step
  · exact h
  · cases step with
    | matched stop part =>
      cases h with
      | matched h => exact .matched h
    | failed d => exact h

/-- The first child can be attempted from elsewhere if it settles there on what it settles on here. -/
theorem SequenceTo.head_congr {first' : Bool} {loc' : Nat} (hi : (g.rule i).kind.isCommit = false)
    (hsame : ∀ o, g.Settles t ⟨i, loc, acts, !first, adjacent⟩ o → g.Settles t ⟨i, loc', acts, !first', adjacent⟩ o)
    (h : SequenceTo g t acts adjacent (i :: children) first committed loc r o) :
    SequenceTo g t acts adjacent (i :: children) first' committed loc' r o := by
  cases h with
  | marker hi' => exact absurd (hi'.symm.trans hi) Bool.true_eq_false.mp
  | next _ hpart h => exact .next hi (hsame _ hpart) h
  | failed _ hpart => exact .failed hi (hsame _ hpart) _ _ _
  | halted _ hpart => exact .halted hi (hsame _ hpart) _ _ _

/-- **What comes after an inner sequence can be put after its children.** The steps of the inner sequence lead on from
what was there before it, and its failure is one of the outer sequence. -/
theorem SequenceTo.append (hinside : ∀ i ∈ inside, (g.rule i).kind.isCommit = false)
    (hfirst : inside = [] → first = false) (hpart : part.names.Nodup)
    (h : SequenceTo g t acts adjacent inside first false loc part o')
    (hafter : GoesOn g t acts adjacent after committed r o' o) :
    SequenceTo g t acts adjacent (inside ++ after) first committed loc (r.extend part) o := by
  induction inside generalizing first loc part with
  | nil =>
    obtain rfl : first = false := hfirst rfl
    cases h with
    | done =>
      cases hafter with
      | matched h => exact h
  | cons i inside ih =>
    have hi := hinside i List.mem_cons_self
    have hrest : ∀ j ∈ inside, (g.rule j).kind.isCommit = false := fun j hj => hinside j (List.mem_cons_of_mem _ hj)
    cases h with
    | marker hi' => exact absurd (hi'.symm.trans hi) Bool.true_eq_false.mp
    | next _ hsettles h =>
      refine .next hi hsettles ?_
      rw [ResultsOf.extend_assoc r hpart]
      exact ih hrest (fun _ => rfl) (ResultsOf.nodup_names_extend hpart _) h
    | failed _ hsettles =>
      cases hafter with
      | failed d => exact .failed hi hsettles _ _ _
    | halted _ hsettles =>
      cases hafter with
      | halted e => exact .halted hi hsettles _ _ _

/-- An attempt of an inner sequence comes to what its children come to from where it was made, if it skips what the
first of them does. -/
theorem SequenceTo.of_inner {skips : Bool} (hkind : (g.rule j).kind = .sequence (i :: children))
    (hi : (g.rule i).kind.isCommit = false) (hlike : (g.rule j).SkipsLike (g.rule i))
    (h : g.Settles t ⟨j, loc, acts, skips, adjacent⟩ o) :
    ∃ o', SequenceTo g t acts adjacent (i :: children) (!skips) false loc {} o' ∧ o = o'.asOf j := by
  obtain ⟨k, hk⟩ := h
  cases k with
  | zero => exact absurd hk (by simp)
  | succ k =>
    have hbegins := hlike.begins_eq g t k adjacent loc skips
    rcases begins_still g t k adjacent (g.rule j) loc skips with ⟨start, hstart⟩ | ⟨e, hhalt⟩
    · rw [answer?_of_begins hstart acts (State.initial {})] at hk
      obtain ⟨o', ho', rfl⟩ := Option.map_eq_some_iff.mp hk
      simp only [matchNode, hkind] at ho'
      refine ⟨o', SequenceTo.head_congr hi ?_ (SequenceTo.of_told ho'), rfl⟩
      -- the first child, attempted from where the sequence was, begins where the sequence does
      intro part hpart
      rw [Bool.not_not]
      refine Grammar.Settles.congr (fun k' (hle : k ≤ k') => ?_) hpart
      rw [begins_of_le g t k adjacent hle (hbegins.symm.trans hstart), Bool.not_true, begins_of_not_skips]
    · rw [answer?_of_begins_halt hhalt] at hk
      have he : e.isTooDeep = false := by
        cases he : e.isTooDeep with
        | true => exact absurd (hk.symm.trans (answerOf?_tooDeep he _)) (Option.some_ne_none o)
        | false => rfl
      obtain rfl : Except.error e = o := Option.some.inj ((answerOf?_error he _).symm.trans hk)
      refine ⟨.error e, .halted hi ⟨k + 1, ?_⟩ children false {}, rfl⟩
      rw [Bool.not_not, answer?_of_begins_halt (hbegins.symm.trans hhalt)]
      exact answerOf?_error he _

/-- **A sequence in a sequence** can be written out in its place. -/
theorem SequenceTo.flatten (hkind : (g.rule j).kind = .sequence inside)
    (hinside : ∀ i ∈ inside, (g.rule i).kind.isCommit = false)
    (hlike : ∃ i ∈ inside.head?, (g.rule j).SkipsLike (g.rule i))
    (h : SequenceTo g t acts adjacent (before ++ j :: after) first committed loc r o) :
    SequenceTo g t acts adjacent (before ++ (inside ++ after)) first committed loc r o := by
  induction before generalizing first committed loc r with
  | nil =>
    obtain ⟨i, hhead, hlike⟩ := hlike
    obtain ⟨children, rfl⟩ : ∃ children, inside = i :: children := by
      cases inside with
      | nil => exact absurd hhead (by simp)
      | cons b bs => exact ⟨bs, by rw [Option.some.inj hhead]⟩
    have hj : (g.rule j).kind.isCommit = false := by rw [hkind]; rfl
    obtain ⟨o', hsettles, hafter⟩ := h.goesOn hj
    obtain ⟨o'', hinner, rfl⟩ := SequenceTo.of_inner hkind (hinside i List.mem_cons_self) hlike hsettles
    rw [Bool.not_not] at hinner
    have hnames : (({} : Results).names).Nodup := List.nodup_nil
    have happend := hinner.append hinside (by simp) hnames hafter.of_asOf
    rwa [ResultsOf.extend_empty] at happend
  | cons i before ih =>
    cases h with
    | marker hi h => exact .marker hi (ih h)
    | next hi hpart h => exact .next hi hpart (ih h)
    | failed hi hpart => exact .failed hi hpart _ _ _
    | halted hi hpart => exact .halted hi hpart _ _ _

end Sequences

/-! ## Choices -/

section Choices

variable (g : Grammar) (t : Text) (acts adjacent : Bool)

/-- What a choice comes to at a position, by what its children settle on; how it fails is left open. -/
inductive ChoiceTo (start : Nat) : (children : List ExprId) → Answer → Prop
  | none (d : Diagnostic) : ChoiceTo start [] (.ok (.failed d))
  | matched {i : ExprId} {stop : Nat} {r : Results}
    (h : g.Settles t ⟨i, start, acts, true, adjacent⟩ (.ok (.matched stop r))) (children : List ExprId) :
    ChoiceTo start (i :: children) (.ok (.matched stop r))
  | next {i : ExprId} {children : List ExprId} {d : Diagnostic} {o : Answer}
    (hi : g.Settles t ⟨i, start, acts, true, adjacent⟩ (.ok (.failed d))) (h : ChoiceTo start children o) :
    ChoiceTo start (i :: children) o
  | halted {i : ExprId} {e : Halt} (h : g.Settles t ⟨i, start, acts, true, adjacent⟩ (.error e))
    (children : List ExprId) : ChoiceTo start (i :: children) (.error e)

variable {g t acts adjacent} {i j : ExprId} {before inside after children : List ExprId} {start start' : Nat}
  {o o' : Answer}

/-- Told attempts lead a choice along these steps. -/
theorem ChoiceTo.of_told {k : Nat} {rule : Rule} {best : Option Diagnostic} {s : State}
    (h : answerOf? (matchFirst (told g k) (plainContext g t adjacent) rule start acts children best s) = some o) :
    ChoiceTo g t acts adjacent start children o := by
  induction children generalizing best with
  | nil =>
    obtain ⟨d, hd⟩ := choiceFailure_eq_failed best start rule
    have hrun : some (Except.ok (choiceFailure best start rule)) = some o := h
    rw [hd] at hrun
    rw [← Option.some.inj hrun]
    exact .none d
  | cons i children ih =>
    rw [matchFirst] at h
    rcases told_bind_cases h with ⟨e, hanswer, rfl⟩ | ⟨step, hanswer, hrest⟩
    · exact .halted ⟨k, hanswer⟩ children
    · cases step with
      | matched stop r =>
        rw [← Option.some.inj hrest]
        exact .matched ⟨k, hanswer⟩ children
      | failed d => exact .next ⟨k, hanswer⟩ (ih hrest)

/-- A choice comes to one match or halt, or it fails. -/
theorem ChoiceTo.unique (h : ChoiceTo g t acts adjacent start children o)
    (h' : ChoiceTo g t acts adjacent start children o') : o.SameUpTo (fun _ _ => True) o' := by
  induction h with
  | none d =>
    cases h' with
    | none d' => exact .failed trivial
  | matched h =>
    cases h' with
    | matched h' =>
      rw [h.unique h']
      exact .refl (fun _ => trivial) _
    | next h' => exact absurd (h.unique h') (by simp)
    | halted h' => exact absurd (h.unique h') (by simp)
  | next hi _ ih =>
    cases h' with
    | matched h' => exact absurd (hi.unique h') (by simp)
    | next _ h' => exact ih h'
    | halted h' => exact absurd (hi.unique h') (by simp)
  | halted h =>
    cases h' with
    | matched h' => exact absurd (h.unique h') (by simp)
    | next h' => exact absurd (h.unique h') (by simp)
    | halted h' =>
      rw [h.unique h']
      exact .refl (fun _ => trivial) _

/-- The children can be attempted from elsewhere if they settle there on what they settle on here. -/
theorem ChoiceTo.congr
    (hsame : ∀ i ∈ children, ∀ o, g.Settles t ⟨i, start, acts, true, adjacent⟩ o →
      g.Settles t ⟨i, start', acts, true, adjacent⟩ o)
    (h : ChoiceTo g t acts adjacent start children o) : ChoiceTo g t acts adjacent start' children o := by
  induction h with
  | none d => exact .none d
  | matched h => exact .matched (hsame _ List.mem_cons_self _ h) _
  | next hi _ ih =>
    exact .next (hsame _ List.mem_cons_self _ hi) (ih fun j hj => hsame j (List.mem_cons_of_mem _ hj))
  | halted h => exact .halted (hsame _ List.mem_cons_self _ h) _

/-- Where a choice fails, more children can be put after it. -/
theorem ChoiceTo.append_failed {d : Diagnostic} (h : ChoiceTo g t acts adjacent start inside (.ok (.failed d)))
    (hafter : ChoiceTo g t acts adjacent start after o) : ChoiceTo g t acts adjacent start (inside ++ after) o := by
  induction inside with
  | nil => exact hafter
  | cons i inside ih =>
    cases h with
    | next hi h => exact .next hi (ih h)

/-- Where it does not, what is put after it is not attempted. -/
theorem ChoiceTo.append_decided (h : ChoiceTo g t acts adjacent start inside o) (hdecided : ∀ d, o ≠ .ok (.failed d))
    (after : List ExprId) : ChoiceTo g t acts adjacent start (inside ++ after) o := by
  induction h with
  | none d => exact absurd rfl (hdecided d)
  | matched h => exact .matched h _
  | next hi _ ih => exact .next hi (ih hdecided)
  | halted h => exact .halted h _

/-- Skipping twice is skipping once, whatever the position. -/
theorem skip_skip (set : Char → Bool) (t : Text) (p : Nat) : t.skip set (t.skip set p) = t.skip set p := by
  by_cases hp : t.IsBoundary p
  · exact hp.skip_skip set
  · have hrest : t.rest p = [] := by
      rw [Text.rest, Option.not_isSome_iff_eq_none.mp hp]
      rfl
    have hstay : t.skip set p = p := by
      rw [Text.skip, hrest]
      rfl
    rw [hstay, hstay]

/-- An attempt of an inner choice comes to what its children come to from where it was made, if all of them skip the
same whitespace and nothing else. -/
theorem ChoiceTo.of_inner (hkind : (g.rule j).kind = .orderedChoice inside) (hj : (g.rule j).ignores = [])
    (hlike : ∀ i ∈ inside, (g.rule i).SkipsLike (g.rule j)) (h : g.Settles t ⟨j, start, acts, true, adjacent⟩ o) :
    ∃ o', ChoiceTo g t acts adjacent start inside o' ∧ o = o'.asOf j := by
  obtain ⟨k, hk⟩ := h
  cases k with
  | zero => exact absurd hk (by simp)
  | succ k =>
    have hbegins (i : ExprId) (hi : (g.rule i).ignores = []) (k p : Nat) :=
      begins_of_ignores_nil g t k adjacent hi p true
    rw [answer?_of_begins (hbegins j hj k start) acts (State.initial {})] at hk
    obtain ⟨o', ho', rfl⟩ := Option.map_eq_some_iff.mp hk
    simp only [matchNode, hkind] at ho'
    refine ⟨o', (ChoiceTo.of_told ho').congr fun i hi o ho => ?_, rfl⟩
    -- the children skip from where the choice was attempted what it has skipped before them
    have hi := hlike i hi
    refine Grammar.Settles.congr (fun k (_ : 0 ≤ k) => ?_) ho
    rw [hbegins i (hi.ignores.trans hj), hbegins i (hi.ignores.trans hj), hi.skipped]
    cases adjacent with
    | true => rfl
    | false =>
      simp only [Bool.not_false, Bool.and_self, if_true]
      rw [skip_skip]

/-- A choice fails at its first child and goes on with the others, or comes to what that child comes to. -/
theorem ChoiceTo.goesOn (h : ChoiceTo g t acts adjacent start (j :: after) o) :
    ∃ o', g.Settles t ⟨j, start, acts, true, adjacent⟩ o' ∧
      ((∃ d, o' = .ok (.failed d)) ∧ ChoiceTo g t acts adjacent start after o ∨
        (∀ d, o' ≠ .ok (.failed d)) ∧ o' = o) := by
  cases h with
  | matched h => exact ⟨_, h, Or.inr ⟨by simp, rfl⟩⟩
  | next hi h => exact ⟨_, hi, Or.inl ⟨⟨_, rfl⟩, h⟩⟩
  | halted h => exact ⟨_, h, Or.inr ⟨by simp, rfl⟩⟩

theorem Answer.asOf_eq_failed {d : Diagnostic} (h : o.asOf j = .ok (.failed d)) : o = .ok (.failed d) := by
  rcases o with e | step
  · exact absurd h (by simp [Answer.asOf, Except.map])
  · cases step with
    | matched stop r => exact absurd h (by simp [Answer.asOf, Except.map])
    | failed d' => exact h

/-- **A choice in a choice** can be written out in its place. -/
theorem ChoiceTo.flatten (hkind : (g.rule j).kind = .orderedChoice inside) (hj : (g.rule j).ignores = [])
    (hlike : ∀ i ∈ inside, (g.rule i).SkipsLike (g.rule j))
    (h : ChoiceTo g t acts adjacent start (before ++ j :: after) o) :
    ∃ o', ChoiceTo g t acts adjacent start (before ++ (inside ++ after)) o' ∧ o.SameUpTo (fun _ _ => True) o' := by
  induction before with
  | nil =>
    obtain ⟨_, hsettles, hcase⟩ := h.goesOn
    obtain ⟨o', hinner, rfl⟩ := ChoiceTo.of_inner hkind hj hlike hsettles
    rcases hcase with ⟨⟨d, hd⟩, hafter⟩ | ⟨hdecided, rfl⟩
    · obtain rfl := Answer.asOf_eq_failed hd
      exact ⟨o, hinner.append_failed hafter, .refl (fun _ => trivial) o⟩
    · refine ⟨o', hinner.append_decided (fun d hd => hdecided d ?_) after, .asOf_self (fun _ => trivial) j o'⟩
      rw [hd]
      rfl
  | cons i before ih =>
    cases h with
    | matched h => exact ⟨_, .matched h _, .refl (fun _ => trivial) _⟩
    | next hi h =>
      obtain ⟨o', h', hsame⟩ := ih h
      exact ⟨o', .next hi h', hsame⟩
    | halted h => exact ⟨_, .halted h _, .refl (fun _ => trivial) _⟩

end Choices

/-! ## Attempts -/

/-- A node and the same node with an inner one written out, and what their failures have in common. -/
inductive Grammar.Flattens (g : Grammar) : (D : Diagnostic → Diagnostic → Prop) → (nested flat : ExprId) → Prop
  /-- A sequence in a sequence: the inner one skips what its first child does, and holds no commit marker. -/
  | sequence {nested flat inner : ExprId} {before inside after : List ExprId}
    (hnested : (g.rule nested).kind = .sequence (before ++ [inner] ++ after))
    (hflat : (g.rule flat).kind = .sequence (before ++ inside ++ after))
    (hinner : (g.rule inner).kind = .sequence inside)
    (hinherits : ∃ i ∈ inside.head?, (g.rule inner).SkipsLike (g.rule i))
    (huncommitted : ∀ i ∈ inside, (g.rule i).kind.isCommit = false) : Flattens g Eq nested flat
  /-- A choice in a choice: the inner one and its children skip the same whitespace and have no ignorables. -/
  | choice {nested flat inner : ExprId} {before inside after : List ExprId}
    (hnested : (g.rule nested).kind = .orderedChoice (before ++ [inner] ++ after))
    (hflat : (g.rule flat).kind = .orderedChoice (before ++ inside ++ after))
    (hinner : (g.rule inner).kind = .orderedChoice inside) (hignores : (g.rule inner).ignores = [])
    (hshared : ∀ i ∈ inside, (g.rule i).SkipsLike (g.rule inner)) : Flattens g (fun _ _ => True) nested flat

section Attempts

variable {g : Grammar} {D : Diagnostic → Diagnostic → Prop} {nested flat : ExprId}

/-- Where a nested node and a flat one begin, matching them comes to the same. -/
theorem Grammar.Flattens.matchNode {t : Text} {acts adjacent : Bool} {k : Nat} (h : g.Flattens D nested flat)
    {start : Nat} {s : State} {o o' : Answer}
    (ho : answerOf? (matchNode (told g k) (plainContext g t adjacent) nested (g.rule nested) start acts s) = some o)
    (ho' : answerOf? (matchNode (told g k) (plainContext g t adjacent) flat (g.rule flat) start acts s) = some o') :
    o.SameUpTo D o' := by
  cases h with
  | sequence hnested hflat hinner hinherits huncommitted =>
    simp only [Packrat.matchNode, hnested, hflat, List.append_assoc, List.singleton_append] at ho ho'
    have hwritten := (SequenceTo.of_told ho).flatten hinner huncommitted hinherits
    rw [hwritten.unique (SequenceTo.of_told ho')]
    exact .refl (fun _ => rfl) o'
  | choice hnested hflat hinner hignores hshared =>
    simp only [Packrat.matchNode, hnested, hflat, List.append_assoc, List.singleton_append] at ho ho'
    obtain ⟨x, hwritten, hsame⟩ := (ChoiceTo.of_told ho).flatten hinner hignores hshared
    exact hsame.trans (fun _ _ _ _ _ => trivial) (hwritten.unique (ChoiceTo.of_told ho'))

/-- Where it does not matter which of them is attempted for what is skipped before, the attempts come to the same. -/
theorem Grammar.Flattens.answer {t : Text} {p k : Nat} {acts skips adjacent : Bool} (h : g.Flattens D nested flat)
    (hskips : skips = true → (g.rule nested).SkipsLike (g.rule flat)) {o o' : Answer}
    (ho : g.answer? t k ⟨nested, p, acts, skips, adjacent⟩ = some o)
    (ho' : g.answer? t k ⟨flat, p, acts, skips, adjacent⟩ = some o') : o.SameUpTo D o' := by
  cases k with
  | zero => exact absurd ho (by simp)
  | succ k =>
    have hbegins : g.begins t k adjacent (g.rule nested) p skips = g.begins t k adjacent (g.rule flat) p skips := by
      cases skips with
      | false => rfl
      | true => exact (hskips rfl).begins_eq g t k adjacent p true
    rcases begins_still g t k adjacent (g.rule nested) p skips with ⟨start, hstart⟩ | ⟨e, hhalt⟩
    · rw [answer?_of_begins hstart acts (State.initial {})] at ho
      rw [answer?_of_begins (hbegins.symm.trans hstart) acts (State.initial {})] at ho'
      obtain ⟨x, hx, rfl⟩ := Option.map_eq_some_iff.mp ho
      obtain ⟨y, hy, rfl⟩ := Option.map_eq_some_iff.mp ho'
      exact (h.matchNode hx hy).asOf nested flat
    · rw [answer?_of_begins_halt hhalt] at ho
      rw [answer?_of_begins_halt (hbegins.symm.trans hhalt)] at ho'
      obtain rfl := Option.some.inj (ho.symm.trans ho')
      rw [← ending_of_answer ho]
      exact .halted e

/-- **Attempts of nested nodes and of flat ones** come to the same, unless one of them nests too deeply: a sequence in a
sequence to the same match, failure or halt, and a choice in a choice to the same match or halt, or both fail. Where the
attempts skip first, the two nodes must skip alike. -/
theorem flattening_preserves {c : Context} (hg : c.grammar = g) (hc : c.IsPlain) (h : g.Flattens D nested flat)
    {skips : Bool} (hskips : skips = true → (g.rule nested).SkipsLike (g.rule flat)) (n p : Nat) (acts : Bool)
    {s s' : State} (hs : s.memo = .off) (hs' : s'.memo = .off) :
    NestsTooDeeply (attemptWithin n c nested p acts skips s) ∨ NestsTooDeeply (attemptWithin n c flat p acts skips s') ∨
      (ending (attemptWithin n c nested p acts skips s)).SameUpTo D
        (ending (attemptWithin n c flat p acts skips s')) := by
  have hx := answerOf?_attemptWithin hg hc hs n nested p acts skips
  have hy := answerOf?_attemptWithin hg hc hs' n flat p acts skips
  cases ho : g.answer? c.text (c.room n) (c.key nested p acts skips) with
  | none => exact Or.inl (nestsTooDeeply_iff.mpr (by rw [hx, ho]; rfl))
  | some o =>
    cases ho' : g.answer? c.text (c.room n) (c.key flat p acts skips) with
    | none => exact Or.inr (Or.inl (nestsTooDeeply_iff.mpr (by rw [hy, ho']; rfl)))
    | some o' =>
      refine Or.inr (Or.inr ?_)
      rw [ending_of_answer (hx.trans ho), ending_of_answer (hy.trans ho')]
      exact h.answer hskips ho ho'

end Attempts

/-- Letters in a sequence and in a choice, with an inner sequence and an inner choice, and without. -/
def nestedLetters : Grammar :=
  Grammar.ofKinds [.literal "a" false, .literal "b" false, .sequence [0, 1], .sequence [0, 2, 1],
    .sequence [0, 0, 1, 1], .orderedChoice [1, 4], .orderedChoice [3, 5], .orderedChoice [3, 1, 4]] 3

theorem flattening_preserves_nestedLetters :
    let g := nestedLetters
    let c := plainContext g ['a', ' ', 'a', 'b', 'b'] false
    let s := State.initial {}
    g.Flattens Eq 3 4 ∧ g.Flattens (fun _ _ => True) 6 7 ∧
      (NestsTooDeeply (attemptWithin 9 c 3 0 true true s) ∨ NestsTooDeeply (attemptWithin 9 c 4 0 true true s) ∨
        (ending (attemptWithin 9 c 3 0 true true s)).SameUpTo Eq (ending (attemptWithin 9 c 4 0 true true s))) ∧
      (NestsTooDeeply (attemptWithin 9 c 6 0 true true s) ∨ NestsTooDeeply (attemptWithin 9 c 7 0 true true s) ∨
        (ending (attemptWithin 9 c 6 0 true true s)).SameUpTo (fun _ _ => True)
          (ending (attemptWithin 9 c 7 0 true true s))) := by
  intro g c s
  have hsequence : g.Flattens Eq 3 4 := by
    have hnested : (g.rule 3).kind = .sequence ([0] ++ [2] ++ [1]) := rfl
    have hflat : (g.rule 4).kind = .sequence ([0] ++ [0, 1] ++ [1]) := rfl
    exact .sequence hnested hflat rfl ⟨0, rfl, rfl, rfl⟩ (by decide)
  have hchoice : g.Flattens (fun _ _ => True) 6 7 := by
    have hnested : (g.rule 6).kind = .orderedChoice ([3] ++ [5] ++ []) := rfl
    have hflat : (g.rule 7).kind = .orderedChoice ([3] ++ [1, 4] ++ []) := rfl
    refine .choice hnested hflat rfl rfl fun i hi => ?_
    rcases List.mem_pair.mp hi with rfl | rfl
    · exact ⟨rfl, rfl⟩
    · exact ⟨rfl, rfl⟩
  exact ⟨hsequence, hchoice, flattening_preserves (c := c) rfl rfl hsequence (fun _ => ⟨rfl, rfl⟩) 9 0 true rfl rfl,
    flattening_preserves (c := c) rfl rfl hchoice (fun _ => ⟨rfl, rfl⟩) 9 0 true rfl rfl⟩

end Packrat
