import Packrat.Proofs.AnyOrder.Finds
import Packrat.Proofs.Coupling.Runs
import Packrat.Proofs.Plain.Beginning
import Packrat.Proofs.Plain.Longest

/-!
# `Packrat.Proofs.AnyOrder.Replay` — the second pass over children in any order replays the first

The first pass tests without actions, and for an optional child it tests the node under it, which skips what that node
skips. The second pass runs the children, and an optional child skips what it skips itself, before the node under it is
attempted without skipping. So the passes see the same only where both begin at one place. There, what is run matches
where it was tested and up to the same end, and the second pass goes the way of the first one. Past its end, optional
children are run that are absent and have a value that stands for them; they match, but may skip what comes next.

## Contents

* `answer?_optional` — what an optional node comes to;
* `Grammar.OptionalsBeginAlike` — optional children that begin where their nodes do;
* `EachItem.settles_run` — **what tests as a match runs as one**;
* `runInOrder_replays` — runs along the finds of a discovery;
* `each_replays_discovery` — **the two passes of a node**.
-/

namespace Packrat

/-! ## Optional nodes -/

/-- What an optional node comes to, by what the node under it comes to. -/
def Step.orAbsent (start : Nat) (absent : Results) : Step → Step
  | .matched stop r => .matched stop r
  | .failed _ => .matched start absent

theorem Step.isMatch_orAbsent (start : Nat) (absent : Results) (step : Step) :
    (step.orAbsent start absent).isMatch = true := by
  cases step <;> rfl

theorem Step.isMatch_mapResults (f : Results → Results) (step : Step) : (step.mapResults f).isMatch = step.isMatch := by
  cases step <;> rfl

section Optional

variable {g : Grammar} {t : Text} {k : Nat} {adjacent : Bool} {i inner : ExprId} {default : Option Value}
  {p start : Nat} {acts skips : Bool} {step : Step} (hkind : (g.rule i).kind = .optional inner default)
include hkind

/-- **An optional node** matches as the node under it does where it begins, or else nothing there. -/
theorem answer?_optional (hbegin : g.begins t k adjacent (g.rule i) p skips = pure start) (acts : Bool) :
    g.answer? t (k + 1) ⟨i, p, acts, skips, adjacent⟩
      = (g.answer? t k ⟨inner, start, acts, false, adjacent⟩).map fun o => Answer.asOf i
          (o.map (Step.orAbsent start (absentResults default (g.rule inner).kind))) := by
  rw [answer?_of_begins hbegin acts (State.initial {})]
  have hnode (c : Context) (hc : c.grammar = g) : matchNode (told g k) c i (g.rule i) start acts
      = told g k c inner start acts false >>= fun step =>
          pure (step.orAbsent start (absentResults default (g.rule inner).kind)) := by
    simp only [matchNode, hkind, Context.rule, hc]
    congr 1
    funext step
    cases step <;> rfl
  rw [hnode _ rfl]
  have htold : told g k (plainContext g t adjacent) inner start acts false
      = tell (g.answer? t k ⟨inner, start, acts, false, adjacent⟩) := rfl
  rw [htold]
  cases hanswer : g.answer? t k ⟨inner, start, acts, false, adjacent⟩ with
  | none => rfl
  | some o =>
    cases o with
    | ok step => rfl
    | error e =>
      have hrun : answerOf? (.error e (State.initial {})) = some (.error e) :=
        answerOf?_error (Grammar.not_tooDeep_of_answer hanswer) _
      exact congrArg (Option.map (Answer.asOf i)) hrun

/-- An optional node never fails. -/
theorem Grammar.Settles.isMatch_of_optional (h : g.Settles t ⟨i, p, acts, skips, adjacent⟩ (.ok step)) :
    step.isMatch = true := by
  obtain ⟨k, hk⟩ := h
  cases k with
  | zero => exact absurd hk (by simp)
  | succ k =>
    rcases begins_still g t k adjacent (g.rule i) p skips with ⟨start, hbegin⟩ | ⟨e, hhalt⟩
    · rw [answer?_optional hkind hbegin, Option.map_eq_some_iff] at hk
      obtain ⟨o, -, ho⟩ := hk
      cases o with
      | error e => exact absurd ho (by simp [Answer.asOf, Except.map])
      | ok first =>
        obtain rfl := Except.ok.inj ho
        rw [Step.isMatch_mapResults, Step.isMatch_orAbsent]
    · rw [answer?_of_begins_halt hhalt] at hk
      obtain ⟨s, hs⟩ := answerOf?_eq_ok hk
      exact absurd hs (by simp)

/-- An optional node matches as the node under it does that begins at the same place. -/
theorem Grammar.Settles.optional {k' : Nat}
    (halike : ∀ k ≥ k', g.begins t k adjacent (g.rule i) p true = g.begins t k adjacent (g.rule inner) p true)
    {stop : Nat} {r : Results} (h : g.Settles t ⟨inner, p, acts, true, adjacent⟩ (.ok (.matched stop r))) :
    ∃ r', g.Settles t ⟨i, p, acts, true, adjacent⟩ (.ok (.matched stop r')) := by
  obtain ⟨k, hk⟩ := h
  have hroom : g.answer? t (max k k' + 1) ⟨inner, p, acts, true, adjacent⟩ = some (.ok (.matched stop r)) :=
    answer?_of_le (by omega) hk
  rcases begins_still g t (max k k') adjacent (g.rule inner) p true with ⟨start, hbegin⟩ | ⟨e, hhalt⟩
  · -- past what it skips, the node under it matches as well when it is not to skip
    have hskipped := answer?_congr (hbegin.trans (begins_of_not_skips g t (max k k') adjacent (g.rule inner) start).symm)
      acts
    have hchild : g.begins t (max k k' + 1) adjacent (g.rule i) p true = pure start :=
      begins_of_le g t _ adjacent (Nat.le_succ _) ((halike _ (Nat.le_max_right k k')).trans hbegin)
    refine ⟨r.withOrigin i, max k k' + 2, ?_⟩
    rw [answer?_optional hkind hchild, ← hskipped, hroom]
    rfl
  · rw [answer?_of_begins_halt hhalt] at hroom
    obtain ⟨s, hs⟩ := answerOf?_eq_ok hroom
    exact absurd hs (by simp)

end Optional

/-! ## Tests and runs -/

/-- Wherever the node under an optional child matches without actions, the child begins where that node does, given
room enough. -/
def Grammar.OptionalsBeginAlike (g : Grammar) (t : Text) (adjacent : Bool) (children : List ExprId) : Prop :=
  ∀ child ∈ children, ∀ inner default, (g.rule child).kind = .optional inner default → ∀ p stop r,
    g.Settles t ⟨inner, p, false, true, adjacent⟩ (.ok (.matched stop r)) →
      ∃ k', ∀ k ≥ k', g.begins t k adjacent (g.rule child) p true = g.begins t k adjacent (g.rule inner) p true

/-- Optional children begin where their nodes do if they have the same skipped before them. -/
theorem Grammar.optionalsBeginAlike_of_skipsLike {g : Grammar} {children : List ExprId}
    (h : ∀ child ∈ children, ∀ inner default, (g.rule child).kind = .optional inner default →
      (g.rule child).SkipsLike (g.rule inner)) (t : Text) (adjacent : Bool) :
    g.OptionalsBeginAlike t adjacent children := fun child hchild inner default hkind p _ _ _ =>
  ⟨0, fun k _ => (h child hchild inner default hkind).begins_eq g t k adjacent p true⟩

namespace EachItem

/-- What is tested is what is run, or else the node under an optional child. -/
theorem ofChild_cases (child : ExprId) (kind : NodeKind) :
    (ofChild child kind).test = (ofChild child kind).run ∧ (ofChild child kind).role ≠ .optional ∨
      ∃ default, kind = .optional (ofChild child kind).test default ∧ (ofChild child kind).run = child := by
  cases kind with
  | optional inner default => exact Or.inr ⟨default, rfl, rfl⟩
  | repetition inner least most stop => cases most <;> cases stop <;> exact Or.inl ⟨rfl, by simp [ofChild]⟩
  | _ => exact Or.inl ⟨rfl, by simp [ofChild]⟩

/-- **What tests as a match runs as one**, up to the same end. -/
theorem settles_run {g : Grammar} {N : ExprId → Prop} (hN : g.Closed N) (haccepting : g.Accepting N) {t : Text}
    {adjacent : Bool} {children : List ExprId} (halike : g.OptionalsBeginAlike t adjacent children) {child : ExprId}
    (hchild : child ∈ children) (hmem : N child) {p stop : Nat} {r : Results}
    (h : g.Settles t ⟨(ofChild child (g.rule child).kind).test, p, false, true, adjacent⟩ (.ok (.matched stop r)))
    (acts : Bool) :
    ∃ r', g.Settles t ⟨(ofChild child (g.rule child).kind).run, p, acts, true, adjacent⟩ (.ok (.matched stop r')) := by
  have htest : N (ofChild child (g.rule child).kind).test :=
    (ofChild_within hmem fun inner hinner => hN.child hmem hinner.mem_children).1
  -- with actions the test comes to the same end
  obtain ⟨r₁, hacts⟩ : ∃ r₁, g.Settles t ⟨(ofChild child (g.rule child).kind).test, p, acts, true, adjacent⟩
      (.ok (.matched stop r₁)) := by
    obtain ⟨k, hk⟩ := h
    obtain ⟨o, ho, hsame⟩ := Grammar.answer?_probe hN haccepting htest acts hk
    obtain ⟨step, rfl, hstep⟩ := hsame.ok_eq
    obtain ⟨r₁, rfl⟩ : ∃ r₁, step = .matched stop r₁ := by
      cases step with
      | matched stop' r' => exact ⟨r', by rw [hstep.1]⟩
      | failed d => exact absurd hstep id
    exact ⟨r₁, k, ho⟩
  rcases ofChild_cases child (g.rule child).kind with ⟨heq, -⟩ | ⟨default, hkind, hrun⟩
  · rw [← heq]
    exact ⟨r₁, hacts⟩
  · obtain ⟨k', hbegins⟩ := halike child hchild _ default hkind p stop r h
    rw [hrun]
    exact Grammar.Settles.optional hkind hbegins hacts

end EachItem

/-! ## The second pass -/

section Replay

variable {g : Grammar} {c : Context} (hg : c.grammar = g) (hc : c.IsPlain) {n : Nat} {acts : Bool}
include hg hc

/-- What a plain attempt comes to is what it settles on. -/
theorem settles_attemptWithin {i : ExprId} {p : Nat} {skips : Bool} {s s' : State} {step : Step} (hs : s.memo = .off)
    (h : attemptWithin n c i p acts skips s = .ok step s') : g.Settles c.text (c.key i p acts skips) (.ok step) := by
  refine ⟨c.room n, ?_⟩
  rw [← answerOf?_attemptWithin hg hc hs n i p acts skips, h, answerOf?_ok]

theorem leaves_attemptWithin (i : ExprId) (p : Nat) (skips : Bool) :
    Leaves (fun s => s.memo = .off) (fun step => g.Settles c.text (c.key i p acts skips) (.ok step))
      (attemptWithin n c i p acts skips) := fun _ _ _ hs h =>
  ⟨memo_attemptWithin hg hc hs n i p acts skips h, settles_attemptWithin hg hc hs h⟩

/-- **Runs in order go along finds** that settle on their ends, and then on with the rest. -/
theorem runInOrder_replays {finds : List Find} {rest : List ExprId} {loc stop : Nat} {r : Results} {s s' : State}
    {step : Step} (hspans : Spans loc finds stop)
    (hfinds : ∀ f ∈ finds, ∃ r', g.Settles c.text (c.key f.item.run f.place acts true) (.ok (.matched f.stop r')))
    (hs : s.memo = .off)
    (h : runInOrder (attemptWithin n) c acts (finds.map (·.item.run) ++ rest) loc r s = .ok step s') :
    ∃ r₁ s₁, RunsThrough (attemptWithin n) c acts finds r s r₁ s₁ ∧ s₁.memo = .off ∧
      runInOrder (attemptWithin n) c acts rest stop r₁ s₁ = .ok step s' := by
  induction finds generalizing loc r s with
  | nil =>
    obtain rfl : loc = stop := hspans
    exact ⟨r, s, .nil r s, hs, h⟩
  | cons f finds ih =>
    obtain ⟨hplace, hspans⟩ := hspans
    obtain ⟨⟨r', hsettles⟩, hfinds⟩ := List.forall_mem_cons.mp hfinds
    rw [hplace] at hsettles
    rcases runInOrder_cons h with ⟨end', part, s₁, hrun, hrest⟩ | ⟨d, hrun, -⟩
    · -- the run comes to what it settles on
      have heq := Except.ok.inj (hsettles.unique (settles_attemptWithin hg hc hs hrun))
      obtain ⟨rfl, rfl⟩ := Step.matched.inj heq
      obtain ⟨r₂, s₂, hruns, hs₂, hrest⟩ := ih hspans hfinds (memo_attemptWithin hg hc hs n _ loc acts true hrun) hrest
      exact ⟨r₂, s₂, .cons (hplace ▸ hrun) hruns, hs₂, hrest⟩
    · have heq := Except.ok.inj (hsettles.unique (settles_attemptWithin hg hc hs hrun))
      exact absurd heq (by simp)

/-- Runs of optional nodes in order match. -/
theorem runInOrder_optionals {entries : List (EachItem × Nat)} {loc : Nat} {r : Results} {s s' : State} {step : Step}
    (hoptional : ∀ x ∈ entries, ∃ inner default, (g.rule x.1.run).kind = .optional inner default) (hs : s.memo = .off)
    (h : runInOrder (attemptWithin n) c acts (entries.map (·.1.run)) loc r s = .ok step s') : step.isMatch = true := by
  induction entries generalizing loc r s with
  | nil =>
    obtain ⟨rfl, -⟩ := EStateM.Result.ok.inj h
    rfl
  | cons x entries ih =>
    obtain ⟨⟨inner, default, hkind⟩, hoptional⟩ := List.forall_mem_cons.mp hoptional
    rcases runInOrder_cons h with ⟨end', part, s₁, hrun, hrest⟩ | ⟨d, hrun, -⟩
    · exact ih hoptional (memo_attemptWithin hg hc hs n _ loc acts true hrun) hrest
    · exact absurd (Grammar.Settles.isMatch_of_optional hkind (settles_attemptWithin hg hc hs hrun)) Bool.false_ne_true

end Replay

/-- What is absent is an optional child. -/
theorem Discovery.optional_of_mem_absent {c : Context} {children : List ExprId} {d : Discovery} {x : EachItem × Nat}
    (h : x ∈ d.absent c (c.eachItems children)) : ∃ inner default, (c.rule x.1.run).kind = .optional inner default := by
  obtain ⟨hx, hcond⟩ := List.mem_filter.mp h
  rw [Bool.and_eq_true, Bool.and_eq_true, beq_iff_eq] at hcond
  obtain ⟨child, -, hitem⟩ := Context.mem_eachItems.mp hx
  rw [hitem] at hcond ⊢
  rcases EachItem.ofChild_cases child (c.rule child).kind with ⟨-, hrole⟩ | ⟨default, hkind, hrun⟩
  · exact absurd hcond.1.1 hrole
  · exact ⟨_, default, by rw [hrun, hkind]⟩

/-- **The second pass replays the first.** Without memory and with actions that refuse nothing, where optional children
begin as their nodes do: if a discovery has found all that is needed, and the node does not halt, then the node matches.
Each find is run where it was tested and matches up to the same end, one after the other up to where the discovery
ended. From there the absent children that have values run, and the match ends where they lead, which is where the
discovery ended if there are none. -/
theorem each_replays_discovery {g : Grammar} {N : ExprId → Prop} (hN : g.Closed N) (haccepting : g.Accepting N)
    {c : Context} (hg : c.grammar = g) (hc : c.IsPlain) {i : ExprId} (hi : N i) {children : List ExprId}
    (hkind : (c.rule i).kind = .each children) (halike : g.OptionalsBeginAlike c.text c.adjacent children) {n : Nat}
    {start : Nat} {acts : Bool} {s s₁ s' : State} (hs : s.memo = .off) {found : Discovery}
    (hfound : discover (attemptWithin n) c (c.eachItems children) (c.eachFuel children) ⟨start, [], []⟩ s = .ok found s₁)
    (hmissing : found.missing (c.eachItems children) = []) {step : Step}
    (hrun : matchNode (attemptWithin n) c i (c.rule i) start acts s = .ok step s') :
    ∃ finds r₁ s₂ defaults stop r, step = .matched stop r ∧
      found.Notes (fun s => s.memo = .off) (attemptWithin n) c (c.eachItems children) start finds ∧
      RunsThrough (attemptWithin n) c acts finds {} s₁ r₁ s₂ ∧
      defaults.map Find.entry = found.absent c (c.eachItems children) ∧ Spans found.loc defaults stop ∧
      RunsThrough (attemptWithin n) c acts defaults r₁ s₂ r s' ∧
      (found.absent c (c.eachItems children) = [] → stop = found.loc) := by
  have hrule (j : ExprId) : c.rule j = g.rule j := by rw [Context.rule, hg]
  have hnode : matchNode (attemptWithin n) c i (c.rule i) start acts
      = matchEach (attemptWithin n) c children start acts := by simp only [matchNode, hkind]
  have hchildren : ∀ child ∈ children, N child := by
    intro child hchild
    refine hN.child hi ?_
    rw [← hrule, hkind]
    exact hchild
  obtain ⟨hs₁, finds, hnotes⟩ := discover_notes (I := fun s => s.memo = .off)
    (fun x _ p => (leaves_attemptWithin hg hc x.1.test p true).mono fun _ _ => trivial) _ _ hs hfound
  rw [hnode, matchEach_of_complete hfound hmissing, hnotes.order] at hrun
  have hfinds : ∀ f ∈ finds, ∃ r',
      g.Settles c.text (c.key f.item.run f.place acts true) (.ok (.matched f.stop r')) := by
    intro f hf
    obtain ⟨child, hchild, hitem⟩ := Context.mem_eachItems.mp (hnotes.listed f hf)
    have hmem : child ∈ children := List.mem_of_getElem? hchild
    obtain ⟨r, u, u', hu, htest⟩ := hnotes.tested f hf
    have htested := settles_attemptWithin hg hc hu htest
    rw [hrule] at hitem
    rw [hitem] at htested ⊢
    exact EachItem.settles_run hN haccepting halike hmem (hchildren child hmem) htested acts
  obtain ⟨r₁, s₂, hruns, hs₂, hrest⟩ := runInOrder_replays hg hc hnotes.spans hfinds hs₁ hrun
  have hoptional : ∀ x ∈ found.absent c (c.eachItems children), ∃ inner default,
      (g.rule x.1.run).kind = .optional inner default := by
    intro x hx
    rw [← hrule]
    exact Discovery.optional_of_mem_absent hx
  have hmatch := runInOrder_optionals hg hc hoptional hs₂ hrest
  cases step with
  | failed d => exact absurd hmatch Bool.false_ne_true
  | matched stop r =>
    obtain ⟨defaults, hentries, hspans, hthrough⟩ := runInOrder_matched hrest
    refine ⟨finds, r₁, s₂, defaults, stop, r, rfl, hnotes, hruns, hentries, hspans, hthrough, ?_⟩
    intro hnone
    rw [hnone, List.map_eq_nil_iff] at hentries
    subst hentries
    exact Eq.symm hspans

/-! ## A letter and an optional one -/

/-- A letter and an optional one that has a value when it is absent, in any order. -/
def letterOrValue : Grammar :=
  Grammar.ofKinds [.literal "x" false, .literal "a" false, .optional 1 (some (.str "d")), .each [0, 2]] 3

theorem accepting_letterOrValue : letterOrValue.Accepting fun _ => True := by
  intro i child action _ hk
  have hkind : (letterOrValue.rule i).kind ∈ _ := Grammar.kind_ofKinds _ 3 i
  rw [hk] at hkind
  simp at hkind

theorem each_replays_discovery_letterOrValue :
    let c := plainContext letterOrValue ['a', ' ', 'x'] false
    let items := c.eachItems [0, 2]
    let s := State.initial {}
    letterOrValue.OptionalsBeginAlike c.text c.adjacent [0, 2] ∧
    ∃ found s₁ step s', discover (attemptWithin 4) c items (c.eachFuel [0, 2]) ⟨0, [], []⟩ s = .ok found s₁ ∧
      found.missing items = [] ∧ matchNode (attemptWithin 4) c 3 (c.rule 3) 0 true s = .ok step s' ∧
      ∃ finds r₁ s₂ defaults stop r, step = .matched stop r ∧
        found.Notes (fun s => s.memo = .off) (attemptWithin 4) c items 0 finds ∧
        RunsThrough (attemptWithin 4) c true finds {} s₁ r₁ s₂ ∧ defaults.map Find.entry = found.absent c items ∧
        Spans found.loc defaults stop ∧ RunsThrough (attemptWithin 4) c true defaults r₁ s₂ r s' ∧
        (found.absent c items = [] → stop = found.loc) := by
  intro c items s
  have halike : letterOrValue.OptionalsBeginAlike c.text c.adjacent [0, 2] := by
    refine Grammar.optionalsBeginAlike_of_skipsLike ?_ c.text c.adjacent
    intro child hchild inner default hkind
    rcases List.mem_pair.mp hchild with rfl | rfl
    · exact absurd hkind (by simp [letterOrValue, Grammar.rule, Grammar.ofKinds])
    · obtain ⟨rfl, -⟩ := NodeKind.optional.inj hkind
      exact ⟨rfl, rfl⟩
  have hdiscover : (valueOf? (discover (attemptWithin 4) c items (c.eachFuel [0, 2]) ⟨0, [], []⟩ s)).any
      (fun d => (d.missing items).isEmpty) = true := by decide +kernel
  have hmatches : matches? (matchNode (attemptWithin 4) c 3 (c.rule 3) 0 true s) = some true := by decide +kernel
  obtain ⟨found, s₁, hfound, hcomplete⟩ := exists_of_valueOf? hdiscover
  obtain ⟨step, s', hrun, -⟩ := exists_of_matches? hmatches
  have hmissing : found.missing items = [] := List.isEmpty_iff.mp hcomplete
  exact ⟨halike, found, s₁, step, s', hfound, hmissing, hrun,
    each_replays_discovery (Grammar.Closed.all letterOrValue) accepting_letterOrValue (c := c) rfl rfl trivial rfl halike
      rfl hfound hmissing hrun⟩

/-- The same letters, but the optional one is spelled with a blank before it, and skips none. -/
def letterAfterBlank : Grammar :=
  let g := Grammar.ofKinds [.literal "x" false, .literal " a" false, .optional 1 none, .each [0, 2]] 3
  { g with rules := g.rules.modify 1 fun rule => { rule with skipsWhitespace := false } }

/-- A discovery finds all that is needed, and the node at the root matches, but ends elsewhere. -/
def EndsElsewhere (g : Grammar) (t : Text) (children : List ExprId) : Prop :=
  let c := plainContext g t false
  let s := State.initial {}
  (c.rule g.root).kind = .each children ∧
    ∃ found s₁ stop r s', discover (attemptWithin 4) c (c.eachItems children) (c.eachFuel children) ⟨0, [], []⟩ s
        = .ok found s₁ ∧
      found.missing (c.eachItems children) = [] ∧
      matchNode (attemptWithin 4) c g.root (c.rule g.root) 0 true s = .ok (.matched stop r) s' ∧ stop ≠ found.loc

theorem endsElsewhere_of_values {g : Grammar} {t : Text} {children : List ExprId}
    (hkind : (g.rule g.root).kind = .each children) (loc stop : Nat) (hne : stop ≠ loc)
    (hfound : let c := plainContext g t false
      (valueOf? (discover (attemptWithin 4) c (c.eachItems children) (c.eachFuel children) ⟨0, [], []⟩
        (State.initial {}))).any (fun d => (d.missing (c.eachItems children)).isEmpty && d.loc == loc) = true)
    (hrun : let c := plainContext g t false
      (valueOf? (matchNode (attemptWithin 4) c g.root (c.rule g.root) 0 true (State.initial {}))).any
        (fun step => step.isMatch && step.place == stop) = true) : EndsElsewhere g t children := by
  obtain ⟨found, s₁, hdiscover, hcomplete⟩ := exists_of_valueOf? hfound
  obtain ⟨step, s', hmatch, hends⟩ := exists_of_valueOf? hrun
  rw [Bool.and_eq_true, List.isEmpty_iff, beq_iff_eq] at hcomplete
  rw [Bool.and_eq_true, beq_iff_eq] at hends
  cases step with
  | failed d => exact absurd hends.1 Bool.false_ne_true
  | matched stop' r =>
    obtain rfl : stop' = stop := hends.2
    exact ⟨hkind, found, s₁, stop', r, s', hdiscover, hcomplete.1, hmatch, hcomplete.2 ▸ hne⟩

/-- Running an absent child for its value may skip what comes next. An optional child that skips what the node under it
does not may pass over what that node has matched. -/
theorem not_each_replays_discovery :
    EndsElsewhere letterOrValue ['x', ' '] [0, 2] ∧ EndsElsewhere letterAfterBlank ['x', ' ', 'a'] [0, 2] := by
  constructor
  · refine endsElsewhere_of_values rfl 1 2 (by decide) ?_ ?_
    · decide +kernel
    · decide +kernel
  · refine endsElsewhere_of_values rfl 3 2 (by decide) ?_ ?_
    · decide +kernel
    · decide +kernel

end Packrat
