import Packrat.Proofs.Building.Calls
import Packrat.Proofs.Dispatch.Basic

/-!
# `Packrat.Proofs.Dispatch.Recording` — what names record

Two kinds of nodes record a value under a name: a named node what its child has matched, and an optional whose child is a
named node what stands for the child when it is absent. Here is the matcher with the recording itself left open, told which
named node the value is recorded for. A value that no run records is then one in whose place anything may be done.

The tokens of some nodes are always named as one list. What is recorded for a node that names such a child is a group,
whatever has matched. What stands for an absent child is recorded as it is, a list or not: only for a node that an optional
with a leaf as its default refers to may the value be a leaf.

## Contents

* `ResultsOf.recorded?` — the value that naming results records, if any;
* `Recorder`, `Recorder.matchNode` — ways of recording a value, and matching nodes by one;
* `runsBy_plain` — recording in the usual way gives the usual runs;
* `Grammar.namesList`, `Grammar.leafInPlaceOf` — nodes that name a list, and nodes that a leaf stands for;
* `lists_recorded_as_groups` — **what is recorded for a node that names a list is a group**;
* `not_lists_recorded_as_groups_absentPair` — a leaf that stands for an absent list.
-/

namespace Packrat

/-! ## Recording -/

/-- The value that naming results records: nothing without tokens, a single token as it is unless a list is asked for, and
a group of the tokens otherwise. -/
def ResultsOf.recorded? (asList : Bool) (r : Results) : Option Value :=
  match r.tokens, asList with
  | [], _ => none
  | [only], false => some only
  | tokens, _ => some (.group (.ofTokens tokens))

/-- What is asked for as a list is recorded as a group. -/
theorem ResultsOf.group_of_recorded? {r : Results} {v : Value} (h : r.recorded? true = some v) :
    ∃ group, v = .group group := by
  obtain ⟨tokens, fields, origin⟩ := r
  match tokens with
  | [] => exact absurd h (by simp [recorded?])
  | [_] => exact ⟨_, (Option.some.inj h).symm⟩
  | _ :: _ :: _ => exact ⟨_, (Option.some.inj h).symm⟩

/-- A way of recording a value under a name in results, on behalf of a named node. -/
abbrev Recorder := (node : ExprId) → (name : String) → (accumulates : Bool) → Value → Results → MatchM Results

namespace Recorder

/-- Recording a value at the first token. -/
def plain : Recorder := fun _ name accumulates v r => pure (r.record name accumulates v 0)

variable (R : Recorder)

/-- Names results on behalf of a node. -/
def nameFor (node : ExprId) (name : String) (accumulates asList : Bool) (r : Results) : MatchM Results :=
  match r.recorded? asList with
  | none => pure r
  | some v => R node name accumulates v r

/-- What stands for an absent child: its default, recorded for the child if that is a named node. -/
def absentResults (default : Option Value) (child : ExprId) (kind : NodeKind) : MatchM Results :=
  match default with
  | none => pure {}
  | some v =>
    match kind with
    | .named _ name accumulates => R.nameFor child name accumulates false (ResultsOf.single v)
    | _ => pure (ResultsOf.single v)

/-- Matches a node, recording values in a given way. -/
def matchNode : NodeMatcher := fun attempt c id rule start acts =>
  match rule.kind with
  | .named child name accumulates => do
    match ← attempt c child start acts false with
    | .matched stop r => return .matched stop (← R.nameFor id name accumulates (c.rule child).savesList r)
    | .failed d => return .failed d
  | .optional child default => do
    match ← attempt c child start acts false with
    | .matched stop r => return .matched stop r
    | .failed _ => return .matched start (← R.absentResults default child (c.rule child).kind)
  | _ => Packrat.matchNode attempt c id rule start acts

/-! ## Recording as usual -/

variable {R}

theorem nameFor_eq {node : ExprId} {name : String} {accumulates asList : Bool} {r : Results}
    (h : ∀ v ∈ r.recorded? asList, R node name accumulates v r = plain node name accumulates v r) :
    R.nameFor node name accumulates asList r = pure (r.nameTokens name accumulates asList) := by
  obtain ⟨tokens, fields, origin⟩ := r
  unfold nameFor
  match tokens, asList with
  | [], _ => rfl
  | [_], false => exact h _ rfl
  | [_], true => exact h _ rfl
  | _ :: _ :: _, _ => exact h _ rfl

theorem absentResults_eq {default : Option Value} {child : ExprId} {kind : NodeKind}
    (h : ∀ inner name accumulates v, kind = .named inner name accumulates → default = some v →
      R child name accumulates v (ResultsOf.single v) = plain child name accumulates v (ResultsOf.single v)) :
    R.absentResults default child kind = pure (Packrat.absentResults default kind) := by
  cases default with
  | none => rfl
  | some v =>
    cases kind with
    | named inner name accumulates =>
      have hname : R.nameFor child name accumulates false (ResultsOf.single v)
          = pure ((ResultsOf.single v).nameTokens name accumulates false) := by
        refine nameFor_eq fun v' hv => ?_
        obtain rfl : v = v' := Option.some.inj hv
        exact h inner name accumulates v rfl rfl
      exact hname
    | _ => rfl

/-- A way of recording is the usual one on the values that named nodes of a grammar record. -/
structure PlainOn (R : Recorder) (g : Grammar) : Prop where
  named : ∀ {i child name accumulates v r}, (g.rule i).kind = .named child name accumulates →
    r.recorded? (g.rule child).savesList = some v → R i name accumulates v r = plain i name accumulates v r
  absent : ∀ {j i child name accumulates v}, (g.rule j).kind = .optional i (some v) →
    (g.rule i).kind = .named child name accumulates →
    R i name accumulates v (ResultsOf.single v) = plain i name accumulates v (ResultsOf.single v)

/-- Nodes are then matched as usual. -/
theorem PlainOn.agrees {g : Grammar} (h : R.PlainOn g) : R.matchNode.Agrees g fun _ => True := by
  intro a c i start acts hg _
  have hrule (j : ExprId) : c.rule j = g.rule j := by rw [Context.rule, hg]
  unfold matchNode
  split
  · next child name accumulates hk =>
    have hname (r : Results) : R.nameFor i name accumulates (c.rule child).savesList r
        = pure (r.nameTokens name accumulates (c.rule child).savesList) :=
      nameFor_eq fun v hv => h.named hk (hrule child ▸ hv)
    simp only [Packrat.matchNode, hk, hname]
    congr 1
    funext step
    cases step with
    | matched stop r => rfl
    | failed d => rfl
  · next child default hk =>
    have habsent : R.absentResults default child (c.rule child).kind
        = pure (Packrat.absentResults default (c.rule child).kind) :=
      absentResults_eq fun inner name accumulates v hkind hdefault =>
        h.absent (hdefault ▸ hk) (hrule child ▸ hkind)
    simp only [Packrat.matchNode, hk, habsent]
    rfl
  · rfl

/-- Runs are then as usual. -/
theorem PlainOn.runsBy {g : Grammar} (h : R.PlainOn g) : g.RunsBy R.matchNode :=
  g.runsBy_of_agrees (.all g) trivial h.agrees

/-- **Recording in the usual way gives the usual runs.** -/
theorem runsBy_plain (g : Grammar) : g.RunsBy plain.matchNode :=
  PlainOn.runsBy ⟨fun _ _ => rfl, fun _ _ => rfl⟩

end Recorder

/-! ## Nodes that name a list -/

/-- Whether a node names a child whose tokens are named as one list. -/
def Grammar.namesList (g : Grammar) (i : ExprId) : Bool :=
  match (g.rule i).kind with
  | .named child _ _ => (g.rule child).savesList
  | _ => false

/-- Whether an optional puts a leaf in place of a node. -/
def Grammar.leafInPlaceOf (g : Grammar) (i : ExprId) : Bool :=
  g.rules.any fun rule =>
    match rule.kind with
    | .optional child (some (.leaf _)) => child == i
    | _ => false

theorem Grammar.leafInPlaceOf_of_optional {g : Grammar} {i j : ExprId} {leaf : Leaf}
    (h : (g.rule j).kind = .optional i (some (.leaf leaf))) : g.leafInPlaceOf i = true := by
  unfold rule at h
  cases hj : g.rules[j]? with
  | none =>
    rw [hj] at h
    exact NodeKind.noConfusion h
  | some rule =>
    rw [hj, Option.getD_some] at h
    exact Array.any_eq_true'.mpr ⟨rule, Array.mem_of_getElem? hj, by rw [h]; exact beq_self_eq_true i⟩

/-- A way of recording is the usual one but for leaves that are recorded for nodes of a set. -/
def Recorder.PlainButForLeaves (R : Recorder) (nodes : ExprId → Bool) : Prop :=
  ∀ i name accumulates v r, (nodes i = true → ∃ group, v = .group group) →
    R i name accumulates v r = Recorder.plain i name accumulates v r

/-- **What is recorded for a node that names a list is a group**, unless an optional puts a leaf in place of the node
itself. No parse and no scan, in whatever mode, ever records a leaf for such a node, whatever its child has matched or
what stands for it when it is absent: whatever is done in place of that, all runs stay what they are. -/
theorem lists_recorded_as_groups {g : Grammar} {R : Recorder}
    (hR : R.PlainButForLeaves fun i => g.namesList i && !g.leafInPlaceOf i) : g.RunsBy R.matchNode := by
  refine Recorder.PlainOn.runsBy ⟨?_, ?_⟩
  · intro i child name accumulates v r hk hv
    refine hR i name accumulates v r fun hi => ?_
    have hlist : (g.rule child).savesList = true := by
      have hnames := (Bool.and_eq_true_iff.mp hi).1
      rwa [Grammar.namesList, hk] at hnames
    exact ResultsOf.group_of_recorded? (hlist ▸ hv)
  · intro j i child name accumulates v hk _
    refine hR i name accumulates v _ fun hi => ?_
    cases v with
    | leaf l =>
      have hnone := (Bool.and_eq_true_iff.mp hi).2
      rw [Grammar.leafInPlaceOf_of_optional hk] at hnone
      exact absurd hnone Bool.false_ne_true
    | group group => exact ⟨group, rfl⟩

/-- Recording that ends the run where a leaf is recorded for one of some nodes. -/
def Recorder.refusingLeaves (nodes : ExprId → Bool) : Recorder := fun i name accumulates v r =>
  match v with
  | .group _ => plain i name accumulates v r
  | .leaf _ => if nodes i then MatchM.halt .endless else plain i name accumulates v r

theorem Recorder.refusingLeaves_plain (nodes : ExprId → Bool) : (refusingLeaves nodes).PlainButForLeaves nodes := by
  intro i name accumulates v r hv
  cases v with
  | group group => rfl
  | leaf l =>
    refine if_neg fun hp => ?_
    obtain ⟨group, hgroup⟩ := hv hp
    exact Value.noConfusion hgroup

/-- A pair of letters that may be absent, named when it is there, or a single letter, named too. -/
def maybePair : Builder :=
  .ofCalls [.literal "a" false, .literal "b" false, .sequence [0, 1], .orderedChoice [2, 1], .named 3 "pair",
    .optional 4 none]

/-- The pair or the letter is named as a list, and runs that end where a leaf is recorded for it are the usual ones. -/
theorem lists_recorded_as_groups_maybePair :
    ∃ g, maybePair.build 5 = .ok g ∧ g.namesList 4 = true ∧ g.leafInPlaceOf 4 = false ∧
      g.RunsBy (Recorder.refusingLeaves fun i => g.namesList i && !g.leafInPlaceOf i).matchNode := by
  have hok : (maybePair.build 5).isOk = true := by decide +kernel
  cases hbuild : maybePair.build 5 with
  | error e =>
    rw [hbuild] at hok
    exact absurd hok Bool.false_ne_true
  | ok g =>
    obtain rfl : (maybePair.build 5).toOption.getD default = g := by rw [hbuild]; rfl
    exact ⟨_, rfl, by decide +kernel, by decide +kernel, lists_recorded_as_groups (Recorder.refusingLeaves_plain _)⟩

/-- A pair of letters that is named, with a single letter that stands for it when it is absent. -/
def absentPair : Builder :=
  .ofCalls [.setDefaultWhitespace ⟨[⟨' ', ' '⟩]⟩, .literal "a" false, .literal "b" false, .sequence [0, 1],
    .named 2 "n", .optional 3 (some (.str "d"))]

/-- The pair is named as a list, and what stands for it is recorded as it is: a parse of the empty text has the letter
under the name, and is not the same when something else is done in place of recording leaves for the pair. -/
theorem not_lists_recorded_as_groups_absentPair :
    absentPair.Made ∧ ∃ g, absentPair.build 4 = .ok g ∧ g.namesList 3 = true ∧
      ((Parser.parse ⟨g, {}, default, State.initial {}⟩ [] true).1.outcome.toOption.any
        fun r => (r.get? "n").bind Value.str? == some "d") = true ∧
      ¬ ∀ R : Recorder, R.PlainButForLeaves g.namesList → g.RunsBy R.matchNode := by
  refine ⟨Builder.made_ofCalls (by decide +kernel), ?_⟩
  have hok : (absentPair.build 4).isOk = true := by decide +kernel
  cases hbuild : absentPair.build 4 with
  | error e =>
    rw [hbuild] at hok
    exact absurd hok Bool.false_ne_true
  | ok g =>
    obtain rfl : (absentPair.build 4).toOption.getD default = g := by rw [hbuild]; rfl
    refine ⟨_, rfl, by decide +kernel, by decide +kernel, fun hruns => ?_⟩
    have hparse := (hruns _ (Recorder.refusingLeaves_plain _)).parse {} default (State.initial {}) [] true
    have houtcome := congrArg (fun x : Parsed × Parser => x.1.outcome.isOk) hparse
    revert houtcome
    decide +kernel

end Packrat
