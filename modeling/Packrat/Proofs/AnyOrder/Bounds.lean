import Packrat.Proofs.AnyOrder.Finds
import Packrat.Proofs.Coupling.Runs
import Packrat.Proofs.Plain.Longest

/-!
# `Packrat.Proofs.AnyOrder.Bounds` — how often each child contributes

Of children in any order, each is taken as an item of its own kind: an unbounded repetition stands for any number of
matches of what it repeats, an optional child for one or none, and any other child for exactly one. Counting the runs of
the second pass by the children they are for, this is what they come to, whatever the order they come in and however
often others come in between. Of the minimum of a repetition it only counts whether it is zero.

## Contents

* `NodeKind.leastTimes`, `NodeKind.mostTimes` — how often a child of a kind is to contribute;
* `Discovery.Notes.count_le_one`, `Discovery.count_add_absent_le_one` — items that occur once;
* `TurnsOf` — the runs of the second pass, by the children they are for;
* `each_counts_children` — **how often each child contributes**, and when the node fails.
-/

namespace Packrat

/-! ## How often a child is to contribute -/

namespace NodeKind

/-- How often a child contributes at least. -/
def leastTimes : NodeKind → Nat
  | .optional _ _ => 0
  | .repetition _ min none none => min
  | _ => 1

/-- How often a child contributes at most. -/
def mostTimes : NodeKind → Option Nat
  | .repetition _ _ none none => none
  | _ => some 1

/-- What is matched each time: what an unbounded repetition repeats, or else the child. -/
def contributor (child : ExprId) : NodeKind → ExprId
  | .repetition inner _ none none => inner
  | _ => child

end NodeKind

namespace EachItem

variable (child : ExprId) (kind : NodeKind)

theorem run_eq_contributor : (ofChild child kind).run = kind.contributor child := by
  cases kind with
  | repetition inner least most stop => cases most <;> cases stop <;> rfl
  | _ => rfl

/-- A child must occur exactly if it is to contribute at all. -/
theorem min_leastTimes : min kind.leastTimes 1 = if (ofChild child kind).isNeeded then 1 else 0 := by
  cases kind with
  | repetition inner least most stop =>
    cases most with
    | some most => rfl
    | none =>
      cases stop with
      | some stop => rfl
      | none =>
        cases least with
        | zero => rfl
        | succ least => exact min_eq_right (Nat.le_add_left 1 least)
  | _ => rfl

/-- A child occurs at most once exactly if it is not to contribute more often. -/
theorem mostTimes_eq : kind.mostTimes = if (ofChild child kind).isSingle then some 1 else none := by
  cases kind with
  | repetition inner least most stop => cases most <;> cases stop <;> rfl
  | _ => rfl

end EachItem

/-! ## Items that occur once -/

theorem Context.numbers_eachItems (c : Context) (children : List ExprId) :
    (c.eachItems children).map (·.2) = List.range' 0 children.length := by
  unfold eachItems
  rw [List.zipIdx_map_snd, List.length_map]

section Counting

variable {I : State → Prop} {a : Attempt} {c : Context} {children : List ExprId} {start : Nat} {d : Discovery}
  {finds : List Find} {item : EachItem} {k : Nat}

/-- There is one item of each number. -/
theorem Context.eachItems_inj {item' : EachItem} (h : (item, k) ∈ c.eachItems children)
    (h' : (item', k) ∈ c.eachItems children) : item = item' := by
  obtain ⟨child, hchild, rfl⟩ := mem_eachItems.mp h
  obtain ⟨child', hchild', rfl⟩ := mem_eachItems.mp h'
  obtain rfl : child = child' := Option.some.inj (hchild.symm.trans hchild')
  rfl

theorem Discovery.Notes.count_seen (h : d.Notes I a c (c.eachItems children) start finds) (k : Nat) :
    d.seen.count k = (finds.map (·.number)).count k := by
  rw [← h.seen, List.count_reverse]

/-- An item that occurs at most once is found at most once. -/
theorem Discovery.Notes.count_le_one (h : d.Notes I a c (c.eachItems children) start finds)
    (hitem : (item, k) ∈ c.eachItems children) (hsingle : item.isSingle = true) : d.seen.count k ≤ 1 := by
  have hfilter : (finds.map (·.number)).count k = ((finds.filter (·.item.isSingle)).map (·.number)).count k := by
    rw [List.count_eq_countP, List.count_eq_countP, List.countP_map, List.countP_map, List.countP_filter]
    refine List.countP_congr fun f hf => ?_
    have hf := h.listed f hf
    simp only [Function.comp_apply, beq_iff_eq, Bool.and_eq_true]
    constructor
    · rintro rfl
      exact ⟨rfl, Context.eachItems_inj hitem hf ▸ hsingle⟩
    · exact And.left
  rw [h.count_seen, hfilter]
  exact List.nodup_iff_count_le_one.mp h.once k

/-- An item that occurs at most once is found or absent at most once. -/
theorem Discovery.Notes.count_add_absent_le_one (h : d.Notes I a c (c.eachItems children) start finds)
    (hitem : (item, k) ∈ c.eachItems children) (hsingle : item.isSingle = true) :
    d.seen.count k + ((d.absent c (c.eachItems children)).map (·.2)).count k ≤ 1 := by
  have hnodup : ((d.absent c (c.eachItems children)).map (·.2)).Nodup := by
    have hsub : ((d.absent c (c.eachItems children)).map (·.2)).Sublist ((c.eachItems children).map (·.2)) :=
      List.filter_sublist.map _
    rw [c.numbers_eachItems] at hsub
    exact hsub.nodup List.nodup_range'
  have habsent := List.nodup_iff_count_le_one.mp hnodup k
  have hfound := h.count_le_one hitem hsingle
  by_cases hmem : k ∈ (d.absent c (c.eachItems children)).map (·.2)
  · -- what is absent has not been found
    obtain ⟨x, hx, rfl⟩ := List.mem_map.mp hmem
    have hzero : d.seen.count x.2 = 0 := List.count_eq_zero_of_not_mem (Discovery.mem_of_mem_absent hx).2
    omega
  · have hzero : ((d.absent c (c.eachItems children)).map (·.2)).count k = 0 := List.count_eq_zero_of_not_mem hmem
    omega

/-! ## The runs of each child -/

/-- Finds of the second pass over children are runs for these, each of what its child contributes. -/
def TurnsOf (c : Context) (children : List ExprId) (turns : List Find) : Prop :=
  ∀ f ∈ turns, ∃ child, children[f.number]? = some child ∧ f.item.run = (c.rule child).kind.contributor child

namespace Discovery.Notes

variable {turns : List Find} (h : d.Notes I a c (c.eachItems children) start finds)
  (hturns : turns.map Find.entry = finds.map Find.entry ++ d.absent c (c.eachItems children))
include h hturns

theorem turnsOf : TurnsOf c children turns := by
  intro f hf
  have hentry : f.entry ∈ c.eachItems children := by
    have hmem := List.mem_map_of_mem (f := Find.entry) hf
    rw [hturns] at hmem
    rcases List.mem_append.mp hmem with hmem | hmem
    · obtain ⟨f', hf', heq⟩ := List.mem_map.mp hmem
      exact heq ▸ h.listed f' hf'
    · exact (Discovery.mem_of_mem_absent hmem).1
  obtain ⟨child, hchild, hitem⟩ := Context.mem_eachItems.mp hentry
  exact ⟨child, hchild, by rw [hitem, EachItem.run_eq_contributor]⟩

/-- What is run for a child are its finds, or its absence. -/
theorem count_turns (k : Nat) : (turns.map (·.number)).count k
    = d.seen.count k + ((d.absent c (c.eachItems children)).map (·.2)).count k := by
  have hnumbers (fs : List Find) : fs.map (·.number) = (fs.map Find.entry).map (·.2) := by
    rw [List.map_map]
    rfl
  rw [hnumbers, hturns, List.map_append, List.count_append, ← hnumbers, h.count_seen]

/-- Where nothing is missing, each child has as many runs as it may have, and one at least if it must have any. -/
theorem bounds (hmissing : d.missing (c.eachItems children) = []) {child : ExprId} (hchild : children[k]? = some child) :
    min (c.rule child).kind.leastTimes 1 ≤ (turns.map (·.number)).count k ∧
      ∀ most ∈ (c.rule child).kind.mostTimes, (turns.map (·.number)).count k ≤ most := by
  have hitem := c.ofChild_mem_eachItems hchild
  rw [h.count_turns hturns, EachItem.min_leastTimes child, EachItem.mostTimes_eq child]
  constructor
  · split
    · next hneeded =>
      have hseen : k ∈ d.seen := by
        by_contra hunseen
        have hmem := Discovery.mem_missing.mpr ⟨hitem, hneeded, hunseen⟩
        rw [hmissing] at hmem
        exact absurd hmem List.not_mem_nil
      exact (List.count_pos_iff.mpr hseen).trans_le (Nat.le_add_right _ _)
    · exact Nat.zero_le _
  · intro most hmost
    split at hmost
    · next hsingle =>
      obtain rfl : 1 = most := Option.some.inj hmost
      exact h.count_add_absent_le_one hitem hsingle
    · exact absurd hmost (by simp)

end Discovery.Notes

/-- A child that must contribute is missing if it is not found. -/
theorem Discovery.mem_missing_of_count_lt {child : ExprId} (hchild : children[k]? = some child)
    (hshort : d.seen.count k < min (c.rule child).kind.leastTimes 1) :
    (EachItem.ofChild child (c.rule child).kind, k) ∈ d.missing (c.eachItems children) := by
  rw [EachItem.min_leastTimes child] at hshort
  split at hshort
  · next hneeded =>
    have hunseen : k ∉ d.seen := List.count_eq_zero.mp (Nat.lt_one_iff.mp hshort)
    exact mem_missing.mpr ⟨c.ofChild_mem_eachItems hchild, hneeded, hunseen⟩
  · exact absurd hshort (Nat.not_lt_zero _)

end Counting

/-- **How often each child contributes.** When children in any order match, they do by runs from the start to the end of
the match, one after the other, of which each child has as many as it may have. It has one at least if it must have any;
of a repetition this is less than its minimum, if that is larger than one. Children that must have a run and were not
found make the node fail where it begins, for want of these. -/
theorem each_counts_children {n : Nat} {c : Context} {i : ExprId} {children : List ExprId}
    (hkind : (c.rule i).kind = .each children) (start : Nat) (acts : Bool) (s : State) :
    (∀ stop r s', matchNode (attemptWithin n) c i (c.rule i) start acts s = .ok (.matched stop r) s' →
      ∃ turns s₁, Spans start turns stop ∧ RunsThrough (attemptWithin n) c acts turns {} s₁ r s' ∧
        TurnsOf c children turns ∧ ∀ k child, children[k]? = some child →
          min (c.rule child).kind.leastTimes 1 ≤ (turns.map (·.number)).count k ∧
            ∀ most ∈ (c.rule child).kind.mostTimes, (turns.map (·.number)).count k ≤ most) ∧
    ∀ found s₁, discover (attemptWithin n) c (c.eachItems children) (c.eachFuel children) ⟨start, [], []⟩ s
        = .ok found s₁ →
      ∀ k child, children[k]? = some child → found.seen.count k < min (c.rule child).kind.leastTimes 1 →
        (EachItem.ofChild child (c.rule child).kind, k) ∈ found.missing (c.eachItems children) ∧
          matchNode (attemptWithin n) c i (c.rule i) start acts s
            = .ok (missingFailure c start (found.missing (c.eachItems children))) s₁ := by
  have hnode : matchNode (attemptWithin n) c i (c.rule i) start acts
      = matchEach (attemptWithin n) c children start acts := by simp only [matchNode, hkind]
  rw [hnode]
  constructor
  · intro stop r s' hmatch
    obtain ⟨found, s₁, hfound, ⟨-, -, hfailed⟩ | ⟨hmissing, hruns⟩⟩ := matchEach_cases hmatch
    · exact absurd hfailed (by simp [missingFailure])
    obtain ⟨-, finds, hnotes⟩ := discover_notes (I := fun _ => True) (fun _ _ _ _ _ _ _ _ => ⟨trivial, trivial⟩) _ _
      trivial hfound
    rw [hnotes.runs_eq] at hruns
    obtain ⟨turns, hturns, hspans, hthrough⟩ := runInOrder_matched hruns
    refine ⟨turns, s₁, hspans, hthrough, hnotes.turnsOf hturns, ?_⟩
    intro k child hchild
    exact hnotes.bounds hturns hmissing hchild
  · intro found s₁ hfound k child hchild hshort
    have hmem := Discovery.mem_missing_of_count_lt hchild hshort
    exact ⟨hmem, matchEach_of_missing hfound (List.ne_nil_of_mem hmem)⟩

/-- A letter, perhaps another one, and a third one at least once, in any order. -/
def threeLetters : Grammar :=
  Grammar.ofKinds [.literal "a" false, .literal "b" false, .optional 1 none, .literal "c" false,
    .repetition 3 1 none none, .each [0, 2, 4]] 5

theorem each_counts_children_threeLetters :
    let c := plainContext threeLetters ['c', 'b', 'c', 'a'] false
    let s := State.initial {}
    (c.rule 5).kind = .each [0, 2, 4] ∧
      ∃ stop r s', matchNode (attemptWithin 5) c 5 (c.rule 5) 0 true s = .ok (.matched stop r) s' ∧
      ∃ turns s₁, Spans 0 turns stop ∧ RunsThrough (attemptWithin 5) c true turns {} s₁ r s' ∧
        TurnsOf c [0, 2, 4] turns ∧ ∀ k child, [0, 2, 4][k]? = some child →
          min (c.rule child).kind.leastTimes 1 ≤ (turns.map (·.number)).count k ∧
            ∀ most ∈ (c.rule child).kind.mostTimes, (turns.map (·.number)).count k ≤ most := by
  intro c s
  have hkind : (c.rule 5).kind = .each [0, 2, 4] := rfl
  have hmatches : matches? (matchNode (attemptWithin 5) c 5 (c.rule 5) 0 true s) = some true := by decide +kernel
  obtain ⟨step, s', hmatch, hstep⟩ := exists_of_matches? hmatches
  cases step with
  | failed d => exact absurd hstep Bool.false_ne_true
  | matched stop r => exact ⟨hkind, stop, r, s', hmatch, (each_counts_children hkind 0 true s).1 stop r s' hmatch⟩

/-- A letter at least twice, as the only child in any order. -/
def twiceInAnyOrder : Grammar := Grammar.ofKinds [.literal "a" false, .repetition 0 2 none none, .each [1]] 2

/-- A repetition that is found less often than it is to occur does not make the node fail. -/
theorem not_each_counts_minimum :
    let c := plainContext twiceInAnyOrder ['a'] false
    let s := State.initial {}
    ∃ found s₁, discover (attemptWithin 3) c (c.eachItems [1]) (c.eachFuel [1]) ⟨0, [], []⟩ s = .ok found s₁ ∧
      found.seen.count 0 < (c.rule 1).kind.leastTimes ∧
      ∃ step s', matchNode (attemptWithin 3) c 2 (c.rule 2) 0 true s = .ok step s' ∧ step.isMatch = true := by
  intro c s
  have hdiscover : (valueOf? (discover (attemptWithin 3) c (c.eachItems [1]) (c.eachFuel [1]) ⟨0, [], []⟩ s)).any
      (fun d => decide (d.seen.count 0 < (c.rule 1).kind.leastTimes)) = true := by decide +kernel
  obtain ⟨found, s₁, hfound, hshort⟩ := exists_of_valueOf? hdiscover
  have hmatches : matches? (matchNode (attemptWithin 3) c 2 (c.rule 2) 0 true s) = some true := by decide +kernel
  exact ⟨found, s₁, hfound, of_decide_eq_true hshort, exists_of_matches? hmatches⟩

end Packrat
