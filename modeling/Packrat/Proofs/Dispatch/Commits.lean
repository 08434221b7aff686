import Packrat.Proofs.Building.Finished
import Packrat.Proofs.Dispatch.Basic

/-!
# `Packrat.Proofs.Dispatch.Commits` — where commit markers stand

Building refuses commit markers as the root and as what other nodes than sequences refer to. Sequences it takes as they
are, with what they ignore, and a sequence passes over the markers among its children only: one that it ignores is matched
like any other ignorable, before the sequence and before everything beneath it. Where no sequence ignores a marker, all
markers are children of sequences, and none is ever matched.

## Contents

* `Builder.IgnoresNoCommit`, `Grammar.CommitsInSequences` — markers in a builder, and in a finished grammar;
* `Builder.commits_of_ok` — what building refuses;
* `commitsInSequences_iff` — **markers are only children of sequences just if no sequence ignores one**;
* `NodeMatcher.inPlaceOf`, `commits_only_in_sequences` — **and then no marker is ever matched**;
* `not_commits_only_in_sequences_ignoredCommit` — a sequence that ignores a marker.
-/

namespace Packrat

/-! ## Markers in builders and grammars -/

/-- No sequence of a builder has a commit marker among its ignorables. -/
def Builder.IgnoresNoCommit (b : Builder) : Prop :=
  ∀ {i : ExprId} {n : Node}, b.nodes[i]? = some n → n.kind.isSequence = true → ∀ j ∈ n.ignores,
    leadsToCommit b.nodes j = false

/-- Commit markers of a grammar are only children of sequences: the root is none, no node ignores one, and what has one
among its children, its target included, is a sequence. -/
structure Grammar.CommitsInSequences (g : Grammar) : Prop where
  root : (g.rule g.root).kind.isCommit = false
  child : ∀ {i j}, i < g.size → j ∈ (g.rule i).kind.children → (g.rule j).kind.isCommit = true →
    (g.rule i).kind.isSequence = true
  ignored : ∀ {i j}, i < g.size → j ∈ (g.rule i).ignores → (g.rule j).kind.isCommit = false

/-! ## What building refuses -/

/-- Building refuses commit markers as the root and as what other nodes than sequences refer to. -/
theorem Builder.commits_of_ok {b : Builder} {root : ExprId} {g : Grammar} (h : b.build root = .ok g) :
    leadsToCommit b.nodes root = false ∧ ∀ {i : ExprId} {n : Node}, b.nodes[i]? = some n →
      n.kind.isSequence = false → ∀ j ∈ n.references, leadsToCommit b.nodes j = false := by
  unfold build at h
  by_cases hroot : b.size ≤ root
  · rw [if_pos hroot] at h
    exact absurd h not_error_bind_eq_ok
  · rw [if_neg hroot] at h
    obtain ⟨_, -, h⟩ := exists_of_bind_eq_ok h
    obtain ⟨_, -, h⟩ := exists_of_bind_eq_ok h
    obtain ⟨_, hcommits, -⟩ := exists_of_bind_eq_ok h
    unfold checkCommits at hcommits
    split at hcommits
    · exact absurd hcommits (by simp)
    · next hcommit =>
      refine ⟨Bool.eq_false_of_not_eq_true hcommit, fun {i n} hn hsequence j hj => ?_⟩
      dsimp only at hcommits
      split at hcommits
      · exact absurd hcommits (by simp)
      · next hnone =>
        have hother : n ∈ b.nodes.toList.filter fun n => !n.kind.isSequence :=
          List.mem_filter.mpr ⟨Array.mem_toList_iff.mpr (Array.mem_of_getElem? hn), by rw [hsequence]; rfl⟩
        exact Bool.eq_false_of_not_eq_true (List.find?_eq_none.mp hnone j (List.mem_flatMap.mpr ⟨n, hother, hj⟩))

namespace Builder.Builds

variable {b : Builder} {root : ExprId} {g : Grammar} (h : b.Builds root g)
include h

/-- A commit marker of the grammar is one of the builder. -/
theorem isCommit_eq {i : ExprId} (hi : i < g.size) : (g.rule i).kind.isCommit = leadsToCommit b.nodes i := by
  obtain ⟨n, hn, hinherits⟩ := h.node hi
  rw [leadsToCommit, kindOf?, hn, hinherits.kind]
  rfl

/-- **Markers are only children of sequences** in a built grammar just if no sequence of its builder ignores one. -/
theorem commitsInSequences_iff (hok : b.build root = .ok g) : g.CommitsInSequences ↔ b.IgnoresNoCommit := by
  obtain ⟨hroot, hothers⟩ := commits_of_ok hok
  have hsize : b.size = g.size := h.size.symm
  constructor
  · intro hg i n hn _ j hj
    have hi : i < g.size := hsize ▸ (Array.getElem?_eq_some_iff.mp hn).1
    have hj' : j < g.size := hsize ▸ h.known hn j (List.mem_append_right _ hj)
    obtain ⟨n', hn', hsub⟩ := keepsIgnorables_passDown b.nodes hn
    rw [← h.isCommit_eq hj']
    exact hg.ignored hi (by rw [h.rule hn']; exact hsub hj)
  · intro hb
    -- who ignores a marker is no sequence, and others are refused
    have hignored {i : ExprId} {n : Node} (hn : b.nodes[i]? = some n) {j : ExprId} (hj : j ∈ n.ignores) :
        leadsToCommit b.nodes j = false := by
      cases hsequence : n.kind.isSequence with
      | true => exact hb hn hsequence j hj
      | false => exact hothers hn hsequence j (List.mem_append_right _ hj)
    refine ⟨?_, ?_, ?_⟩
    · rw [h.root_eq, h.isCommit_eq (hsize ▸ h.root_lt), hroot]
    · intro i j hi hj hcommit
      have hj' : j < g.size := h.references_lt hi (List.mem_append_left _ hj)
      obtain ⟨n, hn, hinherits⟩ := h.node hi
      rw [hinherits.kind] at hj ⊢
      rw [h.isCommit_eq hj'] at hcommit
      by_contra hsequence
      have hfalse := hothers hn (Bool.eq_false_of_not_eq_true hsequence) j (List.mem_append_left _ hj)
      exact absurd (hcommit.symm.trans hfalse) (by simp)
    · intro i j hi hj
      rw [h.isCommit_eq (h.references_lt hi (List.mem_append_right _ hj))]
      obtain ⟨n, hn, hinherits⟩ := h.node hi
      rcases hinherits.ignores j hj with hj | ⟨s, hs, -⟩
      · exact hignored hn hj
      · -- an ignorable that was passed down was one of the node it was passed down from
        cases hm : b.nodes[s]? with
        | none => simp [edgesOf, hm] at hs
        | some m => exact hignored hm (by simpa [edgesOf, hm] using hs)

end Builder.Builds

/-! ## Runs -/

/-- Another way of matching in place of the usual one on some nodes. -/
def NodeMatcher.inPlaceOf (p : Rule → Bool) (instead : NodeMatcher) : NodeMatcher := fun a c i rule start acts =>
  if p rule then instead a c i rule start acts else matchNode a c i rule start acts

/-- Where markers are only children of sequences, whatever is done in place of matching a marker, runs stay what they
are. -/
theorem Grammar.CommitsInSequences.runsBy {g : Grammar} (h : g.CommitsInSequences) (hroot : g.root < g.size)
    (hknown : ∀ {i j}, i < g.size → j ∈ (g.rule i).references → j < g.size) (instead : NodeMatcher) :
    g.RunsBy (.inPlaceOf (fun rule => rule.kind.isCommit) instead) := by
  have hattempts : g.AttemptsWithin fun i => i < g.size ∧ (g.rule i).kind.isCommit = false := by
    refine ⟨?_, fun {i j} hi hj => ⟨hknown hi.1 (List.mem_append_right _ hj), h.ignored hi.1 hj⟩⟩
    rintro i j ⟨hi, -⟩ hj
    cases hsequence : (g.rule i).kind.isSequence with
    | true =>
      -- a sequence attempts what is no marker
      cases hk : (g.rule i).kind with
      | sequence children =>
        rw [hk] at hj
        obtain ⟨hmem, hcommit⟩ := List.mem_filter.mp hj
        have hchild : j ∈ (g.rule i).kind.children := by rwa [hk]
        exact ⟨hknown hi (List.mem_append_left _ hchild), by simpa using hcommit⟩
      | _ => exact absurd hsequence (by simp [hk, NodeKind.isSequence])
    | false =>
      have hchild : j ∈ (g.rule i).kind.children := by
        cases hk : (g.rule i).kind with
        | sequence children => exact absurd hsequence (by simp [hk, NodeKind.isSequence])
        | _ =>
          rw [hk] at hj
          exact hj
      refine ⟨hknown hi (List.mem_append_left _ hchild), ?_⟩
      by_contra hcommit
      exact absurd (h.child hi hchild (Bool.eq_true_of_not_eq_false hcommit)) (by simp [hsequence])
  refine Grammar.runsBy_of_agrees hattempts ⟨hroot, h.root⟩ ?_
  intro a c i start acts _ hi
  rw [NodeMatcher.inPlaceOf, if_neg (by simp [hi.2])]

/-- **Commit markers are only consumed by sequences**, as long as no sequence ignores one. In a grammar that is built,
markers are then only children of sequences, whatever was passed down, and no parse and no scan, in whatever mode, ever
matches one: whatever is done in place of matching a marker, all runs stay what they are. -/
theorem commits_only_in_sequences {b : Builder} {root : ExprId} {g : Grammar} (hok : b.build root = .ok g) :
    (g.CommitsInSequences ↔ b.IgnoresNoCommit) ∧
      (b.IgnoresNoCommit → ∀ instead, g.RunsBy (.inPlaceOf (fun rule => rule.kind.isCommit) instead)) := by
  have hbuilds := Builder.builds_of_ok hok
  have hiff := hbuilds.commitsInSequences_iff hok
  have hroot : g.root < g.size := by
    rw [hbuilds.root_eq, hbuilds.size]
    exact hbuilds.root_lt
  exact ⟨hiff, fun hb => (hiff.mpr hb).runsBy hroot fun hi hj => hbuilds.references_lt hi hj⟩

/-- A letter that is final, before which a mark is skipped. -/
def finalLetter : Builder :=
  .ofCalls [.literal "a" false, .commit, .sequence [0, 1, 0], .literal "#" false, .ignore 2 3]

theorem commits_only_in_sequences_finalLetter :
    ∃ g, finalLetter.build 2 = .ok g ∧ g.CommitsInSequences ∧
      ∀ instead, g.RunsBy (.inPlaceOf (fun rule => rule.kind.isCommit) instead) := by
  have hok : (finalLetter.build 2).isOk = true := by decide +kernel
  have hspares : finalLetter.IgnoresNoCommit := by
    have hall : finalLetter.nodes.toList.all (fun n => !n.kind.isSequence ||
        n.ignores.all fun j => !leadsToCommit finalLetter.nodes j) = true := by decide +kernel
    intro i n hn hsequence j hj
    have h := List.all_eq_true.mp hall n (Array.mem_toList_iff.mpr (Array.mem_of_getElem? hn))
    rw [hsequence, Bool.not_true, Bool.false_or] at h
    simpa using List.all_eq_true.mp h j hj
  cases hbuild : finalLetter.build 2 with
  | error e =>
    rw [hbuild] at hok
    exact absurd hok Bool.false_ne_true
  | ok g =>
    have h := commits_only_in_sequences hbuild
    exact ⟨g, rfl, h.1.mpr hspares, h.2 hspares⟩

/-- A sequence that ignores a commit marker. -/
def ignoredCommit : Builder :=
  .ofCalls [.setDefaultWhitespace ⟨[⟨' ', ' '⟩]⟩, .literal "a" false, .commit, .sequence [0], .ignore 2 1]

/-- The sequence is built, with the marker among the ignorables of itself and of its child, and the marker is matched:
a parse of the letter is not the same when something else is done in its place. -/
theorem not_commits_only_in_sequences_ignoredCommit :
    ignoredCommit.Made ∧ ∃ g, ignoredCommit.build 2 = .ok g ∧ ¬ g.CommitsInSequences ∧
      ¬ ∀ instead, g.RunsBy (.inPlaceOf (fun rule => rule.kind.isCommit) instead) := by
  refine ⟨Builder.made_ofCalls (by decide +kernel), ?_⟩
  have hok : (ignoredCommit.build 2).isOk = true := by decide +kernel
  cases hbuild : ignoredCommit.build 2 with
  | error e =>
    rw [hbuild] at hok
    exact absurd hok Bool.false_ne_true
  | ok g =>
    obtain rfl : (ignoredCommit.build 2).toOption.getD default = g := by rw [hbuild]; rfl
    refine ⟨_, rfl, fun hg => ?_, fun hruns => ?_⟩
    · exact absurd (hg.ignored (i := 2) (j := 1) (by decide +kernel) (by decide +kernel)) (by decide +kernel)
    · -- halting there ends the parse
      have hparse := (hruns fun _ _ _ _ _ _ => MatchM.halt .endless).parse {} default (State.initial {}) ['a'] true
      have houtcome := congrArg (fun x : Parsed × Parser => x.1.outcome.isOk) hparse
      revert houtcome
      decide +kernel

end Packrat
