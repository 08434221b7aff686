import Packrat.Proofs.Reading.Whole

/-!
# `Packrat.Proofs.Reading.Wrapped` — a pattern in a group

A pattern is put in a group as text, so it is read there as far as its own text goes, and then the parenthesis that is to
close the group. Two things can come between: the pattern can have a parenthesis that closes the group before its end, and
it can end in a comment, which the parenthesis is then part of.

## Contents

* `ClosesAround` — a parenthesis too many;
* `Wrapped`, `run_wrapped` — **a reading in a group**, next to the same reading without it.
-/

namespace Packrat.Pattern

open Unread

namespace Reading

/-- With another text left. -/
def «at» (σ : Reading) (t : Text) : Reading := { σ with reader := σ.reader.at t }

/-- Some of what is left reads as all of it, with a parenthesis behind it that closes nothing. -/
def ClosesAround (σ : Reading) : Prop :=
  ∃ u v, σ.reader.rest = u ++ ')' :: v ∧ (σ.at u).run.isSome = true ∧ (σ.at (u ++ [')'])).run = none

/-- After a pattern, in the group around it. -/
def after (g : OpenGroup) (e : Expr) (r : Reader) : Reading :=
  ⟨{ r with rest := [], flags := g.flags }, g.earlier, some (g.close e) :: g.items, []⟩

/-! ## Steps -/

theorem run_of_advance? {σ τ : Reading} (h : σ.advance? = some τ) : σ.run = τ.run := by
  rw [run_eq, h]

/-- Nothing but blanks is left: what has been read is the whole pattern, unless a group is open. -/
theorem run_of_skipBlanks {σ : Reading} (h : σ.reader.skipBlanks.rest = []) : σ.run = σ.accepted? := by
  rw [run_eq, advance?, h]

theorem accepted?_of_outer {σ : Reading} (h : σ.outer ≠ []) : σ.accepted? = none := by
  unfold accepted?
  split
  · next heq => exact absurd heq h
  · rfl

theorem accepted?_of_end {σ : Reading} (h : σ.reader.skipBlanks.rest = []) (hout : σ.outer = []) :
    σ.accepted? = some (σ.body, σ.reader.skipBlanks) := by
  rw [accepted?, h, hout]

theorem of_accepted? {σ : Reading} {x : Expr × Reader} (h : σ.accepted? = some x) :
    σ.reader.skipBlanks.rest = [] ∧ σ.outer = [] := by
  unfold accepted? at h
  split at h
  · next hrest hout => exact ⟨hrest, hout⟩
  · exact absurd h (by simp)

/-- A text that ends in an open group is not read. -/
theorem run_of_open {σ : Reading} (h : σ.reader.rest = []) (hout : σ.outer ≠ []) : σ.run = none := by
  rw [run_of_skipBlanks (by rw [skipBlanks_of_nil h, h]), accepted?_of_outer hout]

/-- After the group nothing is left. -/
theorem run_after (g : OpenGroup) (e : Expr) (r : Reader) :
    (after g e r).run = some (toAlternatives (Items.toExpr (some (g.close e) :: g.items)) g.earlier,
      { r with rest := [], flags := g.flags }) := by
  have hskip : (after g e r).reader.skipBlanks = { r with rest := [], flags := g.flags } :=
    skipBlanks_of_nil rfl
  rw [run_of_skipBlanks (congrArg Reader.rest hskip), accepted?_of_end (congrArg Reader.rest hskip) rfl, hskip]
  rfl

theorem advance?_of_unmatched {σ : Reading} {t : Text} (h : σ.reader.skipBlanks.rest = ')' :: t) (hout : σ.outer = []) :
    σ.advance? = none := by
  rw [advance?, h]
  simp only [item?, closed?, hout]

/-- A parenthesis that closes nothing is not read. -/
theorem run_of_unmatched {σ : Reading} {t : Text} (h : σ.reader.skipBlanks.rest = ')' :: t) (hout : σ.outer = []) :
    σ.run = none := by
  rw [run_eq, advance?_of_unmatched h hout]
  simp only [accepted?, h]

/-- What is read without a further group around is read in it too. -/
theorem advance?_under_of_some {σ τ : Reading} (h : σ.advance? = some τ) (groups : List OpenGroup) :
    (σ.under groups).advance? = some (τ.under groups) := by
  rw [advance?_under σ groups, h, Option.map_some]
  refine or_iff_not_imp_left.mpr fun hout hhead => ?_
  obtain ⟨t, ht⟩ := List.head?_eq_some_iff.mp hhead
  rw [advance?_of_unmatched ht (not_not.mp hout)] at h
  exact absurd h (by simp)

/-! ## A parenthesis too many -/

/-- What closes the group after an item does so before it. -/
theorem ClosesAround.of_advance? {σ τ : Reading} (hτ : σ.advance? = some τ) (h : τ.ClosesAround) : σ.ClosesAround := by
  obtain ⟨u, v, hrest, hsome, hnone⟩ := h
  obtain ⟨t, ht⟩ := (readsAt_advance? σ).shrinks τ hτ
  rw [left_reading, left_reading, hrest, ← List.append_assoc] at ht
  have hσ : followedBy (σ.at (t ++ u)) (')' :: v) = σ := by
    simp only [followedBy_reading, Reading.at, Reader.at, ht]
  -- the item leaves the parenthesis and more, so it is the same without them
  obtain ⟨x, hx, hxw⟩ := (readsAt_advance? (σ.at (t ++ u))).of_followedBy (hσ.symm ▸ hτ) (by
    rw [left_reading, hrest, List.length_append, List.length_cons]
    omega)
  have hτx : τ = followedBy x (')' :: v) := by
    have hv := hxw v
    rw [hσ, hτ] at hv
    exact Option.some.inj hv
  have hxu : x.reader.rest = u := by
    rw [hτx] at hrest
    exact List.append_cancel_right hrest
  refine ⟨t ++ u, v, ht.symm, ?_, ?_⟩
  · rw [run_of_advance? hx]
    subst hτx hxu
    exact hsome
  · have hw : σ.at (t ++ u ++ [')']) = followedBy (σ.at (t ++ u)) [')'] := rfl
    rw [hw, run_of_advance? (hxw [])]
    subst hτx hxu
    exact hnone

/-- A parenthesis after blanks closes the group, when no other group is open. -/
theorem closesAround_of_unmatched {σ : Reading} {t : Text} (h : σ.reader.skipBlanks.rest = ')' :: t)
    (hout : σ.outer = []) : σ.ClosesAround := by
  obtain ⟨u, hu⟩ := skipBlanks_suffix σ.reader
  rw [h] at hu
  have hσ : followedBy (σ.reader.at u) (')' :: t) = σ.reader := by
    simp only [followedBy_reader, Reader.at, hu]
  obtain ⟨x, hx, hxw⟩ := (Reader.readsAt_skipBlanks (σ.reader.at u)).of_followedBy (v := t) (y := σ.reader.skipBlanks)
    (by rw [hσ]) (by
      rw [left_reader, h, List.length_cons]
      omega)
  have hnil : x.rest = [] := by
    have hrest := congrArg Reader.rest (Option.some.inj (hxw t))
    rw [hσ, h] at hrest
    exact List.append_cancel_right (show x.rest ++ ')' :: t = [] ++ ')' :: t from hrest.symm)
  have hskip : (σ.at u).reader.skipBlanks.rest = [] := by
    have hsame : (σ.at u).reader.skipBlanks = x := Option.some.inj hx
    rw [hsame, hnil]
  refine ⟨u, t, hu.symm, ?_, ?_⟩
  · rw [run_of_skipBlanks hskip, accepted?_of_end hskip hout]
    rfl
  · have hsame : (σ.at (u ++ [')'])).reader.skipBlanks = followedBy x [')'] := Option.some.inj (hxw [])
    refine run_of_unmatched (t := []) ?_ hout
    rw [hsame, followedBy_reader, Reader.at_rest, hnil]
    rfl

/-! ## The group -/

/-- What becomes of a reading in a group: the group is closed at the end; or the parenthesis is in a comment; or the
reading closes the group; or it fails either way. -/
inductive Wrapped (σ : Reading) (g : OpenGroup) : Prop where
  | closed (e : Expr) (r : Reader) (alone : σ.run = some (e, r)) (unmatched : ∀ v, (followedBy σ (')' :: v)).run = none)
      (inGroup : ((followedBy σ [')']).under [g]).run = (after g e r).run)
  | comment (alone : σ.run.isSome = true) (same : (followedBy σ [')']).run.isSome = true)
      (inGroup : ((followedBy σ [')']).under [g]).run = none)
  | around (alone : σ.run = none) (closes : σ.ClosesAround)
  | fails (alone : σ.run = none) (inGroup : ((followedBy σ [')']).under [g]).run = none)

/-- The parenthesis comes next. -/
theorem wrapped_of_unmatched {σ : Reading} {t : Text} (g : OpenGroup) (hout : σ.outer = [])
    (h : (followedBy σ [')']).reader.skipBlanks.rest = ')' :: t) : Wrapped σ g := by
  rcases (Reader.readsAt_skipBlanks σ.reader).cases with ⟨s, hs, hsw⟩ | hend
  · have hskip : σ.reader.skipBlanks = s := Option.some.inj hs
    have hskipw : (followedBy σ [')']).reader.skipBlanks = followedBy s [')'] := Option.some.inj (hsw [])
    cases hrest : s.rest with
    | nil =>
      -- it is the parenthesis behind the text
      have hnil : σ.reader.skipBlanks.rest = [] := by rw [hskip, hrest]
      have hadvance : ((followedBy σ [')']).under [g]).advance? = some (after g σ.body s) := by
        have hunder : ((followedBy σ [')']).under [g]).reader.skipBlanks = s.at [')'] := by
          refine hskipw.trans ?_
          rw [followedBy_reader, hrest, List.nil_append]
        rw [advance?, hunder]
        simp only [Reader.at_rest, item?, closed?, under, followedBy_reading, hout, List.nil_append]
        rfl
      refine .closed σ.body s ?_ (fun v => ?_) (run_of_advance? hadvance)
      · rw [run_of_skipBlanks hnil, accepted?_of_end hnil hout, hskip]
      · have hsame : (followedBy σ (')' :: v)).reader.skipBlanks = followedBy s (')' :: v) := Option.some.inj (hsw v)
        refine run_of_unmatched (t := v) ?_ hout
        rw [hsame, followedBy_reader, Reader.at_rest, hrest, List.nil_append]
    | cons c s' =>
      -- it is one of the text
      have hunmatched : σ.reader.skipBlanks.rest = ')' :: s' := by
        rw [hskipw, followedBy_reader, Reader.at_rest, hrest, List.cons_append, List.cons_eq_cons] at h
        rw [hskip, hrest, h.1]
      exact .around (run_of_unmatched hunmatched hout) (closesAround_of_unmatched hunmatched hout)
  · have hle := hend.beyond [] (followedBy σ [')']).reader.skipBlanks rfl
    rw [left_reader, h] at hle
    simp at hle

/-- An item comes to the end of the text. -/
theorem wrapped_of_exhausts {σ : Reading} (g : OpenGroup) (hend : Exhausts advance? σ)
    (hhead : σ.outer ≠ [] ∨ (followedBy σ [')']).reader.skipBlanks.rest.head? ≠ some ')') : Wrapped σ g := by
  -- nothing is left behind the item, so the group stays open
  have hgroup : ((followedBy σ [')']).under [g]).run = none := by
    have hadvance := advance?_under (followedBy σ [')']) [g] hhead
    cases h : (followedBy σ [')']).advance? with
    | none =>
      rw [h, Option.map_none] at hadvance
      rw [run_eq, hadvance]
      exact accepted?_of_outer (by simp [under])
    | some τ =>
      rw [h, Option.map_some] at hadvance
      have hle := hend.beyond [] τ h
      rw [run_of_advance? hadvance]
      exact run_of_open (List.length_eq_zero_iff.mp (Nat.le_zero.mp hle)) (by simp [under])
  cases hrun : σ.run with
  | none => exact .fails hrun hgroup
  | some x =>
    refine .comment (by rw [hrun]; rfl) ?_ hgroup
    rw [run_eq] at hrun
    split at hrun
    · next τ hτ =>
      rw [run_of_advance? (hend.same τ hτ), hrun]
      rfl
    · obtain ⟨hskip, hout⟩ := of_accepted? hrun
      -- only blanks are left, and the parenthesis does not come next: it is in a comment
      have hskipw : (followedBy σ [')']).reader.skipBlanks.rest = [] := by
        rcases (Reader.readsAt_skipBlanks σ.reader).cases with ⟨s, hs, hsw⟩ | hblank
        · have hnil : s.rest = [] := Option.some.inj hs ▸ hskip
          have hsame : (followedBy σ [')']).reader.skipBlanks = followedBy s [')'] := Option.some.inj (hsw [])
          rw [hsame, followedBy_reader, Reader.at_rest, hnil] at hhead
          simp [hout] at hhead
        · have hle := hblank.beyond [] (followedBy σ [')']).reader.skipBlanks rfl
          exact List.length_eq_zero_iff.mp (Nat.le_zero.mp hle)
      rw [run_of_skipBlanks hskipw, accepted?_of_end hskipw hout]
      rfl

/-- **A reading in a group**, next to the same reading without it. By induction on how much is left to read. -/
theorem run_wrapped (σ : Reading) (g : OpenGroup) : Wrapped σ g := by
  rcases hcases : (readsAt_advance? σ).cases with ⟨τ, hτ, hτw⟩ | hend
  · have hσ := run_of_advance? hτ
    have hσw (v : Text) := run_of_advance? (hτw v)
    have hgroup := run_of_advance? (advance?_under_of_some (hτw []) [g])
    rcases run_wrapped τ g with ⟨e, r, halone, hnone, hin⟩ | ⟨halone, hsame, hin⟩ | ⟨halone, hcloses⟩ | ⟨halone, hin⟩
    · exact .closed e r (hσ.trans halone) (fun v => (hσw v).trans (hnone v)) (hgroup.trans hin)
    · exact .comment (hσ ▸ halone) (hσw [] ▸ hsame) (hgroup.trans hin)
    · exact .around (hσ.trans halone) (hcloses.of_advance? hτ)
    · exact .fails (hσ.trans halone) (hgroup.trans hin)
  · by_cases hhead : σ.outer ≠ [] ∨ (followedBy σ [')']).reader.skipBlanks.rest.head? ≠ some ')'
    · exact wrapped_of_exhausts g hend hhead
    · push Not at hhead
      obtain ⟨t, ht⟩ := List.head?_eq_some_iff.mp hhead.2
      exact wrapped_of_unmatched g hhead.1 ht
termination_by σ.reader.rest.length
decreasing_by exact advance?_length hτ

end Reading

end Packrat.Pattern
