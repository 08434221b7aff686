import Mathlib.Tactic
import Packrat.Matching.Attempt
import Packrat.Proofs.Plain.Yields

/-!
# `Packrat.Proofs.AnyOrder.Finds` — the two passes over children in any order

The first pass tests items and notes those that match, round after round; the second one runs what was noted. Here it is
said once what either pass can do. What the first pass finds makes up a way through the text, one find after the other,
and the second one, if it matches, goes along such a way.

## Contents

* `Leaves`, `MayGive` — values of computations between states with a property;
* `Round`, `Discovers` — **what one round can do**, and the rounds of a discovery;
* `Find`, `Spans` — finds, and the ways that they make up;
* `Discovery.Notes` — what a discovery has noted;
* `Discovers.exhausted` — where a discovery ends;
* `RunsThrough`, `runInOrder_matched` — what runs in order can do;
* `matchEach_cases` — the two passes, one after the other.
-/

namespace Packrat

/-! ## Values between states -/

/-- From a state with a property, a computation that gives a value leaves such a state, and its value has a property
as well. -/
def Leaves {α : Type} (I : State → Prop) (P : α → Prop) (m : MatchM α) : Prop :=
  ∀ ⦃s a s'⦄, I s → m s = .ok a s' → I s' ∧ P a

/-- From some state with a property, a computation gives a value. -/
def MayGive {α : Type} (I : State → Prop) (m : MatchM α) (a : α) : Prop := ∃ s s', I s ∧ m s = .ok a s'

namespace Leaves

variable {α β : Type} {I : State → Prop} {P P' : α → Prop} {Q : β → Prop} {m : MatchM α}

protected theorem pure {a : α} (h : P a) : Leaves I P (pure a : MatchM α) := by
  intro s b s' hs hrun
  obtain ⟨rfl, rfl⟩ := EStateM.Result.ok.inj hrun
  exact ⟨hs, h⟩

protected theorem bind {f : α → MatchM β} (hm : Leaves I P m) (hf : ∀ a, P a → Leaves I Q (f a)) :
    Leaves I Q (m >>= f) := by
  intro s b s' hs hrun
  cases hfirst : m s with
  | ok a u =>
    rw [bind_ok hfirst] at hrun
    obtain ⟨hu, ha⟩ := hm hs hfirst
    exact hf a ha hu hrun
  | error e u =>
    rw [bind_error hfirst] at hrun
    exact absurd hrun (by simp)

theorem mono (hm : Leaves I P m) (h : ∀ a, P a → P' a) : Leaves I P' m := fun _ a _ hs hrun =>
  ⟨(hm hs hrun).1, h a (hm hs hrun).2⟩

/-- The value is one that the computation gives. -/
theorem mayGive (hm : Leaves I P m) : Leaves I (MayGive I m) m := fun s _ s' hs hrun => ⟨(hm hs hrun).1, s, s', hs, hrun⟩

end Leaves

section Yields

variable {α : Type} {I : State → Prop} {m : MatchM α} {a b : α}

/-- A computation that comes to a value gives no other. -/
theorem Yields.leaves (h : Yields I m a) : Leaves I (· = a) m := by
  intro s b s' hs hrun
  obtain ⟨s'', hrun', hs''⟩ := h s hs
  obtain ⟨rfl, rfl⟩ := EStateM.Result.ok.inj (hrun'.symm.trans hrun)
  exact ⟨hs'', rfl⟩

theorem Yields.eq_of_mayGive (h : Yields I m a) (h' : MayGive I m b) : b = a := by
  obtain ⟨s, s', hs, hrun⟩ := h'
  exact (h.leaves hs hrun).2

end Yields

/-! ## The first pass -/

namespace EachItem

/-- Whether an item is passed over without a test, as it has occurred and occurs at most once. -/
def isOver (item : EachItem) (i : Nat) (d : Discovery) : Bool := item.isSingle && d.seen.contains i

/-- Whether the outcome of a test at a position counts as an occurrence. -/
def occurs (item : EachItem) (loc : Nat) : Step → Bool
  | .matched stop _ => item.isSingle || decide (loc < stop)
  | .failed _ => false

end EachItem

/-- A discovery with an occurrence noted. -/
def Discovery.note (d : Discovery) (item : EachItem) (i stop : Nat) : Discovery :=
  ⟨stop, item.run :: d.order, i :: d.seen⟩

section Passes

variable (I : State → Prop) (a : Attempt) (c : Context)

/-- **What one round can do.** It goes through its items in order. Each one is over, or its test does not count, or its
occurrence is noted and passed over. The flags say whether anything has been noted before and after. -/
inductive Round : List (EachItem × Nat) → Discovery → Bool → Discovery → Bool → Prop
  | nil (d : Discovery) (progressed : Bool) : Round [] d progressed d progressed
  | passed {item : EachItem} {i : Nat} {items : List (EachItem × Nat)} {d d' : Discovery} {b b' : Bool}
    (hover : item.isOver i d = true) (hrest : Round items d b d' b') : Round ((item, i) :: items) d b d' b'
  | missed {item : EachItem} {i : Nat} {items : List (EachItem × Nat)} {d d' : Discovery} {b b' : Bool} {step : Step}
    (htest : MayGive I (a c item.test d.loc false true) step) (hmissed : item.occurs d.loc step = false)
    (hrest : Round items d b d' b') : Round ((item, i) :: items) d b d' b'
  | found {item : EachItem} {i : Nat} {items : List (EachItem × Nat)} {d d' : Discovery} {b b' : Bool} {stop : Nat}
    {r : Results} (hnew : item.isOver i d = false) (htest : MayGive I (a c item.test d.loc false true) (.matched stop r))
    (hfound : item.occurs d.loc (.matched stop r) = true) (hrest : Round items (d.note item i stop) true d' b') :
    Round ((item, i) :: items) d b d' b'

/-- The rounds of a discovery, of which there are only so many. -/
inductive Discovers (items : List (EachItem × Nat)) : Nat → Discovery → Discovery → Prop
  | spent (d : Discovery) : Discovers items 0 d d
  | done {fuel : Nat} {d d' : Discovery} (hround : Round I a c items d false d' false) : Discovers items (fuel + 1) d d'
  | again {fuel : Nat} {d d₁ d' : Discovery} (hround : Round I a c items d false d₁ true)
    (hrest : Discovers items fuel d₁ d') : Discovers items (fuel + 1) d d'

variable {I a c}

theorem discoverRound_round {items : List (EachItem × Nat)}
    (ha : ∀ x ∈ items, ∀ p, Leaves I (fun _ => True) (a c x.1.test p false true)) (d : Discovery) (progressed : Bool) :
    Leaves I (fun x => Round I a c items d progressed x.1 x.2) (discoverRound a c items d progressed) := by
  induction items generalizing d progressed with
  | nil => exact Leaves.pure (.nil d progressed)
  | cons x items ih =>
    obtain ⟨item, i⟩ := x
    obtain ⟨hitem, hitems⟩ := List.forall_mem_cons.mp ha
    have ih := ih hitems
    rw [discoverRound]
    by_cases hover : item.isOver i d = true
    · have hseen : (item.isSingle && d.seen.contains i) = true := hover
      simp only [hseen, if_true]
      exact (ih d progressed).mono fun x hx => .passed hover hx
    · have hseen : ¬ (item.isSingle && d.seen.contains i) = true := hover
      simp only [hseen]
      refine (hitem d.loc).mayGive.bind fun step hstep => ?_
      cases step with
      | failed e => exact (ih d progressed).mono fun x hx => .missed hstep rfl hx
      | matched stop r =>
        by_cases hcounts : (item.isSingle || decide (d.loc < stop)) = true
        · simp only [hcounts, if_true]
          exact (ih _ true).mono fun x hx => .found (Bool.eq_false_iff.mpr hover) hstep hcounts hx
        · simp only [hcounts]
          exact (ih d progressed).mono fun x hx => .missed hstep (Bool.eq_false_iff.mpr hcounts) hx

theorem discover_discovers {items : List (EachItem × Nat)}
    (ha : ∀ x ∈ items, ∀ p, Leaves I (fun _ => True) (a c x.1.test p false true)) (fuel : Nat) (d : Discovery) :
    Leaves I (Discovers I a c items fuel d) (discover a c items fuel d) := by
  induction fuel generalizing d with
  | zero => exact Leaves.pure (.spent d)
  | succ fuel ih =>
    rw [discover]
    refine (discoverRound_round ha d false).bind ?_
    rintro ⟨d', progressed⟩ hround
    cases progressed with
    | false => exact Leaves.pure (.done hround)
    | true => exact (ih d').mono fun d'' hrest => .again hround hrest

theorem discoverRound_yields {items : List (EachItem × Nat)}
    (ha : ∀ x ∈ items, ∀ p, ∃ step, Yields I (a c x.1.test p false true) step) (d : Discovery) (progressed : Bool) :
    ∃ x, Yields I (discoverRound a c items d progressed) x := by
  induction items generalizing d progressed with
  | nil => exact ⟨_, Yields.pure _⟩
  | cons x items ih =>
    obtain ⟨item, i⟩ := x
    obtain ⟨hitem, hitems⟩ := List.forall_mem_cons.mp ha
    have ih := ih hitems
    rw [discoverRound]
    split
    · exact ih d progressed
    · obtain ⟨step, hstep⟩ := hitem d.loc
      cases step with
      | failed e =>
        obtain ⟨x, hx⟩ := ih d progressed
        exact ⟨x, hstep.bind hx⟩
      | matched stop r =>
        obtain ⟨x, hx⟩ : ∃ x, Yields I
            (if item.isSingle || d.loc < stop then discoverRound a c items ⟨stop, item.run :: d.order, i :: d.seen⟩ true
              else discoverRound a c items d progressed) x := by
          split
          · exact ih _ true
          · exact ih d progressed
        exact ⟨x, hstep.bind hx⟩

/-- A discovery comes to an end if its tests do. -/
theorem discover_yields {items : List (EachItem × Nat)}
    (ha : ∀ x ∈ items, ∀ p, ∃ step, Yields I (a c x.1.test p false true) step) (fuel : Nat) (d : Discovery) :
    ∃ found, Yields I (discover a c items fuel d) found := by
  induction fuel generalizing d with
  | zero => exact ⟨d, Yields.pure d⟩
  | succ fuel ih =>
    obtain ⟨⟨d', progressed⟩, hround⟩ := discoverRound_yields ha d false
    rw [discover]
    cases progressed with
    | false => exact ⟨d', hround.bind (Yields.pure d')⟩
    | true =>
      obtain ⟨found, hfound⟩ := ih d'
      exact ⟨found, hround.bind hfound⟩

end Passes

/-! ## Finds -/

/-- An occurrence of an item: which item it is, where it is attempted, and where its match ends. -/
structure Find where
  item : EachItem
  number : Nat
  place : Nat
  stop : Nat

namespace Find

/-- The item of a find, with its number. -/
def entry (f : Find) : EachItem × Nat := (f.item, f.number)

end Find

/-- Finds one after the other lead from one position to another: each is attempted where the one before ends. -/
def Spans (start : Nat) : List Find → Nat → Prop
  | [], stop => start = stop
  | f :: finds, stop => f.place = start ∧ Spans f.stop finds stop

theorem spans_append {finds finds' : List Find} {start stop : Nat} :
    Spans start (finds ++ finds') stop ↔ ∃ loc, Spans start finds loc ∧ Spans loc finds' stop := by
  induction finds generalizing start with
  | nil => simp [Spans]
  | cons f finds ih => simp [Spans, ih, and_assoc]

/-- What a discovery has noted: its finds make up a way to its position, in the order in which they are to be run. Each
is an item whose test matches there, and an item that occurs once is found once. -/
structure Discovery.Notes (I : State → Prop) (a : Attempt) (c : Context) (items : List (EachItem × Nat)) (start : Nat)
    (d : Discovery) (finds : List Find) : Prop where
  order : d.order.reverse = finds.map (·.item.run)
  seen : d.seen.reverse = finds.map (·.number)
  spans : Spans start finds d.loc
  listed : ∀ f ∈ finds, f.entry ∈ items
  tested : ∀ f ∈ finds, ∃ r, MayGive I (a c f.item.test f.place false true) (.matched f.stop r)
  once : ((finds.filter (·.item.isSingle)).map (·.number)).Nodup

namespace Discovery.Notes

variable {I : State → Prop} {a : Attempt} {c : Context} {items : List (EachItem × Nat)} {start : Nat}
  {d d' : Discovery} {finds : List Find}

theorem initial (start : Nat) : Notes I a c items start ⟨start, [], []⟩ [] where
  order := rfl
  seen := rfl
  spans := rfl
  listed := by simp
  tested := by simp
  once := List.nodup_nil

theorem mem_seen (h : Notes I a c items start d finds) {i : Nat} : i ∈ d.seen ↔ ∃ f ∈ finds, f.number = i := by
  rw [← List.mem_reverse, h.seen, List.mem_map]

/-- Noting an occurrence adds a find. -/
theorem note (h : Notes I a c items start d finds) {item : EachItem} {i stop : Nat} {r : Results}
    (hitem : (item, i) ∈ items) (hnew : item.isOver i d = false)
    (htest : MayGive I (a c item.test d.loc false true) (.matched stop r)) :
    Notes I a c items start (d.note item i stop) (finds ++ [⟨item, i, d.loc, stop⟩]) where
  order := by
    show (item.run :: d.order).reverse = _
    rw [List.reverse_cons, h.order, List.map_append]
    rfl
  seen := by
    show (i :: d.seen).reverse = _
    rw [List.reverse_cons, h.seen, List.map_append]
    rfl
  spans := spans_append.mpr ⟨d.loc, h.spans, rfl, rfl⟩
  listed := by
    intro f hf
    rcases List.mem_append.mp hf with hf | hf
    · exact h.listed f hf
    · rw [List.mem_singleton.mp hf]
      exact hitem
  tested := by
    intro f hf
    rcases List.mem_append.mp hf with hf | hf
    · exact h.tested f hf
    · rw [List.mem_singleton.mp hf]
      exact ⟨r, htest⟩
  once := by
    rw [List.filter_append, List.map_append]
    cases hsingle : item.isSingle with
    | false =>
      rw [List.filter_cons_of_neg (by simp [hsingle]), List.filter_nil, List.map_nil, List.append_nil]
      exact h.once
    | true =>
      -- an item that occurs once is tested only if it has not been found
      have hunseen : i ∉ d.seen := by simpa [EachItem.isOver, hsingle] using hnew
      rw [List.filter_cons_of_pos (p := fun f : Find => f.item.isSingle) hsingle, List.filter_nil, List.map_cons,
        List.map_nil]
      refine List.Nodup.append h.once (List.nodup_singleton i) ?_
      intro j hj hji
      obtain ⟨f, hf, rfl⟩ := List.mem_map.mp hj
      exact hunseen (h.mem_seen.mpr ⟨f, List.mem_of_mem_filter hf, List.mem_singleton.mp hji⟩)

/-- What is to be run, and then further items, by what was found. -/
theorem runs_eq (h : Notes I a c items start d finds) (xs : List (EachItem × Nat)) :
    d.order.reverse ++ xs.map (·.1.run) = (finds.map Find.entry ++ xs).map (·.1.run) := by
  rw [h.order, List.map_append, List.map_map]
  rfl

/-- A round keeps notes. -/
theorem round {xs : List (EachItem × Nat)} {b b' : Bool} (hround : Round I a c xs d b d' b') (hxs : xs ⊆ items)
    (h : Notes I a c items start d finds) : ∃ finds', Notes I a c items start d' finds' := by
  induction hround generalizing finds with
  | nil d b => exact ⟨finds, h⟩
  | passed hover _ ih => exact ih (List.subset_of_cons_subset hxs) h
  | missed htest hmissed _ ih => exact ih (List.subset_of_cons_subset hxs) h
  | found hnew htest hfound _ ih =>
    exact ih (List.subset_of_cons_subset hxs) (h.note (hxs List.mem_cons_self) hnew htest)

/-- A discovery keeps notes. -/
theorem discovers {fuel : Nat} (hrounds : Discovers I a c items fuel d d') (h : Notes I a c items start d finds) :
    ∃ finds', Notes I a c items start d' finds' := by
  induction hrounds generalizing finds with
  | spent d => exact ⟨finds, h⟩
  | done hround => exact round hround (List.Subset.refl items) h
  | again hround _ ih =>
    obtain ⟨finds', h'⟩ := round hround (List.Subset.refl items) h
    exact ih h'

end Discovery.Notes

/-- **What a discovery comes to** has been noted. -/
theorem discover_notes {I : State → Prop} {a : Attempt} {c : Context} {items : List (EachItem × Nat)}
    (ha : ∀ x ∈ items, ∀ p, Leaves I (fun _ => True) (a c x.1.test p false true)) (fuel start : Nat) :
    Leaves I (fun d => ∃ finds, d.Notes I a c items start finds) (discover a c items fuel ⟨start, [], []⟩) :=
  (discover_discovers ha fuel _).mono fun _ hrounds => Discovery.Notes.discovers hrounds (.initial start)

/-! ## Where a discovery ends -/

/-- How much can still be found: the items that occur once and have not, and the text that is left. -/
def Discovery.left (items : List (EachItem × Nat)) (size : Nat) (d : Discovery) : Nat :=
  (items.filter fun x => x.1.isSingle && !d.seen.contains x.2).length + (size - d.loc)

/-- Less is left when an item has been found that occurs once, or some text has been consumed. -/
theorem Discovery.left_note_lt {items : List (EachItem × Nat)} {size : Nat} {d : Discovery} {item : EachItem}
    {i stop : Nat} (hitem : (item, i) ∈ items) (hle : d.loc ≤ stop) (hsize : stop ≤ size)
    (hnew : d.loc < stop ∨ item.isSingle = true ∧ d.seen.contains i = false) :
    (d.note item i stop).left items size < d.left items size := by
  have hsub : (items.filter fun x => x.1.isSingle && !(i :: d.seen).contains x.2).Sublist
      (items.filter fun x => x.1.isSingle && !d.seen.contains x.2) := by
    refine List.monotone_filter_right _ fun x hx => ?_
    simp only [List.contains_cons, Bool.and_eq_true, Bool.not_eq_true', Bool.or_eq_false_iff] at hx ⊢
    exact ⟨hx.1, hx.2.2⟩
  rcases hnew with hlt | ⟨hsingle, hunseen⟩
  · exact Nat.add_lt_add_of_le_of_lt hsub.length_le (show size - stop < size - d.loc by omega)
  · refine Nat.add_lt_add_of_lt_of_le (lt_of_le_of_ne hsub.length_le fun heq => ?_) (Nat.sub_le_sub_left hle _)
    -- the item is not among those that are left
    have hmem : (item, i) ∈ items.filter fun x => x.1.isSingle && !d.seen.contains x.2 :=
      List.mem_filter.mpr ⟨hitem, (Bool.and_eq_true _ _).mpr ⟨hsingle, congrArg (!·) hunseen⟩⟩
    rw [← hsub.eq_of_length heq] at hmem
    exact absurd (List.mem_filter.mp hmem).2 (by simp)

section Ends

variable (I : State → Prop) (a : Attempt) (c : Context)

/-- Tests of items that match end after they begin, and in the text. -/
def TestsEndIn (items : List (EachItem × Nat)) (size : Nat) : Prop :=
  ∀ x ∈ items, ∀ loc ≤ size, ∀ stop r,
    MayGive I (a c x.1.test loc false true) (.matched stop r) → loc ≤ stop ∧ stop ≤ size

/-- Nothing is left to be found: each item is over, or its test does not count. -/
def Exhausted (items : List (EachItem × Nat)) (d : Discovery) : Prop :=
  ∀ x ∈ items, x.1.isOver x.2 d = true ∨
    ∃ step, MayGive I (a c x.1.test d.loc false true) step ∧ x.1.occurs d.loc step = false

variable {I a c} {items xs : List (EachItem × Nat)} {size : Nat} {d d' : Discovery} {b b' : Bool}

/-- A round that notes nothing has nothing to find. -/
theorem Round.exhausted (h : Round I a c xs d b d' b') (hb : b' = false) : d' = d ∧ b = false ∧ Exhausted I a c xs d := by
  induction h with
  | nil d b => exact ⟨rfl, hb, by simp [Exhausted]⟩
  | passed hover _ ih =>
    obtain ⟨rfl, rfl, hrest⟩ := ih hb
    exact ⟨rfl, rfl, List.forall_mem_cons.mpr ⟨Or.inl hover, hrest⟩⟩
  | missed htest hmissed _ ih =>
    obtain ⟨rfl, rfl, hrest⟩ := ih hb
    exact ⟨rfl, rfl, List.forall_mem_cons.mpr ⟨Or.inr ⟨_, htest, hmissed⟩, hrest⟩⟩
  | found _ _ _ _ ih => exact absurd (ih hb).2.1.symm Bool.false_ne_true

/-- A round that notes something leaves less to be found. -/
theorem Round.left_le (h : Round I a c xs d b d' b') (hxs : xs ⊆ items) (hends : TestsEndIn I a c items size)
    (hloc : d.loc ≤ size) :
    d'.loc ≤ size ∧ d'.left items size ≤ d.left items size ∧
      (b' = true → b = true ∨ d'.left items size < d.left items size) := by
  induction h with
  | nil d b => exact ⟨hloc, le_rfl, Or.inl⟩
  | passed _ _ ih => exact ih (List.subset_of_cons_subset hxs) hloc
  | missed _ _ _ ih => exact ih (List.subset_of_cons_subset hxs) hloc
  | @found item i xs d d' b b' stop r hnew htest hfound _ ih =>
    have hitem : (item, i) ∈ items := hxs List.mem_cons_self
    obtain ⟨hle, hsize⟩ := hends _ hitem d.loc hloc stop r htest
    have hlt : (d.note item i stop).left items size < d.left items size := by
      refine Discovery.left_note_lt hitem hle hsize ?_
      rcases (Bool.or_eq_true _ _).mp hfound with hsingle | hlt
      · exact Or.inr ⟨hsingle, by simpa [EachItem.isOver, hsingle] using hnew⟩
      · exact Or.inl (of_decide_eq_true hlt)
    obtain ⟨hloc', hle', -⟩ := ih (List.subset_of_cons_subset hxs) hsize
    exact ⟨hloc', hle'.trans hlt.le, fun _ => Or.inr (hle'.trans_lt hlt)⟩

/-- **A discovery ends where nothing is left to be found**, if it has enough rounds. -/
theorem Discovers.exhausted {fuel : Nat} (h : Discovers I a c items fuel d d') (hends : TestsEndIn I a c items size)
    (hloc : d.loc ≤ size) (hfuel : d.left items size < fuel) : Exhausted I a c items d' := by
  induction h with
  | spent d => exact absurd hfuel (Nat.not_lt_zero _)
  | done hround =>
    obtain ⟨rfl, -, hnothing⟩ := hround.exhausted rfl
    exact hnothing
  | again hround _ ih =>
    obtain ⟨hloc', -, hlt⟩ := hround.left_le (List.Subset.refl items) hends hloc
    have hlt := (hlt rfl).resolve_left Bool.false_ne_true
    exact ih hloc' (by omega)

end Ends

/-! ## The second pass -/

/-- Running finds one after the other, each where it is attempted: all of them match, up to their ends, and their
results are joined. -/
inductive RunsThrough (a : Attempt) (c : Context) (acts : Bool) : List Find → Results → State → Results → State → Prop
  | nil (r : Results) (s : State) : RunsThrough a c acts [] r s r s
  | cons {f : Find} {finds : List Find} {r part r' : Results} {s s₁ s' : State}
    (hrun : a c f.item.run f.place acts true s = .ok (.matched f.stop part) s₁)
    (hrest : RunsThrough a c acts finds (r.extend part) s₁ r' s') : RunsThrough a c acts (f :: finds) r s r' s'

section Runs

variable {a : Attempt} {c : Context} {acts : Bool}

/-- What runs in order comes to that does not halt: the first one matches and the others follow, or it fails. -/
theorem runInOrder_cons {i : ExprId} {order : List ExprId} {loc : Nat} {r : Results} {s s' : State} {step : Step}
    (h : runInOrder a c acts (i :: order) loc r s = .ok step s') :
    (∃ stop part s₁, a c i loc acts true s = .ok (.matched stop part) s₁ ∧
        runInOrder a c acts order stop (r.extend part) s₁ = .ok step s') ∨
      ∃ d, a c i loc acts true s = .ok (.failed d) s' ∧ step = .failed d := by
  rw [runInOrder] at h
  cases hrun : a c i loc acts true s with
  | error e s₁ =>
    rw [bind_error hrun] at h
    exact absurd h (by simp)
  | ok first s₁ =>
    rw [bind_ok hrun] at h
    cases first with
    | matched stop part => exact Or.inl ⟨stop, part, s₁, rfl, h⟩
    | failed d =>
      obtain ⟨rfl, rfl⟩ := EStateM.Result.ok.inj h
      exact Or.inr ⟨d, rfl, rfl⟩

/-- Runs in order that match go along a way. -/
theorem runInOrder_matched {entries : List (EachItem × Nat)} {loc stop : Nat} {r r' : Results} {s s' : State}
    (h : runInOrder a c acts (entries.map (·.1.run)) loc r s = .ok (.matched stop r') s') :
    ∃ finds, finds.map Find.entry = entries ∧ Spans loc finds stop ∧ RunsThrough a c acts finds r s r' s' := by
  induction entries generalizing loc r s with
  | nil =>
    obtain ⟨hstep, rfl⟩ := EStateM.Result.ok.inj h
    obtain ⟨rfl, rfl⟩ := Step.matched.inj hstep
    exact ⟨[], rfl, rfl, .nil _ _⟩
  | cons x entries ih =>
    rcases runInOrder_cons h with ⟨stop₁, part, s₁, hrun, hrest⟩ | ⟨d, -, hfailed⟩
    · obtain ⟨finds, rfl, hspans, hruns⟩ := ih hrest
      exact ⟨⟨x.1, x.2, loc, stop₁⟩ :: finds, rfl, ⟨rfl, hspans⟩, .cons hrun hruns⟩
    · exact absurd hfailed (by simp)

end Runs

/-! ## One pass after the other -/

/-- The items of children, numbered. -/
def Context.eachItems (c : Context) (children : List ExprId) : List (EachItem × Nat) :=
  (children.map fun child => EachItem.ofChild child (c.rule child).kind).zipIdx

theorem Context.mem_eachItems {c : Context} {children : List ExprId} {item : EachItem} {k : Nat} :
    (item, k) ∈ c.eachItems children ↔
      ∃ child, children[k]? = some child ∧ item = EachItem.ofChild child (c.rule child).kind := by
  rw [eachItems, List.mk_mem_zipIdx_iff_getElem?, List.getElem?_map, Option.map_eq_some_iff]
  simp only [eq_comm]

theorem Context.ofChild_mem_eachItems (c : Context) {children : List ExprId} {child : ExprId} {k : Nat}
    (h : children[k]? = some child) : (EachItem.ofChild child (c.rule child).kind, k) ∈ c.eachItems children :=
  mem_eachItems.mpr ⟨child, h, rfl⟩

namespace Discovery

/-- The items that must occur and have not been found. -/
def missing (items : List (EachItem × Nat)) (d : Discovery) : List (EachItem × Nat) :=
  items.filter fun x => x.1.isNeeded && !d.seen.contains x.2

/-- The optional items that have not been found and have a value that stands for them. -/
def absent (c : Context) (items : List (EachItem × Nat)) (d : Discovery) : List (EachItem × Nat) :=
  items.filter fun x => x.1.role == .optional && !d.seen.contains x.2 && (c.rule x.1.run).kind.hasDefault

theorem mem_missing {items : List (EachItem × Nat)} {d : Discovery} {x : EachItem × Nat} :
    x ∈ d.missing items ↔ x ∈ items ∧ x.1.isNeeded = true ∧ x.2 ∉ d.seen := by
  unfold missing
  rw [List.mem_filter]
  simp

theorem mem_of_mem_absent {c : Context} {items : List (EachItem × Nat)} {d : Discovery} {x : EachItem × Nat}
    (h : x ∈ d.absent c items) : x ∈ items ∧ x.2 ∉ d.seen := by
  obtain ⟨hx, hcond⟩ := List.mem_filter.mp h
  rw [Bool.and_eq_true, Bool.and_eq_true] at hcond
  exact ⟨hx, by simpa using hcond.1.2⟩

end Discovery

/-- The failure for want of some items. -/
def missingFailure (c : Context) (start : Nat) (missing : List (EachItem × Nat)) : Step :=
  .failed ⟨start, "Missing one or more required elements ("
    ++ ", ".intercalate (missing.map fun x => (c.rule x.1.test).display) ++ ")"⟩

/-- The rounds that are enough for a discovery. -/
def Context.eachFuel (c : Context) (children : List ExprId) : Nat := (c.eachItems children).length + c.text.size + 2

/-- These are enough to find all there is to be found. -/
theorem Discovery.left_lt_eachFuel (c : Context) (children : List ExprId) (d : Discovery) :
    d.left (c.eachItems children) c.text.size < c.eachFuel children := by
  have hitems := List.length_filter_le (fun x => x.1.isSingle && !d.seen.contains x.2) (c.eachItems children)
  unfold left Context.eachFuel
  omega

section Each

variable {a : Attempt} {c : Context} {children : List ExprId} {start : Nat} {acts : Bool} {s s₁ s' : State}

theorem matchEach_eq (a : Attempt) (c : Context) (children : List ExprId) (start : Nat) (acts : Bool) :
    matchEach a c children start acts = (do
      let found ← discover a c (c.eachItems children) (c.eachFuel children) ⟨start, [], []⟩
      if !(found.missing (c.eachItems children)).isEmpty then
        return missingFailure c start (found.missing (c.eachItems children))
      runInOrder a c acts (found.order.reverse ++ (found.absent c (c.eachItems children)).map (·.1.run)) start {}) := rfl

/-- What is needed and missing makes the second pass fail before it begins. -/
theorem matchEach_of_missing {found : Discovery}
    (hfound : discover a c (c.eachItems children) (c.eachFuel children) ⟨start, [], []⟩ s = .ok found s₁)
    (hmissing : found.missing (c.eachItems children) ≠ []) :
    matchEach a c children start acts s = .ok (missingFailure c start (found.missing (c.eachItems children))) s₁ := by
  rw [matchEach_eq, bind_ok hfound]
  have hempty : (!(found.missing (c.eachItems children)).isEmpty) = true := by simpa using hmissing
  simp only [hempty, if_true]
  rfl

/-- Where nothing is missing, what was found is run, and then what is absent. -/
theorem matchEach_of_complete {found : Discovery}
    (hfound : discover a c (c.eachItems children) (c.eachFuel children) ⟨start, [], []⟩ s = .ok found s₁)
    (hmissing : found.missing (c.eachItems children) = []) :
    matchEach a c children start acts s
      = runInOrder a c acts (found.order.reverse ++ (found.absent c (c.eachItems children)).map (·.1.run)) start {} s₁ := by
  rw [matchEach_eq, bind_ok hfound, hmissing]
  rfl

/-- **One pass after the other**: a discovery, and then a failure for want of some items, or runs in order. -/
theorem matchEach_cases {step : Step} (h : matchEach a c children start acts s = .ok step s') :
    ∃ found s₁, discover a c (c.eachItems children) (c.eachFuel children) ⟨start, [], []⟩ s = .ok found s₁ ∧
      (found.missing (c.eachItems children) ≠ [] ∧ s' = s₁ ∧
          step = missingFailure c start (found.missing (c.eachItems children)) ∨
        found.missing (c.eachItems children) = [] ∧
          runInOrder a c acts (found.order.reverse ++ (found.absent c (c.eachItems children)).map (·.1.run)) start {} s₁
            = .ok step s') := by
  cases hfound : discover a c (c.eachItems children) (c.eachFuel children) ⟨start, [], []⟩ s with
  | error e s₁ =>
    rw [matchEach_eq, bind_error hfound] at h
    exact absurd h (by simp)
  | ok found s₁ =>
    refine ⟨found, s₁, rfl, ?_⟩
    by_cases hmissing : found.missing (c.eachItems children) = []
    · exact Or.inr ⟨hmissing, (matchEach_of_complete hfound hmissing).symm.trans h⟩
    · rw [matchEach_of_missing hfound hmissing] at h
      obtain ⟨rfl, rfl⟩ := EStateM.Result.ok.inj h
      exact Or.inl ⟨hmissing, rfl, rfl⟩

end Each

end Packrat
