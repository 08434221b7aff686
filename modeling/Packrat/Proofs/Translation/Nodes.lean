import Packrat.Proofs.AnyOrder.Finds
import Packrat.Proofs.Translation.Moved

/-!
# `Packrat.Proofs.Translation.Nodes` — every way of matching, after a front

Whatever a node does besides looking at what stands before it or at the place itself, it does at the moved place of the
whole text as it does on the text alone, as long as its attempts do. Loops are bounded by the sizes of the two texts,
which differ; each is shown to end before either bound, as its rounds come to places further on.

## Contents

* `NodeKind.isOnward` — expressions that depend on nothing but the text from their place on;
* `skipLeading_moved`, `matchSequence_moved`, … — one lemma for each way of matching;
* `matchNode_moved` — **nodes match in the same way**;
* `perform_moved`, `Agrees.succ` — and so do their attempts.
-/

namespace Packrat

/-- Whether an expression depends on nothing but the text from its place on: it looks neither at what stands before nor
at the place itself, and shows neither to an action. -/
def NodeKind.isOnward : NodeKind → Bool
  | .transform _ _ | .keyword _ _ _ | .stringStart | .lineStart | .wordStart _ | .wordEnd _ | .precededBy _ _ => false
  | _ => true

/-- A grammar of such expressions only. -/
def Grammar.Onward (g : Grammar) : Prop := ∀ rule ∈ g.rules, rule.kind.isOnward = true

instance (g : Grammar) : Decidable g.Onward :=
  inferInstanceAs (Decidable (∀ rule ∈ g.rules, rule.kind.isOnward = true))

theorem Grammar.Onward.rule {g : Grammar} (h : g.Onward) (i : ExprId) : (g.rule i).kind.isOnward = true := by
  unfold Grammar.rule
  cases hi : g.rules[i]? with
  | none => rfl
  | some rule => exact h rule (Array.mem_of_getElem? hi)

namespace Move

variable {M : Move} {g : Grammar} {a₁ a₂ : Attempt} {c₁ c₂ : Context} (ha : M.Agrees g a₁ a₂) (hc : M.Pair g c₁ c₂)
  {p start : Nat}

include ha hc

/-! ## Skipping -/

theorem probe_moved (i : ExprId) (hp : M.text.IsBoundary p) :
    M.Moved (M.Steps p) (probe a₁ c₁ i p) (probe a₂ c₂ i (M.distance + p)) :=
  (ha hc i hp false true).recover

theorem skipOne_moved (i : ExprId) {fuel₁ fuel₂ : Nat} (hp : M.text.IsBoundary p) (h₁ : M.text.size < fuel₁ + p)
    (h₂ : M.text.size < fuel₂ + p) :
    M.Moved (M.Places p) (skipOne a₁ c₁ i fuel₁ p) (skipOne a₂ c₂ i fuel₂ (M.distance + p)) := by
  have hle := hp.le_size
  induction fuel₁ generalizing fuel₂ p with
  | zero => omega
  | succ fuel₁ ih =>
    obtain ⟨fuel₂, rfl⟩ : ∃ fuel, fuel₂ = fuel + 1 := ⟨fuel₂ - 1, by omega⟩
    have hstay : M.Moved (M.Places p) (pure p) (pure (M.distance + p)) := .pure ⟨.self hp⟩
    rw [skipOne, skipOne]
    refine (probe_moved ha hc i hp).step ?_ fun _ => hstay
    intro stop r hstop
    simp only [Nat.add_le_add_iff_left]
    by_cases h : stop ≤ p
    · simp only [h, if_true]
      exact hstay
    · simp only [h, if_false]
      refine (ih hstop.site (by omega) (by omega) hstop.site.le_size).mono ?_
      rintro _ _ ⟨hq⟩
      exact ⟨hq.mono hstop.le⟩

theorem skipEach_moved (ignores : List ExprId) (hp : M.text.IsBoundary p) :
    M.Moved (M.Places p) (skipEach a₁ c₁ ignores p) (skipEach a₂ c₂ ignores (M.distance + p)) := by
  induction ignores generalizing p with
  | nil => exact .pure ⟨.self hp⟩
  | cons i ignores ih =>
    rw [skipEach, skipEach, hc.text₁, hc.size₂]
    refine (skipOne_moved ha hc i hp (by omega) (by omega)).bind ?_
    rintro _ _ ⟨hq⟩
    refine (ih hq.site).mono ?_
    rintro _ _ ⟨hr⟩
    exact ⟨hr.mono hq.le⟩

theorem skipRounds_moved (ignores : List ExprId) {fuel₁ fuel₂ : Nat} (hp : M.text.IsBoundary p)
    (h₁ : M.text.size < fuel₁ + p) (h₂ : M.text.size < fuel₂ + p) :
    M.Moved (M.Places p) (skipRounds a₁ c₁ ignores fuel₁ p) (skipRounds a₂ c₂ ignores fuel₂ (M.distance + p)) := by
  have hle := hp.le_size
  induction fuel₁ generalizing fuel₂ p with
  | zero => omega
  | succ fuel₁ ih =>
    obtain ⟨fuel₂, rfl⟩ : ∃ fuel, fuel₂ = fuel + 1 := ⟨fuel₂ - 1, by omega⟩
    rw [skipRounds, skipRounds]
    refine (skipEach_moved ha hc ignores hp).bind ?_
    rintro q _ ⟨hq⟩
    simp only [Nat.add_left_cancel_iff]
    by_cases h : q = p
    · simp only [h, if_true]
      exact .pure ⟨.self hp⟩
    · simp only [h, if_false]
      have hlt : p < q := Nat.lt_of_le_of_ne hq.le (Ne.symm h)
      refine (ih hq.site (by omega) (by omega) hq.site.le_size).mono ?_
      rintro _ _ ⟨hr⟩
      exact ⟨hr.mono hq.le⟩

theorem skipIgnorables_moved (ignores : List ExprId) (hp : M.text.IsBoundary p) :
    M.Moved (M.Places p) (skipIgnorables a₁ c₁ ignores p) (skipIgnorables a₂ c₂ ignores (M.distance + p)) := by
  rw [skipIgnorables, skipIgnorables, hc.text₁, hc.size₂]
  by_cases h : ignores.isEmpty = true
  · simp only [h, if_true]
    exact .pure ⟨.self hp⟩
  · simp only [h]
    exact skipRounds_moved ha hc ignores hp (by omega) (by omega)

theorem skipLeading_moved (rule : Rule) (hp : M.text.IsBoundary p) :
    M.Moved (M.Places p) (skipLeading a₁ c₁ rule p) (skipLeading a₂ c₂ rule (M.distance + p)) := by
  rw [skipLeading, skipLeading]
  refine (skipIgnorables_moved ha hc rule.ignores hp).bind ?_
  rintro q _ ⟨hq⟩
  rw [hc.text₁, hc.text₂]
  split
  · refine .pure ?_
    rw [whole, distance, Text.skip_append_add]
    exact ⟨hq.site.skip _, hq.le.trans (Text.le_skip _ _ _)⟩
  · exact .pure ⟨hq⟩

/-! ## Sequences and choices -/

variable (acts : Bool)

theorem matchSequence_moved (children : List ExprId) (first committed : Bool) {loc : Nat}
    (hloc : Sites.places.From M.text p loc) (results : Results) :
    M.Moved (M.Steps p) (matchSequence a₁ c₁ acts children first committed loc results)
      (matchSequence a₂ c₂ acts children first committed (M.distance + loc) results) := by
  induction children generalizing first committed loc results with
  | nil => exact .pure (.matched hloc results)
  | cons i children ih =>
    rw [matchSequence, matchSequence, hc.rule₁, hc.rule₂]
    by_cases h : (g.rule i).kind.isCommit = true
    · simp only [h, if_true]
      exact ih _ _ hloc _
    · simp only [h]
      refine (ha hc i hloc.site acts _).step (fun stop r hstop => ih _ _ (hstop.mono hloc.le) _) fun d => ?_
      cases committed with
      | true => exact Moved.halt (h := .committed d) (by simp)
      | false => exact .pure (.failed d)

omit ha hc in
theorem choiceFailure_moved (best : Option Diagnostic) (rule : Rule) :
    M.Steps p (choiceFailure best start rule)
      (choiceFailure (best.map (·.shift M.distance)) (M.distance + start) rule) := by
  rw [choiceFailure_shift]
  obtain ⟨d, hd⟩ := choiceFailure_eq_failed best start rule
  rw [hd]
  exact .failed d

theorem matchFirst_moved (rule : Rule) (hp : M.text.IsBoundary p) (children : List ExprId)
    (best : Option Diagnostic) :
    M.Moved (M.Steps p) (matchFirst a₁ c₁ rule p acts children best)
      (matchFirst a₂ c₂ rule (M.distance + p) acts children (best.map (·.shift M.distance))) := by
  induction children generalizing best with
  | nil => exact .pure (choiceFailure_moved best rule)
  | cons i children ih =>
    rw [matchFirst, matchFirst]
    refine (ha hc i hp acts true).step (fun stop r hstop => .pure (.matched hstop r)) fun d => ?_
    simp only [furthestOf_shift]
    exact ih _

/-! ### The longest match -/

/-- A candidate at the place of a text after a front. -/
def ahead (M : Move) (x : Candidate) : Candidate := { x with stop := M.distance + x.stop }

theorem findCandidates_moved (hp : M.text.IsBoundary p) (children : List ExprId) (found : List Candidate)
    (hfound : ∀ x ∈ found, Sites.places.From M.text p x.stop) (best : Option Diagnostic) :
    M.Moved (fun x y => y = (x.1.map M.ahead, x.2.map (·.shift M.distance))
        ∧ ∀ z ∈ x.1, Sites.places.From M.text p z.stop)
      (findCandidates a₁ c₁ p children found best)
      (findCandidates a₂ c₂ (M.distance + p) children (found.map M.ahead) (best.map (·.shift M.distance))) := by
  induction children generalizing found best with
  | nil => exact .pure ⟨by rw [List.map_reverse], fun z hz => hfound z (List.mem_reverse.mp hz)⟩
  | cons i children ih =>
    rw [findCandidates, findCandidates]
    refine (ha hc i hp false true).step (fun stop r hstop => ?_) fun d => ?_
    · exact ih (⟨stop, i, r⟩ :: found) (List.forall_mem_cons.mpr ⟨hstop, hfound⟩) best
    · simp only [furthestOf_shift]
      exact ih found hfound _

omit ha hc in
theorem isLonger_moved (longest : Option (Nat × Results)) (stop : Nat) :
    isLonger (longest.map fun x => (M.distance + x.1, x.2)) (M.distance + stop) = isLonger longest stop := by
  cases longest with
  | none => rfl
  | some x => simp only [isLonger, Option.map_some, Nat.add_lt_add_iff_left]

theorem matchCandidates_moved (rule : Rule) (hp : M.text.IsBoundary p) (xs : List Candidate)
    (longest : Option (Nat × Results)) (hlongest : ∀ x ∈ longest, Sites.places.From M.text p x.1)
    (best : Option Diagnostic) :
    M.Moved (M.Steps p) (matchCandidates a₁ c₁ rule p xs longest best)
      (matchCandidates a₂ c₂ rule (M.distance + p) (xs.map M.ahead) (longest.map fun x => (M.distance + x.1, x.2))
        (best.map (·.shift M.distance))) := by
  induction xs generalizing longest best with
  | nil =>
    cases longest with
    | none => exact .pure (choiceFailure_moved best rule)
    | some x => exact .pure (.matched (hlongest x rfl) x.2)
  | cons x xs ih =>
    have htry : M.Moved (M.Steps p) (tryCandidate a₁ c₁ p x longest best (matchCandidates a₁ c₁ rule p xs))
        (tryCandidate a₂ c₂ (M.distance + p) (M.ahead x) (longest.map fun x => (M.distance + x.1, x.2))
          (best.map (·.shift M.distance)) (matchCandidates a₂ c₂ rule (M.distance + p) (xs.map M.ahead))) := by
      unfold tryCandidate
      refine (ha hc x.child hp true true).step (fun stop r hstop => ?_) fun d => ?_
      · simp only [ahead, Nat.add_le_add_iff_left]
        by_cases h : x.stop ≤ stop
        · simp only [h, if_true]
          exact .pure (.matched hstop r)
        · simp only [h, if_false, isLonger_moved]
          cases isLonger longest stop with
          | true => exact ih (some (stop, r)) (by rintro y ⟨⟩; exact hstop) best
          | false => exact ih longest hlongest best
      · simp only [furthestOf_shift]
        exact ih longest hlongest _
    cases longest with
    | none => exact htry
    | some y =>
      simp only [matchCandidates, List.map_cons, Option.map_some, ahead, Nat.add_le_add_iff_left]
      by_cases h : x.stop ≤ y.1
      · simp only [h, if_true]
        exact .pure (.matched (hlongest y rfl) y.2)
      · simp only [h, if_false]
        exact htry

theorem matchLongest_moved (rule : Rule) (hp : M.text.IsBoundary p) (children : List ExprId) :
    M.Moved (M.Steps p) (matchLongest a₁ c₁ rule children p acts)
      (matchLongest a₂ c₂ rule children (M.distance + p) acts) := by
  rw [matchLongest, matchLongest]
  refine (findCandidates_moved ha hc hp children [] (by simp) none).bind ?_
  rintro ⟨found, best⟩ _ ⟨rfl, hfound⟩
  -- ranking looks at the ends only, and compares them as before
  have hsort : (found.map M.ahead).mergeSort (fun x y => decide (y.stop ≤ x.stop))
      = (found.mergeSort fun x y => decide (y.stop ≤ x.stop)).map M.ahead := by
    refine (List.map_mergeSort fun x _ y _ => ?_).symm
    simp only [ahead, Nat.add_le_add_iff_left]
  dsimp only
  rw [hsort]
  have hranked : ∀ x ∈ found.mergeSort fun x y => decide (y.stop ≤ x.stop), Sites.places.From M.text p x.stop :=
    fun x hx => hfound x (List.mem_mergeSort.mp hx)
  generalize found.mergeSort _ = xs at hranked ⊢
  cases acts with
  | true => exact matchCandidates_moved ha hc rule hp xs none (by simp) best
  | false =>
    cases xs with
    | nil => exact .pure (choiceFailure_moved best rule)
    | cons x xs => exact .pure (.matched (hranked x List.mem_cons_self) x.results)

/-! ## Children in any order -/

/-- What has been found, at the place of a text after a front. -/
def found (M : Move) (d : Discovery) : Discovery := { d with loc := M.distance + d.loc }

/-- How much can still be found: the items that occur once and have not, and the text that is left. -/
def left (M : Move) (items : List (EachItem × Nat)) (d : Discovery) : Nat :=
  (items.filter fun x => x.1.isSingle && !d.seen.contains x.2).length + (M.text.size - d.loc)

/-- What a round over items comes to, on the text and on the whole. If it finds anything, less is left. -/
structure Finds (M : Move) (items : List (EachItem × Nat)) (d : Discovery) (progressed : Bool)
    (x y : Discovery × Bool) : Prop where
  eq : y = (M.found x.1, x.2)
  place : Sites.places.From M.text d.loc x.1.loc
  le : M.left items x.1 ≤ M.left items d
  lt : x.2 = true → progressed = true ∨ M.left items x.1 < M.left items d

omit ha hc in
/-- Less is left when an item has been found that occurs once, or some text has been consumed. -/
theorem left_lt {items : List (EachItem × Nat)} {d : Discovery} {stop : Nat}
    (hstop : Sites.places.From M.text d.loc stop) (order : List ExprId) {item : EachItem} {i : Nat}
    (hitem : (item, i) ∈ items) (hnew : d.loc < stop ∨ item.isSingle = true ∧ d.seen.contains i = false) :
    M.left items ⟨stop, order, i :: d.seen⟩ < M.left items d :=
  Discovery.left_note_lt hitem hstop.le hstop.site.le_size hnew

theorem discoverRound_moved {items xs : List (EachItem × Nat)} (hxs : ∀ x ∈ xs, x ∈ items) {d : Discovery}
    (hloc : M.text.IsBoundary d.loc) (progressed : Bool) :
    M.Moved (M.Finds items d progressed) (discoverRound a₁ c₁ xs d progressed)
      (discoverRound a₂ c₂ xs (M.found d) progressed) := by
  induction xs generalizing d progressed with
  | nil => exact .pure ⟨rfl, .self hloc, le_refl _, Or.inl⟩
  | cons x xs ih =>
    obtain ⟨item, i⟩ := x
    obtain ⟨hitem, hxs⟩ := List.forall_mem_cons.mp hxs
    rw [discoverRound, discoverRound]
    simp only [found]
    by_cases hseen : (item.isSingle && d.seen.contains i) = true
    · simp only [hseen, if_true]
      exact ih hxs hloc progressed
    · simp only [hseen, Bool.false_eq_true, if_false]
      refine (ha hc item.test hloc false true).step ?_ fun _ => ih hxs hloc progressed
      intro stop r hstop
      simp only [Nat.add_lt_add_iff_left]
      by_cases hnew : (item.isSingle || decide (d.loc < stop)) = true
      · simp only [hnew, if_true]
        refine (ih (d := ⟨stop, item.run :: d.order, i :: d.seen⟩) hxs hstop.site true).mono fun x y h => ?_
        have hlt : M.left items ⟨stop, item.run :: d.order, i :: d.seen⟩ < M.left items d := by
          refine left_lt hstop _ hitem ?_
          rcases (Bool.or_eq_true _ _).mp hnew with hsingle | hlt
          · exact Or.inr ⟨hsingle, by simpa [hsingle] using hseen⟩
          · exact Or.inl (of_decide_eq_true hlt)
        exact ⟨h.eq, h.place.mono hstop.le, h.le.trans hlt.le, fun _ => Or.inr (h.le.trans_lt hlt)⟩
      · simp only [hnew, Bool.false_eq_true, if_false]
        exact ih hxs hloc progressed

theorem discover_moved {items : List (EachItem × Nat)} {fuel₁ fuel₂ : Nat} {d : Discovery}
    (hloc : M.text.IsBoundary d.loc) (h₁ : M.left items d < fuel₁) (h₂ : M.left items d < fuel₂) :
    M.Moved (fun x y => y = M.found x ∧ Sites.places.From M.text d.loc x.loc) (discover a₁ c₁ items fuel₁ d)
      (discover a₂ c₂ items fuel₂ (M.found d)) := by
  induction fuel₁ generalizing fuel₂ d with
  | zero => omega
  | succ fuel₁ ih =>
    obtain ⟨fuel₂, rfl⟩ : ∃ fuel, fuel₂ = fuel + 1 := ⟨fuel₂ - 1, by omega⟩
    rw [discover, discover]
    refine (discoverRound_moved ha hc (fun _ => id) hloc false).bind ?_
    rintro ⟨d', progressed⟩ _ ⟨rfl, hplace, -, hlt⟩
    cases progressed with
    | false => exact .pure ⟨rfl, hplace⟩
    | true =>
      have hlt : M.left items d' < M.left items d := (hlt rfl).resolve_left Bool.false_ne_true
      refine (ih (d := d') hplace.site (by omega) (by omega)).mono ?_
      rintro x _ ⟨rfl, hx⟩
      exact ⟨rfl, hx.mono hplace.le⟩

theorem runInOrder_moved (order : List ExprId) {loc : Nat} (hloc : Sites.places.From M.text p loc)
    (results : Results) :
    M.Moved (M.Steps p) (runInOrder a₁ c₁ acts order loc results)
      (runInOrder a₂ c₂ acts order (M.distance + loc) results) := by
  induction order generalizing loc results with
  | nil => exact .pure (.matched hloc results)
  | cons i order ih =>
    rw [runInOrder, runInOrder]
    refine (ha hc i hloc.site acts true).step (fun stop r hstop => ih (hstop.mono hloc.le) _) fun d => ?_
    exact .pure (.failed d)

theorem matchEach_moved (children : List ExprId) (hp : M.text.IsBoundary p) :
    M.Moved (M.Steps p) (matchEach a₁ c₁ children p acts) (matchEach a₂ c₂ children (M.distance + p) acts) := by
  simp only [matchEach, hc.rule₁, hc.rule₂]
  generalize (children.map fun child => EachItem.ofChild child (g.rule child).kind).zipIdx = items
  have hleft : M.left items ⟨p, [], []⟩ ≤ items.length + M.text.size :=
    Nat.add_le_add (List.length_filter_le _ _) (Nat.sub_le _ _)
  rw [hc.text₁, hc.size₂]
  refine (discover_moved ha hc (d := ⟨p, [], []⟩) hp (by omega) (by omega)).bind ?_
  rintro found found' ⟨hfound, -⟩
  obtain ⟨hseen, horder⟩ : found'.seen = found.seen ∧ found'.order = found.order := by
    rw [hfound]
    exact ⟨rfl, rfl⟩
  rw [hseen, horder]
  split
  · exact .pure (.failed _)
  · exact runInOrder_moved ha hc acts _ (.self hp) _

/-! ## Repetitions -/

/-- Rounds, at the place of a text after a front. -/
def rounds (M : Move) (r : Rounds) : Rounds :=
  { r with loc := M.distance + r.loc, failure := r.failure.map (·.shift M.distance) }

theorem repeatRounds_moved (child : ExprId) (max : Option Nat) (stop : Option ExprId) {fuel₁ fuel₂ : Nat} {r : Rounds}
    (hloc : M.text.IsBoundary r.loc) (h₁ : M.text.size < fuel₁ + r.loc) (h₂ : M.text.size < fuel₂ + r.loc) :
    M.Moved (fun x y => y = M.rounds x ∧ Sites.places.From M.text r.loc x.loc)
      (repeatRounds a₁ c₁ child max stop acts fuel₁ r) (repeatRounds a₂ c₂ child max stop acts fuel₂ (M.rounds r)) := by
  have hle := hloc.le_size
  induction fuel₁ generalizing fuel₂ r with
  | zero => omega
  | succ fuel₁ ih =>
    obtain ⟨fuel₂, rfl⟩ : ∃ fuel, fuel₂ = fuel + 1 := ⟨fuel₂ - 1, by omega⟩
    have htake : M.Moved (fun x y => y = M.rounds x ∧ Sites.places.From M.text r.loc x.loc)
        (takeRound a₁ c₁ child acts (repeatRounds a₁ c₁ child max stop acts fuel₁) r)
        (takeRound a₂ c₂ child acts (repeatRounds a₂ c₂ child max stop acts fuel₂) (M.rounds r)) := by
      unfold takeRound
      refine (ha hc child hloc acts true).step ?_ fun d => .pure ⟨rfl, .self hloc⟩
      intro after part hafter
      simp only [rounds, Nat.add_lt_add_iff_left]
      by_cases hlt : r.loc < after
      · simp only [hlt, if_true]
        refine (ih (r := { r with loc := after, count := r.count + 1, results := r.results.extend part }) hafter.site
          (show M.text.size < fuel₁ + after by omega) (show M.text.size < fuel₂ + after by omega)
          hafter.site.le_size).mono ?_
        rintro x _ ⟨rfl, hx⟩
        exact ⟨rfl, hx.mono hafter.le⟩
      · simp only [hlt, if_false]
        exact .pure ⟨rfl, hafter⟩
    rw [repeatRounds, repeatRounds]
    have hcount : (M.rounds r).count = r.count := rfl
    rw [hcount]
    by_cases hmax : (max.any fun x => decide (x ≤ r.count)) = true
    · simp only [hmax, if_true]
      exact .pure ⟨rfl, .self hloc⟩
    · simp only [hmax, Bool.false_eq_true, if_false]
      cases stop with
      | none => exact htake
      | some i =>
        refine (probe_moved ha hc i hloc).step (fun _ _ _ => ?_) fun _ => htake
        rw [hc.rule₁, hc.rule₂]
        exact .pure ⟨rfl, .self hloc⟩

theorem matchRepetition_moved (rule : Rule) (child : ExprId) (min : Nat) (max : Option Nat) (stop : Option ExprId)
    (hp : M.text.IsBoundary p) :
    M.Moved (M.Steps p) (matchRepetition a₁ c₁ rule child min max stop p acts)
      (matchRepetition a₂ c₂ rule child min max stop (M.distance + p) acts) := by
  rw [matchRepetition, matchRepetition, hc.text₁, hc.size₂]
  refine (repeatRounds_moved ha hc acts child max stop (r := ⟨p, 0, {}, none⟩) hp (by omega) (by omega)).bind ?_
  rintro r _ ⟨rfl, hr⟩
  simp only [rounds]
  by_cases hmin : r.count < min
  · simp only [hmin, if_true]
    cases r.failure with
    | none => exact .pure (.failed _)
    | some d => exact .pure (.failed d)
  · simp only [hmin, if_false]
    exact .pure (.matched hr r.results)

/-! ## Skipping ahead -/

/-- Where a target is found on the text, at or after a place, and on the whole. -/
inductive Targets (M : Move) (p : Nat) : Option Nat → Option Nat → Prop
  | nowhere : Targets M p none none
  | found {q : Nat} (h : Sites.places.From M.text p q) : Targets M p (some q) (some (M.distance + q))

theorem findAhead_moved (target : ExprId) (failOn : Option ExprId) {fuel₁ fuel₂ : Nat}
    (hp : M.text.IsBoundary p ∨ M.text.size < p) (h₁ : M.text.size < fuel₁ + p) (h₂ : M.text.size < fuel₂ + p) :
    M.Moved (M.Targets p) (findAhead a₁ c₁ target failOn fuel₁ p)
      (findAhead a₂ c₂ target failOn fuel₂ (M.distance + p)) := by
  have hover : c₂.text.size < M.distance + p ↔ c₁.text.size < p := by
    rw [hc.size₂, hc.text₁, Nat.add_lt_add_iff_left]
  induction fuel₁ generalizing fuel₂ p with
  | zero =>
    -- the text is used up, so the other search has nothing to look at either
    cases fuel₂ with
    | zero => exact .pure .nowhere
    | succ fuel₂ =>
      rw [findAhead, findAhead, if_pos (hover.mpr (by rw [hc.text₁]; omega))]
      exact .pure .nowhere
  | succ fuel₁ ih =>
    by_cases hlt : M.text.size < p
    · rw [findAhead, if_pos (by rwa [hc.text₁])]
      cases fuel₂ with
      | zero => exact .pure .nowhere
      | succ fuel₂ =>
        rw [findAhead, if_pos (hover.mpr (by rwa [hc.text₁]))]
        exact .pure .nowhere
    · have hp : M.text.IsBoundary p := hp.resolve_right hlt
      obtain ⟨fuel₂, rfl⟩ : ∃ fuel, fuel₂ = fuel + 1 := ⟨fuel₂ - 1, by omega⟩
      have hnot : ¬ c₁.text.size < p := by rwa [hc.text₁]
      have htry : M.Moved (M.Targets p) (tryTarget a₁ c₁ target (findAhead a₁ c₁ target failOn fuel₁) p)
          (tryTarget a₂ c₂ target (findAhead a₂ c₂ target failOn fuel₂) (M.distance + p)) := by
        unfold tryTarget
        rw [hc.rule₁, hc.rule₂]
        refine (skipIgnorables_moved ha hc _ hp).bind ?_
        rintro q _ ⟨hq⟩
        refine (ha hc target hq.site false false).recover.step (fun _ _ _ => .pure (.found hq)) fun d => ?_
        rw [hc.text₁, hc.text₂, whole, distance, Text.next_append_add]
        have hnext := Text.lt_next M.text q
        have hle := hq.le
        refine (ih hq.site.next (by omega) (by omega) ?_).mono ?_
        · rw [hc.size₂, hc.text₁, Nat.add_lt_add_iff_left]
        · rintro _ _ (_ | hr)
          · exact .nowhere
          · exact .found (hr.mono (by omega))
      rw [findAhead, findAhead, if_neg hnot, if_neg (mt hover.mp hnot)]
      cases failOn with
      | none => exact htry
      | some i => exact (probe_moved ha hc i hp).step (fun _ _ _ => .pure (.found (.self hp))) fun _ => htry

theorem matchSkipTo_moved (rule : Rule) (target : ExprId) (includes : Bool) (failOn : Option ExprId)
    (hp : M.text.IsBoundary p) :
    M.Moved (M.Steps p) (matchSkipTo a₁ c₁ rule target includes failOn p acts)
      (matchSkipTo a₂ c₂ rule target includes failOn (M.distance + p) acts) := by
  rw [matchSkipTo, matchSkipTo]
  refine (findAhead_moved ha hc target failOn (Or.inl hp) (by rw [hc.text₁]; omega) (by rw [hc.size₂]; omega)).bind ?_
  rintro _ _ (_ | @⟨q, hq⟩)
  · exact .pure (.failed _)
  · dsimp only
    rw [hc.slice]
    cases includes with
    | false => exact .pure (.matched hq _)
    | true =>
      refine (ha hc target hq.site acts false).step (fun stop r hstop => ?_) fun d => .pure (.failed d)
      exact .pure (.matched (hstop.mono hq.le) _)

/-! ## Nodes and attempts -/

/-- **Nodes match in the same way** on the text and on the whole, if they depend on nothing but the text from their
place on. -/
theorem matchNode_moved (i : ExprId) (honward : (g.rule i).kind.isOnward = true) (hp : M.text.IsBoundary p) :
    M.Moved (M.Steps p) (matchNode a₁ c₁ i (g.rule i) p acts)
      (matchNode a₂ c₂ i (g.rule i) (M.distance + p) acts) := by
  have hmapped {j : ExprId} (f : Results → Results) :
      M.Moved (M.Steps p) (do let step ← a₁ c₁ j p acts false; return step.mapResults f)
        (do let step ← a₂ c₂ j (M.distance + p) acts false; return step.mapResults f) :=
    (ha hc j hp acts false).bind fun _ _ h => .pure (h.mapResults f)
  cases hk : (g.rule i).kind with
  | transform | keyword | stringStart | lineStart | wordStart | wordEnd | precededBy =>
    rw [hk] at honward
    exact absurd honward Bool.false_ne_true
  | literal | word | charsNotIn | pattern =>
    simp only [matchNode, hk]
    refine .pure ?_
    rw [hc.text₁, hc.text₂, whole, distance, matchToken_shift _ _ (by simp [hk])]
    exact .of_holds ⟨isBoundary_matchToken hp _, le_place_matchToken _ _ _⟩
  | stringEnd | lineEnd =>
    simp only [matchNode, hk]
    refine .pure ?_
    rw [hc.text₁, hc.text₂, whole, distance, testPosition_shift _ _ (by simp [hk])]
    exact .of_holds ⟨isBoundary_testPosition hp _, le_place_testPosition _ _ _⟩
  | empty | commit =>
    simp only [matchNode, hk]
    exact .pure (.matched (.self hp) _)
  | noMatch =>
    simp only [matchNode, hk]
    exact .pure (.failed _)
  | sequence children =>
    simp only [matchNode, hk]
    exact matchSequence_moved ha hc acts children true false (.self hp) _
  | orderedChoice children =>
    simp only [matchNode, hk]
    exact matchFirst_moved ha hc acts _ hp children none
  | longestChoice children =>
    simp only [matchNode, hk]
    exact matchLongest_moved ha hc acts _ hp children
  | each children =>
    simp only [matchNode, hk]
    exact matchEach_moved ha hc acts children hp
  | repetition child min max stop =>
    simp only [matchNode, hk]
    exact matchRepetition_moved ha hc acts _ child min max stop hp
  | optional child default =>
    simp only [matchNode, hk, hc.rule₁, hc.rule₂]
    exact (ha hc child hp acts false).step (fun stop r hstop => .pure (.matched hstop r)) fun d =>
      .pure (.matched (.self hp) _)
  | lookahead child =>
    simp only [matchNode, hk]
    exact (ha hc child hp acts true).recover.step (fun _ _ _ => .pure (.matched (.self hp) _)) fun d =>
      .pure (.failed d)
  | notAhead child =>
    simp only [matchNode, hk]
    exact (probe_moved ha hc child hp).step (fun _ _ _ => .pure (.failed _)) fun _ => .pure (.matched (.self hp) _)
  | forward label target =>
    cases target with
    | none =>
      simp only [matchNode, hk]
      exact Moved.halt (h := .unboundForward label) (by simp)
    | some target =>
      rw [matchNode_forward hc.plain₁.seedless hk, matchNode_forward hc.plain₂.seedless hk]
      exact ha hc target hp acts false
  | named child name accumulates =>
    simp only [matchNode, hk, hc.rule₁, hc.rule₂]
    exact hmapped _
  | group | dict | suppress =>
    simp only [matchNode, hk]
    exact hmapped _
  | combine child joiner =>
    simp only [matchNode, hk]
    exact (ha hc.combined child hp acts false).bind fun _ _ h => .pure (h.mapResults _)
  | originalText child =>
    simp only [matchNode, hk]
    refine (ha hc child hp acts false).step (fun stop r hstop => ?_) fun d => .pure (.failed d)
    dsimp only
    rw [hc.slice]
    exact .pure (.matched hstop _)
  | skipTo target includes failOn =>
    simp only [matchNode, hk]
    exact matchSkipTo_moved ha hc acts _ target includes failOn hp

theorem perform_moved (i : ExprId) (honward : (g.rule i).kind.isOnward = true) (hp : M.text.IsBoundary p)
    (skips : Bool) :
    M.Moved (M.Steps p) (perform a₁ c₁ i p acts skips) (perform a₂ c₂ i (M.distance + p) acts skips) := by
  have hrest {q : Nat} (hq : Sites.places.From M.text p q) : M.Moved (M.Steps p)
      (do let step ← matchNode a₁ c₁ i (g.rule i) q acts
          reportStep (c₁.watch.wants (g.rule i)) i q (step.mapResults (ResultsOf.withOrigin i))
          return step.mapResults (ResultsOf.withOrigin i))
      (do let step ← matchNode a₂ c₂ i (g.rule i) (M.distance + q) acts
          reportStep (c₂.watch.wants (g.rule i)) i (M.distance + q) (step.mapResults (ResultsOf.withOrigin i))
          return step.mapResults (ResultsOf.withOrigin i)) := by
    refine (matchNode_moved ha hc acts i honward hq.site).bind ?_
    intro x y hxy
    refine (Moved.unit (reportStep_sameTables _ _ _ _) (reportStep_sameTables _ _ _ _)).bind fun _ _ _ => ?_
    exact .pure ((hxy.mapResults _).mono hq.le)
  simp only [perform, hc.rule₁, hc.rule₂]
  refine (Moved.unit (reportTry_sameTables _ _ _ _) (reportTry_sameTables _ _ _ _)).bind fun _ _ _ => ?_
  cases skips with
  | false => exact hrest (.self hp)
  | true =>
    refine (skipLeading_moved ha hc (g.rule i) hp).bind ?_
    rintro q _ ⟨hq⟩
    exact hrest hq

omit ha hc in
/-- **One level deeper**: where the attempts of the children are moved, so are those of the nodes. -/
theorem Agrees.succ {n m : Nat} (ha : M.Agrees g (attemptWithin n) (attemptWithin m)) (honward : g.Onward) :
    M.Agrees g (attemptWithin (n + 1)) (attemptWithin (m + 1)) := by
  intro c₁ c₂ hc i p hp acts skips
  have hremember : M.Moved (M.Steps p) (remember (attemptWithin n) c₁.deeper i p acts skips)
      (remember (attemptWithin m) c₂.deeper i (M.distance + p) acts skips) := by
    intro s₁ s₂ hs₁ hs₂
    rw [remember_off hs₁, remember_off hs₂, ← hc.deeper.adjacent]
    exact perform_moved ha hc.deeper acts i (honward.rule i) hp _ s₁.counted s₂.counted hs₁ hs₂
  unfold attemptWithin
  rw [hc.limit₁, hc.limit₂, ← hc.depth]
  cases hlimit : M.limit with
  | none => exact hremember
  | some limit =>
    -- both are at the limit, or neither is
    by_cases hle : limit ≤ c₁.depth
    · simp only [hle, if_true]
      refine Moved.halt (h := .recursionLimit limit p) ?_
      rintro _ _ ⟨⟩
      exact hlimit
    · simp only [hle, if_false]
      exact hremember

omit ha hc in
/-- Attempts are moved that have the same room. -/
theorem attemptWithin_moved (M : Move) {g : Grammar} (honward : g.Onward) (n : Nat) :
    M.Agrees g (attemptWithin n) (attemptWithin n) := by
  induction n with
  | zero => exact fun _ _ _ _ _ _ _ _ => Moved.halt (h := .endless) (by simp)
  | succ n ih => exact ih.succ honward

end Move
end Packrat
