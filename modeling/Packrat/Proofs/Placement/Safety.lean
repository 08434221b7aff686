import Packrat.Proofs.Depth.Growth
import Packrat.Proofs.Placement.Checked
import Packrat.Proofs.Placement.Runs

/-!
# `Packrat.Proofs.Placement.Safety` — no check of a position ever fails

Attempts end at places of the text, so whatever is checked of them holds: a run with checks is the run without them.
The two are compared in two steps. An attempt that is performed by attempts with checks is the same as one that is
performed by attempts without, because all attempts that it makes are the same; and since those end at places, the
checks between them hold.

## Contents

* `SameOn` — computations that are the same where all that is remembered lies at places;
* `matchNode_same`, `perform_same` — one attempt with checks, given attempts that end at places;
* `attemptWithin_same` — **attempts pass all checks**;
* `parse_same`, `collect_same`, `replace_eq` — and so do parses, scans and replacements;
* `isSome_markLine?` — the line of a failure can be cut at the failure;
* `Grammar.KeepsToPlaces`, `keepsToPlaces` — **runs keep to the places of the text**.
-/

namespace Packrat

/-! ## Computations that are the same -/

/-- Two computations are the same, and give values with `P`, from every state in which all that is remembered lies at
places of the text. -/
def SameOn {α : Type} (t : Text) (P : α → Prop) (m m' : MatchM α) : Prop :=
  Concur (State.Placed .places t) (fun _ => True) P m m'

namespace SameOn

variable {α β : Type} {t : Text} {P P' : α → Prop} {Q : β → Prop} {m m' : MatchM α} {f f' : α → MatchM β}

/-- A computation is the same as itself. -/
theorem self {H : Halt → Prop} (h : Keeps (State.Placed .places t) H P m) : SameOn t P m m :=
  Concur.refl (h.mono (fun _ => id) fun _ _ => trivial)

theorem pure {a : α} (h : P a) : SameOn t P (pure a) (pure a) := Concur.pure h

theorem bind (hm : SameOn t P m m') (hf : ∀ a, P a → SameOn t Q (f a) (f' a)) : SameOn t Q (m >>= f) (m' >>= f') :=
  Concur.bind hm hf

theorem mono (hm : SameOn t P m m') (hP : ∀ a, P a → P' a) : SameOn t P' m m' := Concur.mono hm hP fun _ => id

theorem trans {m'' : MatchM α} (h : SameOn t P m m') (h' : SameOn t P' m' m'') : SameOn t P' m m'' := by
  refine ⟨fun s hs => ?_, fun s hs => (h.eq s hs).trans (h'.eq s hs)⟩
  rw [h.eq s hs]
  exact h'.keeps s hs

/-- What is checked holds. -/
theorem check {e : Halt} {holds : Prop} [Decidable holds] (h : holds) (hm : SameOn t P m m') :
    SameOn t P m (Checked.require e holds >>= fun _ => m') := by
  rw [Checked.require, if_pos h]
  exact hm

/-- What follows an attempt is the same when it is after a match and after a failure. -/
theorem step {p : Nat} {m m' : MatchM Step} {f f' : Step → MatchM β} (hm : SameOn t (Sites.places.Holds t p) m m')
    (hmatched : ∀ stop r, Sites.places.From t p stop → SameOn t Q (f (.matched stop r)) (f' (.matched stop r)))
    (hfailed : ∀ d, Sites.places.From t p d.position → SameOn t Q (f (.failed d)) (f' (.failed d))) :
    SameOn t Q (m >>= f) (m' >>= f') := by
  refine hm.bind ?_
  intro step hstep
  cases step with
  | matched stop r => exact hmatched stop r hstep
  | failed d => exact hfailed d hstep

end SameOn

/-! ## Matching with checks -/

namespace Checked

open Upkeep

variable {g : Grammar} {a : Attempt} {c : Context} {p start : Nat} (e : Halt)

/-- A terminal cuts the rest of the text at places of it. -/
theorem isBoundary_of_mem_tokenCuts {rule : Rule} {rest : Text} {n : Nat} (h : n ∈ tokenCuts rule rest) :
    rest.IsBoundary n := by
  unfold tokenCuts at h
  cases hk : rule.kind with
  | keyword text caseless identChars =>
    rw [hk] at h
    obtain ⟨x, y, rfl, rfl⟩ := matchLiteral?_eq_some (Option.mem_toList.mp h)
    exact Text.isBoundary_iff.mpr ⟨x, y, rfl, rfl⟩
  | word init body min max =>
    rw [hk] at h
    cases rest with
    | nil => exact absurd h List.not_mem_nil
    | cons c r =>
      obtain ⟨y, hy⟩ := takeRun_prefix body.contains (max.map (· - 1)) r
      obtain rfl := List.mem_singleton.mp h
      exact Text.isBoundary_iff.mpr ⟨_, y, congrArg (c :: ·) hy, rfl⟩
  | charsNotIn excluded min max =>
    rw [hk] at h
    obtain ⟨y, hy⟩ := takeRun_prefix (fun c => !excluded.contains c) max rest
    obtain rfl := List.mem_singleton.mp h
    exact Text.isBoundary_iff.mpr ⟨_, y, hy, rfl⟩
  | _ =>
    rw [hk] at h
    exact absurd h List.not_mem_nil

/-- Positions that are all places pass their checks. -/
theorem forM_cut {t : Text} {cuts : List Nat} (h : ∀ n ∈ cuts, t.IsBoundary n) : cuts.forM (cut e t) = pure () := by
  induction cuts with
  | nil => rfl
  | cons n cuts ih =>
    have hn : cut e t n = pure () := if_pos (h n List.mem_cons_self)
    show (cut e t n >>= fun _ => cuts.forM (cut e t)) = pure ()
    rw [hn, ih fun m hm => h m (List.mem_cons_of_mem _ hm)]
    rfl

theorem matchToken_same (rule : Rule) {t : Text} (hp : t.IsBoundary start) :
    SameOn t (Sites.places.Holds t start) (Pure.pure (Packrat.matchToken rule t start)) (matchToken e rule t start) := by
  unfold matchToken
  refine SameOn.check hp ?_
  rw [forM_cut e fun n hn => isBoundary_of_mem_tokenCuts hn]
  exact SameOn.pure ⟨isBoundary_matchToken hp rule, le_place_matchToken rule t start⟩

theorem testPosition_same (rule : Rule) {t : Text} (hp : t.IsBoundary start) :
    SameOn t (Sites.places.Holds t start) (Pure.pure (Packrat.testPosition rule t start))
      (testPosition e rule t start) :=
  SameOn.check hp (SameOn.pure ⟨isBoundary_testPosition hp rule, le_place_testPosition rule t start⟩)

theorem next_eq {t : Text} (hp : t.IsBoundary p) : next e t p = Pure.pure (t.next p) := by
  rw [next, cut, require, if_pos hp]
  rfl

theorem skip_eq (set : Char → Bool) {t : Text} (hp : t.IsBoundary p) : skip e set t p = Pure.pure (t.skip set p) := by
  rw [skip, cut, require, if_pos hp]
  rfl

section Matching

variable (ha : (Upkeep.places g).Sound a) (hg : c.grammar = g)
include ha hg

theorem skipLeading_same (rule : Rule) (hp : c.text.IsBoundary p) :
    SameOn c.text (Sites.places.From c.text p) (Packrat.skipLeading a c rule p) (skipLeading e a c rule p) := by
  unfold Packrat.skipLeading skipLeading
  refine (SameOn.self (skipIgnorables_quiet ha hg (fun _ _ => trivial) hp)).bind fun q hq => ?_
  cases rule.skipsWhitespace with
  | false => exact SameOn.pure hq
  | true =>
    simp only [if_true, skip_eq e _ hq.site]
    exact SameOn.pure ⟨hq.site.skip _, hq.le.trans (Text.le_skip _ _ _)⟩

theorem atTextStart_same (rule : Rule) (start : Nat) :
    SameOn c.text (fun _ => True) (Packrat.atTextStart a c rule start) (atTextStart e a c rule start) := by
  unfold Packrat.atTextStart atTextStart
  by_cases h : start = 0
  · simp only [h, if_true]
    exact SameOn.pure trivial
  · simp only [h, if_false]
    exact (skipLeading_same e ha hg rule c.text.isBoundary_zero).bind fun q _ => SameOn.pure trivial

/-- A place that was found, or none. -/
def FoundAt (t : Text) (start : Nat) (x : Option Nat) : Prop := ∀ q ∈ x, Sites.places.From t start q

omit ha hg in
theorem foundAt_some {t : Text} {q : Nat} (h : Sites.places.From t start q) : FoundAt t start (some q) := by
  intro q' hq'
  obtain rfl := Option.some.inj hq'
  exact h

theorem tryTarget_same (target : ExprId) {again again' : Nat → MatchM (Option Nat)}
    (hagain : ∀ {loc}, Sites.places.From c.text start loc ∨ c.text.size < loc →
      SameOn c.text (FoundAt c.text start) (again loc) (again' loc))
    {loc : Nat} (hloc : Sites.places.From c.text start loc) :
    SameOn c.text (FoundAt c.text start) (Packrat.tryTarget a c target again loc)
      (tryTarget e a c target again' loc) := by
  unfold Packrat.tryTarget tryTarget
  refine (SameOn.self (skipIgnorables_quiet ha hg (fun _ _ => trivial) hloc.site)).bind fun q hq => ?_
  have hplace : c.text.IsBoundary q := hq.site
  have hattempt : (Upkeep.places g).Run c q (Sites.places.Holds c.text q) (a c target q false false) :=
    ha hg trivial hplace
  refine (SameOn.self hattempt.recover).step (fun _ _ _ => SameOn.pure (foundAt_some (hq.mono hloc.le))) fun _ _ => ?_
  show SameOn c.text (FoundAt c.text start) (again (c.text.next q)) (next e c.text q >>= fun q' => again' q')
  rw [next_eq e hplace]
  refine hagain ?_
  rcases hplace.next with hnext | hnext
  · exact Or.inl ⟨hnext, (hloc.le.trans hq.le).trans (Text.lt_next _ _).le⟩
  · exact Or.inr hnext

theorem findAhead_same (target : ExprId) (failOn : Option ExprId) (fuel : Nat) {loc : Nat}
    (hloc : Sites.places.From c.text start loc ∨ c.text.size < loc) :
    SameOn c.text (FoundAt c.text start) (Packrat.findAhead a c target failOn fuel loc)
      (findAhead e a c target failOn fuel loc) := by
  induction fuel generalizing loc with
  | zero => exact SameOn.pure (by simp [FoundAt])
  | succ fuel ih =>
    rw [Packrat.findAhead, findAhead]
    by_cases hsize : c.text.size < loc
    · rw [if_pos hsize, if_pos hsize]
      exact SameOn.pure (by simp [FoundAt])
    · rw [if_neg hsize, if_neg hsize]
      have hloc := hloc.resolve_right hsize
      have htry := tryTarget_same e ha hg target ih hloc
      cases failOn with
      | none => exact htry
      | some i =>
        have hprobe := probe_quiet ha hg (i := i) trivial hloc.site
        exact (SameOn.self hprobe).step (fun _ _ _ => SameOn.pure (foundAt_some hloc)) fun _ _ => htry

theorem matchSkipTo_same (rule : Rule) (target : ExprId) (includes : Bool) (failOn : Option ExprId)
    (hp : c.text.IsBoundary start) (acts : Bool) :
    SameOn c.text (Sites.places.Holds c.text start)
      (Packrat.matchSkipTo a c rule target includes failOn start acts)
      (matchSkipTo e a c rule target includes failOn start acts) := by
  unfold Packrat.matchSkipTo matchSkipTo
  refine (findAhead_same e ha hg target failOn _ (Or.inl (Sites.From.self hp))).bind ?_
  intro found hfound
  cases found with
  | none => exact SameOn.pure (Sites.From.self hp)
  | some loc =>
    have hloc := hfound loc rfl
    have hslice : (c.text.slice? start loc).isSome = true := by rw [hp.slice? hloc.site hloc.le, Option.isSome_some]
    refine SameOn.check hslice ?_
    cases includes with
    | false => exact SameOn.pure hloc
    | true =>
      refine (SameOn.self (ha hg trivial hloc.site)).step ?_ fun d hd => SameOn.pure (hd.mono hloc.le)
      exact fun stop part hstop => SameOn.pure (hstop.mono hloc.le)

/-- The ways of matching that only attempt other nodes check nothing. -/
theorem matchNode_same (i : ExprId) (hp : c.text.IsBoundary start) (acts : Bool) :
    SameOn c.text (Sites.places.Holds c.text start) (Packrat.matchNode a c i (g.rule i) start acts)
      (matchNode e a c i (g.rule i) start acts) := by
  have hsame := SameOn.self (matchNode_run ha hg (i := i) trivial hp acts)
  have hslice {stop : Nat} (h : Sites.places.From c.text start stop) : (c.text.slice? start stop).isSome = true := by
    rw [hp.slice? h.site h.le, Option.isSome_some]
  cases hk : (g.rule i).kind with
  | literal | keyword | word | charsNotIn | pattern =>
    simp only [Packrat.matchNode, matchNode, hk]
    exact matchToken_same e _ hp
  | stringEnd | lineStart | lineEnd | wordStart | wordEnd =>
    simp only [Packrat.matchNode, matchNode, hk]
    exact testPosition_same e _ hp
  | stringStart =>
    simp only [Packrat.matchNode, matchNode, hk]
    refine (atTextStart_same e ha hg _ start).bind fun b _ => ?_
    cases b with
    | true => exact SameOn.pure (Sites.From.self hp)
    | false => exact SameOn.pure (Sites.From.self hp)
  | precededBy child retreat =>
    simp only [Packrat.matchNode, matchNode, hk] at hsame ⊢
    exact SameOn.check hp hsame
  | transform child action =>
    simp only [Packrat.matchNode, matchNode, hk]
    refine (SameOn.self (ha hg trivial hp)).step ?_ fun d hd => SameOn.pure hd
    intro stop r hstop
    refine SameOn.check (hslice hstop) ?_
    cases acts with
    | false => exact SameOn.pure hstop
    | true => exact SameOn.self (runAction_run (U := Upkeep.places g) trivial hk hstop hp r)
  | originalText child =>
    simp only [Packrat.matchNode, matchNode, hk]
    refine (SameOn.self (ha hg trivial hp)).step ?_ fun d hd => SameOn.pure hd
    exact fun stop r hstop => SameOn.check (hslice hstop) (SameOn.pure hstop)
  | skipTo target includes failOn =>
    simp only [Packrat.matchNode, matchNode, hk]
    exact matchSkipTo_same e ha hg _ target includes failOn hp acts
  | _ =>
    have hsimply : matchNode e a c i (g.rule i) start acts = Packrat.matchNode a c i (g.rule i) start acts := by
      simp only [matchNode, hk]
    rw [hsimply]
    exact hsame

theorem perform_same (i : ExprId) (hp : c.text.IsBoundary p) (acts skips : Bool) :
    SameOn c.text (Sites.places.Holds c.text p) (Packrat.perform a c i p acts skips)
      (perform e a c i p acts skips) := by
  have hrule : c.rule i = g.rule i := by rw [Context.rule, hg]
  have hunit {m : MatchM Unit} (h : ∀ s, ∃ s', m s = .ok () s' ∧ s'.SameTables s) :
      SameOn c.text (fun _ => True) m m :=
    SameOn.self (note_run (U := Upkeep.places g) (p := p) h)
  have hrest {q : Nat} (hq : Sites.places.From c.text p q) : SameOn c.text (Sites.places.Holds c.text p)
      (do let step ← Packrat.matchNode a c i (g.rule i) q acts
          reportStep (c.watch.wants (g.rule i)) i q (step.mapResults (ResultsOf.withOrigin i))
          return step.mapResults (ResultsOf.withOrigin i))
      (do reaches e c.text p q
          let step ← matchNode e a c i (g.rule i) q acts
          reaches e c.text q step.place
          reportStep (c.watch.wants (g.rule i)) i q (step.mapResults (ResultsOf.withOrigin i))
          return step.mapResults (ResultsOf.withOrigin i)) := by
    refine SameOn.check ⟨hq.le, hq.site⟩ ((matchNode_same e ha hg i hq.site acts).bind fun step hstep => ?_)
    refine SameOn.check ⟨hstep.le, hstep.site⟩ ((hunit (reportStep_sameTables _ _ _ _)).bind fun _ _ => ?_)
    exact SameOn.pure ((hstep.mono hq.le).mapResults _)
  simp only [Packrat.perform, perform, hrule]
  refine (hunit (reportTry_sameTables _ _ _ _)).bind fun _ _ => ?_
  cases skips with
  | false => exact hrest (Sites.From.self hp)
  | true => exact (skipLeading_same e ha hg _ hp).bind fun q hq => hrest hq

end Matching

/-! ## Attempts -/

/-- Attempts that are the same at the places of a text. -/
def SameAttempts (g : Grammar) (a a' : Attempt) : Prop :=
  ∀ ⦃c i p acts skips⦄, c.grammar = g → c.text.IsBoundary p →
    SameOn c.text (Sites.places.Holds c.text p) (a c i p acts skips) (a' c i p acts skips)

/-- Two runs in one context, in which nothing needs to be known of what may be empty. -/
@[reducible] def placesTwin (a a' : Attempt) (c : Context) (hc : c.grammar = g) : Twin g where
  inv := State.Placed .places c.text
  halts _ := True
  first := a
  second := a'
  c₁ := c
  c₂ := c
  empty _ := true
  grammar := hc
  peers := .refl c
  stable := fun hs ht => hs.congr ht
  ordinary _ _ := trivial
  nullable _ _ := rfl

/-- A seed grows from states in which all that is remembered lies at places, and to such states. -/
theorem growth_placed {t : Text} {keys : SeedKeys} (hp : t.IsBoundary keys.position) (acts : Bool) :
    Growth (State.Placed .places t) (State.Placed .places t) (fun _ => True) (Sites.places.Holds t keys.position) t
      keys acts where
  start := hp.le_size
  ends h := ⟨h.le, h.site.le_size⟩
  first := Sites.From.self hp
  answered hs hget := hs.seeds _ _ hget
  opens hs _ := by
    have hfirst : Sites.places.Holds t keys.position (firstSeed keys.position) := Sites.From.self hp
    cases acts with
    | false => exact hs.insertSeed _ hfirst
    | true => exact (hs.insertSeed (keys.key false) hfirst).insertSeed (keys.key true) hfirst
  grown hs := ⟨hs.memo, hs.seeds⟩
  put hs hstep _ := hs.insertSeed _ hstep
  held hs hget := hs.seeds _ _ hget
  leaves hs := hs
  closes hs := by
    cases acts with
    | false => exact hs.eraseSeed _
    | true => exact (hs.eraseSeed (keys.key false)).eraseSeed (keys.key true)

theorem lands_of_holds {t : Text} {step : Step} (h : Sites.places.Holds t p step) {E : Prop} (hE : E) :
    step.Lands t p E := by
  cases step with
  | matched stop r => exact ⟨h.site, h.le, fun _ => hE⟩
  | failed d => trivial

section Attempts

variable {a' : Attempt} (h : SameAttempts g a a') (hg : c.grammar = g)
include h hg

theorem meets_of_same {j : ExprId} (hp : c.text.IsBoundary p) (acts : Bool) :
    (placesTwin a a' c hg).Meets acts j p := by
  intro b skips _
  exact (h hg hp).mono fun step hstep => lands_of_holds hstep rfl

/-- Every attempt that the match of a node can make is the same. -/
theorem serves_of_same {i : ExprId} (hp : c.text.IsBoundary p) (acts : Bool) :
    (placesTwin a a' c hg).Serves i p acts := by
  have hmeets (b : Bool) (q : Nat) (j : ExprId) (hq : c.text.IsBoundary q) : (placesTwin a a' c hg).Meets b j q :=
    meets_of_same h hg hq b
  apply Twin.Serves.of_everywhere hmeets hp fun _ => rfl
  · intro child
    have hc : c.combined.grammar = g := hg
    exact meets_of_same h hc hp acts
  · intro child
    have hc : (c.behind p).grammar = g := hg
    refine ⟨State.Placed .places (c.behind p).text, ?_, ?_⟩
    · exact fun s hs => (State.Placed.initial _ _ c.config).congr hs
    · exact fun q hq => (h hc hq).mono fun _ _ => trivial
  · intro label target hk
    by_cases hmode : c.config.memoization = .leftRecursion
    · simp only [Packrat.matchNode, hk, hmode, if_true]
      have hgrowth := @growth_placed c.text ⟨p, i⟩ hp acts
      have hgrow : SameOn c.text (Sites.places.Holds c.text p) (growSeed a c (g.rule i) i target p acts)
          (growSeed a' c (g.rule i) i target p acts) := growSeed_same hgrowth (fun b _ => h hg hp) rfl rfl (Or.inl fun _ _ => trivial)
      exact hgrow.mono fun step hstep => lands_of_holds hstep trivial
    · rw [matchNode_forward hmode hk, matchNode_forward hmode hk]
      exact hmeets acts p target hp acts false id

variable (ha : (Upkeep.places g).Sound a)
include ha

omit hg in
theorem sound_of_same : (Upkeep.places g).Sound a' := by
  intro c i p acts skips hg _ hp s hs
  rw [← (h hg hp).eq s hs]
  exact ha hg trivial hp s hs

theorem skipLeading_checked (i : ExprId) (hp : c.text.IsBoundary p) :
    SameOn c.text (Sites.places.From c.text p) (Packrat.skipLeading a c (g.rule i) p)
      (skipLeading e a' c (g.rule i) p) := by
  have htwin : SameOn c.text (Advance c.text p True) (Packrat.skipLeading a c (g.rule i) p)
      (Packrat.skipLeading a' c (g.rule i) p) :=
    Twin.skipLeading_same (serves_of_same h hg hp false (i := i)).skipped hp
  exact htwin.trans (skipLeading_same e (sound_of_same h ha) hg _ hp)

/-- Attempts that are performed with checks, by attempts with checks, are the same. -/
theorem perform_checked (i : ExprId) (hp : c.text.IsBoundary p) (acts skips : Bool) :
    SameOn c.text (Sites.places.Holds c.text p) (Packrat.perform a c i p acts skips)
      (perform e a' c i p acts skips) := by
  have htwin : SameOn c.text (Step.Lands c.text p (true = true)) (Packrat.perform a c i p acts skips)
      (Packrat.perform a' c i p acts skips) :=
    Twin.perform_same (D := placesTwin a a' c hg) (fun q _ hq => serves_of_same h hg hq acts) hp skips
  exact htwin.trans (perform_same e (sound_of_same h ha) hg i hp acts skips)

/-- What is remembered passes its check. -/
theorem remember_checked (i : ExprId) (hp : c.text.IsBoundary p) (acts skips : Bool) :
    SameOn c.text (Sites.places.Holds c.text p) (Packrat.remember a c i p acts skips)
      (remember e a' c i p acts skips) := by
  have hperform (b : Bool) := perform_checked e h hg ha i hp acts b
  unfold Packrat.remember remember
  refine SameOn.bind (P := fun _ => True)
    (SameOn.self (note_run (U := Upkeep.places g) (p := p) fun s => ⟨_, rfl, s.counted_sameTables⟩)) fun _ _ => ?_
  refine SameOn.bind (P := fun _ => True) (SameOn.self (H := fun _ => True) fun s hs => ⟨trivial, hs⟩) fun on _ => ?_
  cases on with
  | false => exact hperform _
  | true =>
    refine (SameOn.self (consult_placed (H := fun _ => True) _)).bind fun found hfound => ?_
    cases found with
    | some step =>
      have hstep : Sites.places.Holds c.text p step := hfound step rfl
      exact SameOn.check ⟨hstep.le, hstep.site⟩ (SameOn.pure hstep)
    | none =>
      refine (hperform _).bind fun step hstep => ?_
      let key : MemoKey := ⟨i, p, acts, skips && !c.adjacent, c.adjacent⟩
      have hstore : Keeps (State.Placed .places c.text) (fun _ => True) (fun _ => True) (store key step) :=
        store_placed hstep
      exact (SameOn.self hstore).bind fun _ _ => SameOn.pure hstep

end Attempts

/-- **Attempts pass all checks**, in every mode. -/
theorem attemptWithin_same (g : Grammar) (n : Nat) :
    SameAttempts g (Packrat.attemptWithin n) (attemptWithin e n) := by
  induction n with
  | zero => exact fun c i p acts skips _ _ => Concur.halt trivial
  | succ n ih =>
    intro c i p acts skips hg hp
    have hdeep : c.deeper.grammar = g := hg
    have hremember := remember_checked e ih hdeep (attemptWithin_sound (Upkeep.places g) n) i hp acts skips
    rw [Packrat.attemptWithin, attemptWithin]
    refine SameOn.check hp ?_
    cases c.config.recursionLimit with
    | none => exact hremember
    | some limit =>
      dsimp only
      split
      · exact Concur.halt trivial
      · exact hremember

/-! ## Runs -/

theorem attempt_same (c : Context) : SameAttempts g (Packrat.attempt c) (attempt e c) := attemptWithin_same e g _

theorem matchRoot_same (hg : c.grammar = g) (all : Bool) :
    SameOn c.text (fun _ => True) (Packrat.matchRoot c all) (matchRoot e c all) := by
  have ha : (Upkeep.places g).Sound (Packrat.attempt c) := attemptWithin_sound _ _
  unfold Packrat.matchRoot matchRoot
  simp only [hg]
  refine (attempt_same e c hg c.text.isBoundary_zero).step ?_ fun _ _ => SameOn.pure trivial
  intro stop r hstop
  cases all with
  | false => exact SameOn.pure trivial
  | true =>
    simp only [Bool.not_true, Bool.false_eq_true, if_false]
    refine (skipLeading_checked e (attempt_same e c) hg ha g.root hstop.site).bind fun q hq => ?_
    have hplace : c.text.IsBoundary q := hq.site
    rw [skip_eq e _ hplace]
    refine SameOn.self (H := fun _ => True) ?_
    split
    · exact Keeps.pure trivial
    · exact Keeps.pure trivial

theorem attemptAt_same (hg : c.grammar = g) (hp : c.text.IsBoundary p) :
    SameOn c.text (fun _ => True) (Scan.attemptAt c p) (attemptAt e c p) := by
  have ha : (Upkeep.places g).Sound (Packrat.attempt c) := attemptWithin_sound _ _
  unfold Scan.attemptAt attemptAt
  simp only [hg]
  refine (skipLeading_checked e (attempt_same e c) hg ha g.root hp).bind fun start hstart => ?_
  refine SameOn.check ⟨hstart.le, hstart.site⟩ ?_
  refine (attempt_same e c hg hstart.site).bind fun step hstep => ?_
  exact SameOn.check ⟨hstep.le, hstep.site⟩ (SameOn.pure trivial)

/-- A parse passes all checks. -/
theorem parse_same (p : Parser) (t : Text) (all : Bool) : parse e p t all = p.parse t all := by
  let c := Context.top p.grammar p.config p.watch (viewOf p.config t)
  let s : State := { p.state.forget with journal := [] }
  have hs : s.Placed .places c.text := State.Placed.forget _ _ _ _
  have hroot : Packrat.matchRoot c all s = matchRoot e c all s := (matchRoot_same e rfl all).eq s hs
  unfold parse Parser.parse
  simp only [EStateM.run]
  rw [show matchRoot e _ all _ = _ from hroot.symm]

variable {t : Text} {s : Scan}

/-- One step of a scan passes all checks. -/
theorem nextWithin_same (fuel : Nat) (h : (Upkeep.places g).Scanning t s) : nextWithin e fuel s = s.nextWithin fuel := by
  induction fuel generalizing s with
  | zero => rfl
  | succ fuel ih =>
    obtain ⟨c, state, p, done⟩ := s
    obtain ⟨hg, rfl, htables, hposition⟩ := h
    unfold nextWithin Scan.nextWithin
    by_cases hend : (done || decide (c.text.size < p)) = true
    · rw [if_pos hend, if_pos hend]
    · rw [if_neg hend, if_neg hend]
      have hp : c.text.IsBoundary p := hposition.resolve_right fun hlt => hend (by simp [hlt])
      have hrun := attemptAt_run (U := Upkeep.places g) trivial hg hp state htables
      have hsame := (attemptAt_same e hg hp).eq state htables
      have hagain {start : Nat} {state' : State} (hstart : Sites.places.From c.text p start)
          (hs' : state'.Placed .places c.text) :
          nextWithin e fuel ⟨c, state', c.text.next start, done⟩
            = Scan.nextWithin fuel ⟨c, state', c.text.next start, done⟩ :=
        ih ⟨hg, rfl, hs', hstart.site.next⟩
      simp only [EStateM.run, ← hsame]
      cases hr : Scan.attemptAt c p state with
      | error halt state' => rfl
      | ok x state' =>
        obtain ⟨start, step⟩ := x
        rw [hr] at hrun
        obtain ⟨⟨hstart, -⟩, hs'⟩ := hrun
        cases step with
        | failed d => exact hagain hstart hs'
        | matched stop r =>
          dsimp only
          split
          · rfl
          · exact hagain hstart hs'

/-- A scan passes all checks. -/
theorem collect_same (n : Nat) (h : (Upkeep.places g).Scanning t s) : collect e n s = s.collect n := by
  induction n generalizing s with
  | zero => rfl
  | succ n ih =>
    have hnext := nextWithin_steps trivial (s.context.text.size + 2) h
    unfold collect Scan.collect
    rw [nextWithin_same e _ h, Scan.next]
    rcases hx : s.nextWithin (s.context.text.size + 2) with ⟨_ | item, s'⟩
    · rfl
    · rw [hx] at hnext
      simp only [ih hnext.1]

/-- The items of a scan lie one after the other, so the text can be cut between them. -/
theorem replace_eq {p : Nat} {items : List (Item × Nat)} (hp : t.IsBoundary p)
    (h : (Upkeep.places g).YieldsFrom t p items) :
    replace t p (items.map (·.1)) = some ((matchesOf (items.map (·.1))).map (replaceFrom t p)) := by
  induction items generalizing p with
  | nil =>
    show (t.drop? p).map Except.ok = some (.ok (t.rest p))
    rw [hp.drop?]
    rfl
  | cons x items ih =>
    obtain ⟨item, q⟩ := x
    obtain ⟨hitem, hrest⟩ := h
    cases item with
    | error err => rfl
    | ok f =>
      obtain ⟨hstart, hstop, rfl⟩ := hitem
      have hslice : t.slice? p f.start = some (t.slice p f.start) := hp.slice? hstart.site hstart.le
      have hmatches : matchesOf (.ok f :: items.map (·.1)) = (matchesOf (items.map (·.1))).map (f :: ·) := by
        rw [matchesOf, matchesOf, List.mapM_cons]
        cases (items.map (·.1)).mapM id with
        | error err => rfl
        | ok fs => rfl
      rw [List.map_cons, hmatches, replace, hslice, ih hstop.site hrest]
      cases matchesOf (items.map (·.1)) with
      | error err => rfl
      | ok fs => rfl

end Checked

/-! ## Reports -/

theorem Halt.position?_toError (h : Halt) (t : Text) : (h.toError t).position? = h.position? := by
  cases h <;> rfl

/-- The line of a failure can be cut where the failure lies in it. -/
theorem isSome_markLine? {t : Text} {d : Diagnostic} (h : t.IsBoundary d.position) (marker : String) :
    ((Report.of t d).markLine? marker).isSome = true := by
  let r := Report.of t d
  have hposition : min d.position t.size = d.position := min_eq_left h.le_size
  have hcut : r.lineText.IsBoundary (min r.lineOffset r.lineText.size) := by
    show ((Lines.ofText t).text t _).IsBoundary
      (min (min d.position t.size - ((Lines.ofText t).start? _).getD 0) ((Lines.ofText t).text t _).size)
    rw [hposition, Lines.text]
    cases (Lines.ofText t).start? _ with
    | none =>
      rw [show min (d.position - none.getD 0) (Text.size []) = 0 from Nat.min_zero _]
      exact Text.isBoundary_zero _
    | some start => exact h.in_slice start _
  show (r.markLine? marker).isSome = true
  simp only [Report.markLine?, hcut.take?, hcut.drop?]
  rfl

/-! ## Safety -/

/-- A grammar whose runs keep to the places of the text: every attempt is made at a place, starts to match at a place
not before that, and matches up to a place, or fails at one, not before it started; and no cut of the text fails. -/
structure Grammar.KeepsToPlaces (g : Grammar) : Prop where
  /-- Parses pass all checks, whatever a check that fails would halt with. -/
  parse : ∀ e config watch state t all,
    Checked.parse e ⟨g, config, watch, state⟩ t all = Parser.parse ⟨g, config, watch, state⟩ t all
  /-- So do scans. -/
  scan : ∀ e config watch t n, Checked.collect e n (Scan.new g config watch t) = (Scan.new g config watch t).collect n
  /-- A text can be cut where its matches are replaced. -/
  replace : ∀ config watch t,
    Checked.replace t 0 (Scan.new g config watch t).collectAll.1 = some (Scan.new g config watch t).replace
  errors : g.EndsWith fun t e => ∀ p ∈ e.position?, p ≤ t.size ∧ t.IsBoundary p
  /-- The line of an error can be cut to mark it. -/
  marks : g.EndsWith fun _ e => ∀ r ∈ e.report?, ∀ marker, (r.markLine? marker).isSome = true

/-- **Runs keep to the places of the text**, in every mode: no check of a position ever fails, and errors lie at
places too. -/
theorem keepsToPlaces (g : Grammar) : g.KeepsToPlaces := by
  let U : Upkeep g := Upkeep.within (Grammar.Closed.all g)
  have hends : g.EndsWith U.Raises := U.endsWith trivial
  have hscanning (config : Config) (watch : Watch) (t : Text) :
      (Upkeep.places g).Scanning t (Scan.new g config watch t) := Upkeep.Scanning.new config watch t
  refine ⟨fun e config watch state t all => Checked.parse_same e _ t all,
    fun e config watch t n => Checked.collect_same e n (hscanning config watch t), ?_, hends.mono ?_, hends.mono ?_⟩
  · intro config watch t
    let s := Scan.new g config watch t
    have hyields : (Upkeep.places g).YieldsFrom t 0 (s.collect s.itemBound).1 :=
      Upkeep.collect_yields trivial s.itemBound (hscanning config watch t)
    exact Checked.replace_eq t.isBoundary_zero hyields
  · intro t err herr p hp
    have hplace : t.IsBoundary p := by
      cases herr with
      | mismatch hd =>
        obtain rfl := Option.some.inj hp
        exact hd.site
      | @halt h hh =>
        rw [Halt.position?_toError] at hp
        exact hh.position p hp
    exact ⟨hplace.le_size, hplace⟩
  · intro t err herr r hr marker
    cases herr with
    | mismatch hd =>
      obtain rfl := Option.some.inj hr
      exact isSome_markLine? hd.site marker
    | @halt h hh =>
      cases h with
      | committed d =>
        obtain rfl := Option.some.inj hr
        exact isSome_markLine? (hh.committed d rfl).site marker
      | _ => exact absurd hr (by simp [Halt.toError, ParseError.report?])

end Packrat
