import Packrat.Trace
import Packrat.Proofs.Dispatch.Assembled
import Packrat.Proofs.Memory.Count

/-!
# `Packrat.Proofs.Dispatch.Brackets` — whether what is told of attempts is bracketed

Who watches a parse is told where an attempt begins and where it matches or fails, but not where it halts. A halt that
nothing recovers from ends the parse, and the attempts that were open remain so. One that is recovered from does not end
it: the parse goes on to a match or a failure, and what was told has more beginnings than ends. To see that these are
all the exceptions, a run is compared with the one in which nothing recovers from a halt of an attempt. As long as this
one goes on, both are the same and every attempt that is over is closed; once it has ended, more attempts remain open in
the other one than there were.

## Contents

* `Bracketed`, `unclosed` — bracketed events, and how many attempts are left open;
* `Shadow`, `Shadows` — how a strict run and the run itself may end, and how this composes;
* `Assembled.shadows`, `perform_shadows`, `remember_shadows`, `attemptWithin_shadows` — runs of attempts;
* `events_bracketed_iff` — **events are bracketed where no attempt halts, and only there**.
-/

namespace Packrat

/-! ## Bracketed events -/

namespace Event

/-- Tells the end of an attempt of a node. -/
def Closes (i : ExprId) : Event → Prop
  | .matched j _ _ _ => j = i
  | .failed j _ => j = i
  | _ => False

/-- Tells neither the beginning nor the end of an attempt that is watched. -/
def IsRemark : Event → Prop
  | .passed _ _ => True
  | .note _ => True
  | _ => False

/-- What an event adds to the attempts that are open. -/
def opening : Event → Int
  | .tried _ _ => 1
  | .matched _ _ _ _ => -1
  | .failed _ _ => -1
  | _ => 0

theorem Closes.opening {i : ExprId} {e : Event} (h : e.Closes i) : e.opening = -1 := by
  cases e with
  | matched | failed => rfl
  | tried | passed | note => exact absurd h id

theorem IsRemark.opening {e : Event} (h : e.IsRemark) : e.opening = 0 := by
  cases e with
  | passed | note => rfl
  | tried | matched | failed => exact absurd h id

end Event

/-- Events in which the beginning of every attempt is closed by an end of an attempt of the same node, and between the
two is nothing but such pairs, and remarks. -/
inductive Bracketed : List Event → Prop
  | nil : Bracketed []
  | remark {e : Event} {es : List Event} (he : e.IsRemark) (h : Bracketed es) : Bracketed (e :: es)
  | attempt {i : ExprId} {p : Nat} {e : Event} {inner es : List Event} (hinner : Bracketed inner) (he : e.Closes i)
      (h : Bracketed es) : Bracketed (.tried i p :: (inner ++ e :: es))

/-- How many attempts events leave open. -/
def unclosed (events : List Event) : Int := (events.map Event.opening).sum

@[simp] theorem unclosed_nil : unclosed [] = 0 := rfl

@[simp] theorem unclosed_cons (e : Event) (es : List Event) : unclosed (e :: es) = e.opening + unclosed es := by
  simp [unclosed]

@[simp] theorem unclosed_append (es es' : List Event) : unclosed (es ++ es') = unclosed es + unclosed es' := by
  simp [unclosed]

@[simp] theorem unclosed_reverse (es : List Event) : unclosed es.reverse = unclosed es := by
  unfold unclosed
  rw [List.map_reverse, List.sum_reverse]

namespace Bracketed

variable {es es' : List Event}

theorem append (h : Bracketed es) (h' : Bracketed es') : Bracketed (es ++ es') := by
  induction h with
  | nil => exact h'
  | remark he _ ih => exact ih.remark he
  | attempt hinner he _ _ ih =>
    rw [List.cons_append, List.append_assoc, List.cons_append]
    exact attempt hinner he ih

theorem notes (lines : List String) : Bracketed (lines.map Event.note) := by
  induction lines with
  | nil => exact nil
  | cons line lines ih => exact ih.remark trivial

/-- Bracketed events leave nothing open. -/
theorem unclosed_eq (h : Bracketed es) : unclosed es = 0 := by
  induction h with
  | nil => rfl
  | remark he _ ih => rw [unclosed_cons, he.opening, ih, zero_add]
  | attempt _ he _ ihinner ih =>
    rw [unclosed_cons, unclosed_append, unclosed_cons, ihinner, ih, he.opening]
    rfl

end Bracketed

/-! ## States -/

namespace State

/-- How many of the attempts in the journal are open. -/
def unclosed (s : State) : Int := Packrat.unclosed s.journal

/-- A state in whose journal came only bracketed events since another one. -/
def ClosedSince (s' s : State) : Prop := ∃ es, Bracketed es ∧ s'.journal = es.reverse ++ s.journal

variable {s s' s'' : State}

theorem ClosedSince.of_journal (h : s'.journal = s.journal) : s'.ClosedSince s := ⟨[], .nil, h⟩

theorem ClosedSince.trans (h : s'.ClosedSince s) (h' : s''.ClosedSince s') : s''.ClosedSince s := by
  obtain ⟨es, hes, hs⟩ := h
  obtain ⟨es', hes', hs'⟩ := h'
  refine ⟨es ++ es', hes.append hes', ?_⟩
  rw [hs', hs, List.reverse_append, List.append_assoc]

theorem ClosedSince.unclosed_eq (h : s'.ClosedSince s) : s'.unclosed = s.unclosed := by
  obtain ⟨es, hes, hs⟩ := h
  rw [unclosed, hs, unclosed_append, unclosed_reverse, hes.unclosed_eq, zero_add]
  rfl

/-- Where nothing is attempted there are only notes of actions. -/
theorem Unattempted.closedSince (h : s'.Unattempted s) : s'.ClosedSince s := by
  obtain ⟨lines, hlines⟩ := h.journal
  refine ⟨(lines.map Event.note).reverse, ?_, ?_⟩
  · rw [← List.map_reverse]
    exact Bracketed.notes _
  · rw [List.reverse_reverse, hlines]

end State

/-! ## How runs end -/

/-- How a strict run and the run itself may end, from a state. Either both end alike, with all attempts closed that were
made in the meantime. Or the strict one has ended, and more attempts are open than were, unless the other one ends in a
halt that nothing recovers from. -/
inductive Shadow {α : Type} (s : State) : EStateM.Result Halt State α → EStateM.Result Halt State α → Prop
  | same {x : α} {s' : State} (hs : s'.ClosedSince s) : Shadow s (.ok x s') (.ok x s')
  | halt {h : Halt} {s' : State} (hs : s'.ClosedSince s) : Shadow s (.error h s') (.error h s')
  | goesOn {x : α} {s₁ s' : State} (hs : s.unclosed < s'.unclosed) : Shadow s (.error .endless s₁) (.ok x s')
  | commits {d : Diagnostic} {s₁ s' : State} (hs : s.unclosed < s'.unclosed) :
    Shadow s (.error .endless s₁) (.error (.committed d) s')
  | ends {h : Halt} {s₁ s' : State} (hh : h.isCommitted = false) : Shadow s (.error .endless s₁) (.error h s')

namespace Shadow

variable {α : Type} {s t s₁ s' : State} {r₁ r₂ : EStateM.Result Halt State α} {h : Halt}

/-- A halt of an attempt that is still open ends the strict run. -/
theorem halted (hs : s.unclosed < s'.unclosed) :
    Shadow s (.error .endless s₁) (.error h s' : EStateM.Result Halt State α) := by
  cases h with
  | committed d => exact commits hs
  | recursionLimit | growthLimit | unboundForward | action | outOfRange | endless => exact ends rfl

/-- What a state before has in common with the one where a part of a run starts. -/
theorem since (hs : s.ClosedSince t) (h : Shadow s r₁ r₂) : Shadow t r₁ r₂ := by
  have hunclosed := hs.unclosed_eq
  cases h with
  | same hs' => exact same (hs.trans hs')
  | halt hs' => exact halt (hs.trans hs')
  | goesOn hlt => exact goesOn (hunclosed ▸ hlt)
  | commits hlt => exact commits (hunclosed ▸ hlt)
  | ends hh => exact ends hh

/-- When the strict run has ended, and more attempts are open, this remains so. -/
theorem after (hs : t.unclosed < s.unclosed) (h : Shadow s r₁ r₂) : Shadow t (.error .endless s₁) r₂ := by
  cases h with
  | same hs' => exact goesOn (hs'.unclosed_eq ▸ hs)
  | halt hs' => exact halted (hs'.unclosed_eq ▸ hs)
  | goesOn hlt => exact goesOn (hs.trans hlt)
  | commits hlt => exact commits (hs.trans hlt)
  | ends hh => exact ends hh

/-- Where nothing was told before a run that goes on, what is told during it is bracketed if and only if the strict run
goes on, too. -/
theorem bracketed_iff {x : α} (hs : s.journal = []) (h : Shadow s r₁ (.ok x s')) :
    Bracketed s'.journal.reverse ↔ ∃ x s₁, r₁ = .ok x s₁ := by
  cases h with
  | same hsince =>
    obtain ⟨es, hes, hjournal⟩ := hsince
    rw [hjournal, hs, List.append_nil, List.reverse_reverse]
    exact ⟨fun _ => ⟨_, _, rfl⟩, fun _ => hes⟩
  | goesOn hlt =>
    constructor
    · intro hbracketed
      have hopen : s.unclosed = 0 := by
        rw [State.unclosed, hs, unclosed_nil]
      have hopen' : s'.unclosed = 0 := by
        rw [State.unclosed, ← unclosed_reverse, hbracketed.unclosed_eq]
      rw [hopen, hopen'] at hlt
      exact absurd hlt (lt_irrefl _)
    · rintro ⟨x, s₁, hrun⟩
      cases hrun

end Shadow

/-- A computation that does as another one does, as long as it goes on. -/
def Shadows {α : Type} (m₁ m₂ : MatchM α) : Prop := ∀ s, Shadow s (m₁ s) (m₂ s)

namespace Shadows

variable {α β : Type} {m₁ m₂ : MatchM α}

theorem bind {P : α → Prop} {f₁ f₂ : α → MatchM β} (hm : Shadows m₁ m₂) (h₂ : Gives P m₂)
    (hf : ∀ x, P x → Shadows (f₁ x) (f₂ x)) : Shadows (m₁ >>= f₁) (m₂ >>= f₂) := by
  intro s
  have h := hm s
  have hP := h₂ s
  show Shadow s (EStateM.bind m₁ f₁ s) (EStateM.bind m₂ f₂ s)
  unfold EStateM.bind
  generalize m₁ s = r₁ at h ⊢
  generalize m₂ s = r₂ at h hP ⊢
  cases h with
  | @same x s' hs => exact (hf x (hP x s' rfl) s').since hs
  | halt hs => exact .halt hs
  | @goesOn x s₁ s' hs =>
    -- only the run itself goes on; what follows closes its own attempts, not those that are open
    exact (hf x (hP x s' rfl) s').after hs
  | commits hs => exact .commits hs
  | ends hh => exact .ends hh

/-- A committed failure that is recovered from leaves its attempt open. -/
theorem recover {m₁ m₂ : MatchM Step} (hm : Shadows m₁ m₂) : Shadows (MatchM.recover m₁) (MatchM.recover m₂) := by
  intro s
  have h := hm s
  unfold MatchM.recover
  generalize m₁ s = r₁ at h ⊢
  generalize m₂ s = r₂ at h ⊢
  cases h with
  | same hs => exact .same hs
  | @halt h s' hs =>
    cases h with
    | committed d => exact .same hs
    | recursionLimit | growthLimit | unboundForward | action | outOfRange | endless => exact .halt hs
  | goesOn hs => exact .goesOn hs
  | commits hs =>
    -- here a run goes on although an attempt was not closed
    exact .goesOn hs
  | @ends h s₁ s' hh =>
    cases h with
    | committed d => exact absurd hh Bool.noConfusion
    | recursionLimit | growthLimit | unboundForward | action | outOfRange | endless => exact .ends rfl

/-- What is made aside goes on in the same journal. -/
theorem aside (config : Config) (hm : Shadows m₁ m₂) : Shadows (Packrat.aside config m₁) (Packrat.aside config m₂) := by
  intro s
  have h := hm { State.initial config with journal := s.journal }
  unfold Packrat.aside
  generalize m₁ _ = r₁ at h ⊢
  generalize m₂ _ = r₂ at h ⊢
  cases h with
  | same hs => exact .same hs
  | halt hs => exact .halt hs
  | goesOn hs => exact .goesOn hs
  | commits hs => exact .commits hs
  | ends hh => exact .ends hh

end Shadows

/-! ## Attempts that are watched -/

namespace Event

/-- Tells the end of an attempt. -/
def ofStep (i : ExprId) (start : Nat) : Step → Event
  | .matched stop r => .matched i start stop r
  | .failed d => .failed i d

theorem closes_ofStep (i : ExprId) (start : Nat) (step : Step) : (ofStep i start step).Closes i := by
  cases step with
  | matched | failed => rfl

end Event

/-- Adds the end of an attempt to the journal that it leaves; nothing is told of a halt. -/
def addEnd (i : ExprId) : EStateM.Result Halt State (Nat × Step) → EStateM.Result Halt State Step
  | .ok (start, step) s =>
    .ok (step.mapResults (ResultsOf.withOrigin i))
      { s with journal := .ofStep i start (step.mapResults (ResultsOf.withOrigin i)) :: s.journal }
  | .error h s => .error h s

/-- An attempt of a node that is watched is told of before and after. -/
theorem perform_watched {c : Context} {i : ExprId} (h : c.watch.wants (c.rule i) = true) (a : Attempt) (p : Nat)
    (acts skips : Bool) (s : State) :
    perform a c i p acts skips s =
      addEnd i (skipThenMatch a c i p acts skips { s with journal := .tried i p :: s.journal }) := by
  have hstep (start : Nat) (step : Step) (s : State) :
      reportStep true i start step s = .ok () { s with journal := .ofStep i start step :: s.journal } := by
    cases step with
    | matched | failed => rfl
  rw [perform_eq, h]
  show EStateM.bind (skipThenMatch a c i p acts skips) _ { s with journal := .tried i p :: s.journal } = _
  unfold EStateM.bind
  cases skipThenMatch a c i p acts skips { s with journal := .tried i p :: s.journal } with
  | error e s' => rfl
  | ok x s' =>
    show EStateM.bind (reportStep true i x.1 _) _ s' = _
    unfold EStateM.bind
    rw [hstep]
    rfl

/-- What is shadowed between the beginning of an attempt and its end is so with them: where it is closed, so is the
attempt, and a halt leaves this open. -/
theorem Shadow.addEnd {i : ExprId} {p : Nat} {s s₁ : State} {r₁ r₂ : EStateM.Result Halt State (Nat × Step)}
    (hs₁ : s₁.journal = .tried i p :: s.journal) (h : Shadow s₁ r₁ r₂) {m : MatchM Step}
    (hm : m s = Packrat.addEnd i r₁) : Shadow s (m.strict s) (Packrat.addEnd i r₂) := by
  have hopened : s₁.unclosed = s.unclosed + 1 := by
    rw [State.unclosed, hs₁, unclosed_cons]
    exact Int.add_comm _ _
  have hended (x : Nat × Step) (s' : State) :
      Packrat.unclosed (.ofStep i x.1 (x.2.mapResults (ResultsOf.withOrigin i)) :: s'.journal) = s'.unclosed - 1 := by
    rw [unclosed_cons, (Event.closes_ofStep _ _ _).opening]
    exact Int.add_comm _ _
  unfold MatchM.strict
  rw [hm]
  cases h with
  | @same x s' hs =>
    obtain ⟨es, hes, hs⟩ := hs
    let close := Event.ofStep i x.1 (x.2.mapResults (ResultsOf.withOrigin i))
    refine .same ⟨.tried i p :: (es ++ [close]), hes.attempt (Event.closes_ofStep _ _ _) .nil, ?_⟩
    show close :: s'.journal = _
    simp [hs, hs₁]
  | @halt h s' hs =>
    -- all is closed but this attempt itself, and its end is not told
    have hunclosed := hs.unclosed_eq
    exact .halted (by omega)
  | @goesOn x s₂ s' hs => exact .goesOn (lt_of_lt_of_eq (by omega) (hended x s').symm)
  | commits hs => exact .commits (by omega)
  | ends hh => exact .ends hh

/-! ## Runs -/

/-- Contexts with a grammar in which every node is watched. -/
structure Context.WatchesAll (g : Grammar) (c : Context) : Prop where
  grammar : c.grammar = g
  watch : ∀ i, c.watch.wants (g.rule i) = true

theorem Context.contexts_watchesAll (g : Grammar) : g.Contexts (Context.WatchesAll g) where
  grammar h := h.grammar
  deeper h := ⟨h.grammar, h.watch⟩
  combined h := ⟨h.grammar, h.watch⟩
  behind h _ := ⟨h.grammar, h.watch⟩

/-- Attempts that shadow others, where every node is watched. -/
def AttemptsShadow (g : Grammar) (a₁ a₂ : Attempt) : Prop :=
  ∀ ⦃c i p acts skips⦄, c.WatchesAll g → Shadows (a₁ c i p acts skips) (a₂ c i p acts skips)

section Runs

variable {g : Grammar} {a₁ a₂ : Attempt} (ha : AttemptsShadow g a₁ a₂)
include ha

/-- **What is put together from attempts is shadowed** when these are. -/
theorem Assembled.shadows {N : ExprId → Prop} {t : Text} {α : Type} {m₁ m₂ : MatchM α}
    (h : Assembled g (Context.WatchesAll g) N a₁ a₂ t m₁ m₂) : Shadows m₁ m₂ := by
  induction h with
  | pure x => exact fun s => .same (.of_journal rfl)
  | halt h => exact fun s => .halt (.of_journal rfl)
  | @apart t α m h =>
    intro s
    obtain ⟨x, s', hrun, hless⟩ := h s
    rw [hrun]
    exact .same hless.closedSince
  | attempt hc hi p acts skips => exact ha hc
  | bindOf hm h₁ h₂ hf ihm ihf => exact ihm.bind h₂ ihf
  | recover hm ih => exact ih.recover
  | aside hc hback hm ih => exact ih.aside _

variable {c : Context} (hc : c.WatchesAll g) (i : ExprId) (p : Nat) (acts skips : Bool)
include hc

/-- **Performing an attempt is shadowed**: if it halts it remains open, and otherwise its end closes it. -/
theorem perform_shadows : Shadows (perform a₁ c i p acts skips).strict (perform a₂ c i p acts skips) := by
  have hwatched : c.watch.wants (c.rule i) = true := by
    rw [Context.rule, hc.grammar]
    exact hc.watch i
  have hmade : Assembled g (Context.WatchesAll g) (fun _ => True) a₁ a₂ c.text (skipThenMatch a₁ c i p acts skips)
      (skipThenMatch a₂ c i p acts skips) :=
    Assembled.skipThenMatch_assembled (Context.contexts_watchesAll g) (.all g) hc trivial p acts skips
  intro s
  rw [perform_watched hwatched a₂]
  exact (hmade.shadows ha _).addEnd rfl (perform_watched hwatched a₁ p acts skips s)

/-- An attempt that is looked up or performed is shadowed. What is found was told of when it was performed. -/
theorem remember_shadows : Shadows (remember a₁ c i p acts skips).strict (remember a₂ c i p acts skips) := by
  intro s
  have hperform (s' : State) := perform_shadows ha hc i p acts (skips && !c.adjacent) s'
  unfold MatchM.strict at hperform ⊢
  cases hon : s.memo.isOn with
  | false =>
    have hrun (a : Attempt) := remember_off (Memo.eq_off hon) a c i p acts skips
    have hcounted : s.counted.ClosedSince s := .of_journal rfl
    rw [hrun, hrun]
    exact (hperform s.counted).since hcounted
  | true =>
    rw [remember_of_isOn hon, remember_of_isOn hon]
    cases (s.memo.find? (c.key i p acts (skips && !c.adjacent))).1 with
    | some step => exact .same (.of_journal rfl)
    | none =>
      let s' := s.counted.consulted (c.key i p acts (skips && !c.adjacent))
      have hconsulted : s'.ClosedSince s := .of_journal rfl
      have h := (hperform s').since hconsulted
      dsimp only
      generalize perform a₁ c i p acts (skips && !c.adjacent) s' = r₁ at h ⊢
      generalize perform a₂ c i p acts (skips && !c.adjacent) s' = r₂ at h ⊢
      cases r₁ with
      | ok step u =>
        cases h with
        | same hs => exact .same hs
      | error e u =>
        cases h with
        | halt hs => exact .halt hs
        | goesOn hs => exact .goesOn hs
        | commits hs => exact .commits hs
        | ends hh => exact .ends hh

end Runs

/-- **Attempts are shadowed by strict ones**, in every mode. By induction on how deep they nest. -/
theorem attemptWithin_shadows (g : Grammar) (n : Nat) : AttemptsShadow g (strictWithin n) (attemptWithin n) := by
  induction n with
  | zero => exact fun _ _ _ _ _ _ s => .halt (.of_journal rfl)
  | succ n ih =>
    intro c i p acts skips hc
    have hremember := remember_shadows ih ((Context.contexts_watchesAll g).deeper hc) i p acts skips
    unfold strictWithin attemptWithin
    cases c.config.recursionLimit with
    | none => exact hremember
    | some limit =>
      dsimp only
      split
      · exact fun s => .ends rfl
      · exact hremember

/-! ## Parses -/

/-- A run that comes to results or to a mismatch does not halt. -/
theorem exists_ok_of_resolve {t : Text} {r : EStateM.Result Halt State Step}
    (h : (∃ results, (resolve t r).1 = .ok results) ∨ ∃ report, (resolve t r).1 = .error (.mismatch report)) :
    ∃ step s, r = .ok step s := by
  cases r with
  | ok step s => exact ⟨step, s, rfl⟩
  | error e s => cases e <;> simp [resolve, Halt.toError] at h

/-- **Events are bracketed where no attempt halts, and only there.** In a parse that ends with a match or a mismatch and
is watched at every node, each beginning of an attempt is closed by one end of an attempt of the same node, with
complete pairs between them, if and only if no attempt halts, not even one whose halt is recovered from. -/
theorem events_bracketed_iff (p : Parser) (hwatch : ∀ i, p.watch.wants (p.grammar.rule i) = true) (t : Text)
    (all : Bool)
    (hends : (∃ results, (p.parse t all).1.outcome = .ok results) ∨
      ∃ report, (p.parse t all).1.outcome = .error (.mismatch report)) :
    Bracketed (p.parse t all).1.events ↔ HaltFree p t all := by
  let view := viewOf p.config t
  let c := Context.top p.grammar p.config p.watch view
  let s : State := { p.state.forget with journal := [] }
  have hc : c.WatchesAll p.grammar := ⟨rfl, hwatch⟩
  have hmade : Assembled p.grammar (Context.WatchesAll p.grammar) (fun _ => True) (strictWithin (attemptFuel c))
      (attempt c) view (Coupling.matchRootBy (strictWithin (attemptFuel c)) c all) (matchRoot c all) :=
    Assembled.matchRootBy_assembled (Context.contexts_watchesAll p.grammar) hc (.all p.grammar) trivial all
  have hshadow : Shadow s (Coupling.matchRootBy (strictWithin (attemptFuel c)) c all s) (matchRoot c all s) :=
    hmade.shadows (attemptWithin_shadows p.grammar _) s
  obtain ⟨step, s', hrun⟩ : ∃ step s', matchRoot c all s = .ok step s' := exists_ok_of_resolve hends
  have hevents : (p.parse t all).1.events = s'.journal.reverse := by
    show (resolve view (matchRoot c all s)).2.journal.reverse = _
    rw [hrun]
    cases step with
    | matched | failed => rfl
  rw [hrun] at hshadow
  rw [hevents]
  exact hshadow.bracketed_iff rfl

/-- Not before a pair of letters, of which the first one commits to the second. -/
def notBeforePair : Builder :=
  .ofCalls [.setDefaultWhitespace ⟨[⟨' ', ' '⟩]⟩, .literal "a" false, .commit, .literal "b" false, .sequence [0, 1, 2],
    .notFollowedBy 3]

/-- Before another letter nothing is committed to, and what is told is bracketed. -/
theorem events_bracketed_iff_notBeforePair : ∃ g, notBeforePair.build 4 = .ok g ∧
    let p := Parser.new g {} (.everything false)
    (∃ results, (p.parse ['c'] false).1.outcome = .ok results) ∧ HaltFree p ['c'] false ∧
      Bracketed (p.parse ['c'] false).1.events := by
  refine ⟨_, eq_ok_of_isOk (by decide +kernel), ?_⟩
  intro p
  have hends : ∃ results, (p.parse ['c'] false).1.outcome = .ok results := ⟨_, eq_ok_of_isOk (by decide +kernel)⟩
  have hfree : HaltFree p ['c'] false := by decide +kernel
  exact ⟨hends, hfree, (events_bracketed_iff p (fun _ => rfl) ['c'] false (Or.inl hends)).mpr hfree⟩

/-- Before the first letter without the second the pair halts. The lookahead recovers from that, and the parse matches,
but the attempt of the pair was never closed. -/
theorem not_bracketed_notBeforePair : ∃ g, notBeforePair.build 4 = .ok g ∧
    let p := Parser.new g {} (.everything false)
    (p.parse ['a'] false).1.outcome.isOk = true ∧ ¬ Bracketed (p.parse ['a'] false).1.events := by
  refine ⟨_, eq_ok_of_isOk (by decide +kernel), by decide +kernel, fun hbracketed => ?_⟩
  have hunclosed := hbracketed.unclosed_eq
  revert hunclosed
  decide +kernel

end Packrat
