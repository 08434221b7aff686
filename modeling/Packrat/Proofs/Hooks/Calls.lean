import Packrat.Proofs.Coupling.Runs
import Packrat.Proofs.Hooks.Track

/-!
# `Packrat.Proofs.Hooks.Calls` — which actions are called, and what becomes of their errors

Two questions about the caller's code in a parse. Probes must not call it: whatever a run does in place of calls from
a comparison, a first pass, a stop test, an ignorable, a round of growth or a search, it is the run without hooks, so
there are no such calls. What looks ahead or behind does call it. And its errors must surface: whatever a run does
after a call that fails, or in place of an attempt that halts other than by a committed failure, the run without hooks
either never gets there or ends with that error.

## Contents

* `Hooks.replacingCalls`, `probes_call_no_actions` — **probes call no actions**, in parses and scans;
* `lookahead_calls_actions` — what looks ahead or behind does;
* `Hooks.afterFailing`, `Hooks.afterHalt`, `failed_action_surfaces` — **an action's error surfaces unchanged**.
-/

namespace Packrat

/-! ## Parses and scans with hooks -/

namespace Hooks

variable (H : Hooks)

/-- A parse with hooks that tracks the one without is the same parse, or that one escapes. -/
theorem parse_tracks {E : Escape} {p : Parser} {t : Text} {all : Bool}
    (h : Tracks E (Packrat.matchRoot (Context.top p.grammar p.config p.watch (viewOf p.config t)) all)
      (H.matchRoot (Context.top p.grammar p.config p.watch (viewOf p.config t)) all)) :
    H.parse p t all = p.parse t all ∨ ∃ halt, (p.parse t all).1.outcome = .error (halt.toError (viewOf p.config t))
      ∧ E.ends halt (p.parse t all).1.events.reverse := by
  rcases h { p.state.forget with journal := [] } with heq | ⟨halt, s, herror, hescape⟩
  · left
    simp only [Hooks.parse, Parser.parse, EStateM.run, heq]
  · right
    refine ⟨halt, ?_, ?_⟩
    · simp only [Parser.parse, EStateM.run, herror, resolve]
    · simp only [Parser.parse, EStateM.run, herror, resolve, List.reverse_reverse]
      exact hescape

variable {H} (h : ∀ c p, H.attemptAt c p = Scan.attemptAt c p)
include h

theorem nextWithin_eq (fuel : Nat) (s : Scan) : H.nextWithin fuel s = s.nextWithin fuel := by
  induction fuel generalizing s with
  | zero => rfl
  | succ fuel ih =>
    have ih : H.nextWithin fuel = Scan.nextWithin fuel := funext ih
    rw [Hooks.nextWithin, h, ih]
    rfl

/-- A scan with hooks whose attempts are those without yields the same. -/
theorem collect_eq (n : Nat) (s : Scan) : H.collect n s = s.collect n := by
  induction n generalizing s with
  | zero => rfl
  | succ n ih =>
    have ih : H.collect n = Scan.collect n := funext ih
    rw [Hooks.collect, nextWithin_eq h, ih]
    rfl

end Hooks

/-! ## Probes call no actions -/

/-- What is done in place of calls of actions under some chains of purposes; other calls stay. -/
def Hooks.replacingCalls (where_ : List Purpose → Bool)
    (instead : List Purpose → Context → Action → (start stop : Nat) → Results → MatchM Step) : Hooks where
  call chain c action start stop r :=
    if where_ chain then instead chain c action start stop r else runAction c action start stop r
  made m := m

/-- Whether an attempt is made inside a probe: for a purpose other than to look ahead or behind. -/
def insideProbe (chain : List Purpose) : Bool := !chain.all Purpose.runsActions

/-- Calls inside probes do no harm, whatever is done there. -/
theorem replacingCalls_harmless
    (instead : List Purpose → Context → Action → (start stop : Nat) → Results → MatchM Step) :
    (Hooks.replacingCalls insideProbe instead).Harmless .none fun chain => insideProbe chain = false where
  start := rfl
  under := by
    intro u chain hu hchain
    simp only [insideProbe, List.all_cons, hu, Bool.true_and]
    exact hchain
  call := by
    intro chain hchain c action start stop r
    show Tracks .none _ (if insideProbe chain = true then _ else _)
    rw [hchain]
    exact Tracks.refl _
  made := id

/-- **Probes call no actions.** Whatever is done in place of the calls of actions inside the test of what must not
follow, the comparison of a longest choice, the first pass over children in any order, a stop test, an ignorable, a
round of growth that only finds out, or the search for the target of a skip, every parse and every scan is the one
without hooks: no chain of nested attempts with such a purpose leads to a call. -/
theorem probes_call_no_actions
    (instead : List Purpose → Context → Action → (start stop : Nat) → Results → MatchM Step) :
    let H := Hooks.replacingCalls insideProbe instead
    (∀ p t all, H.parse p t all = p.parse t all) ∧ ∀ n s, H.collect n s = s.collect n := by
  intro H
  have hH : H.Harmless .none fun chain => insideProbe chain = false := replacingCalls_harmless instead
  constructor
  · intro p t all
    rcases H.parse_tracks (hH.matchRoot_tracks _ all) with heq | ⟨_, _, hescape⟩
    · exact heq
    · exact absurd hescape id
  · apply Hooks.collect_eq
    intro c p
    exact (hH.attemptAt_tracks c p).eq.symm

/-- A match that leaves a note. -/
def noting (line : String) : Action := ⟨fun _ r => ⟨[line], .ok r⟩⟩

/-- What looks ahead or behind calls the actions in it: without those calls the parse of one letter, looked at ahead,
leaves no note, and neither does the parse of two, the first of which is looked back at. -/
theorem lookahead_calls_actions :
    let H := Hooks.replacingCalls (fun chain => !chain.isEmpty) fun _ _ _ _ stop r => pure (.matched stop r)
    let ahead := Grammar.ofKinds [.literal "a" false, .transform 0 (noting "ran"), .lookahead 1] 2
    let behind := Grammar.ofKinds [.literal "a" false, .transform 0 (noting "ran"), .precededBy 1 none,
      .sequence [0, 2]] 3
    let parser (g : Grammar) := Parser.new g {} default
    (H.parse (parser ahead) ['a'] false ≠ (parser ahead).parse ['a'] false) ∧
      H.parse (parser behind) ['a'] true ≠ (parser behind).parse ['a'] true := by
  intro H ahead behind parser
  have hahead : ((parser ahead).parse ['a'] false).1.events.length = 1 := by decide +kernel
  have hbehind : ((parser behind).parse ['a'] true).1.events.length = 1 := by decide +kernel
  constructor
  · intro heq
    have h : (H.parse (parser ahead) ['a'] false).1.events.length = 0 := by decide +kernel
    rw [heq, hahead] at h
    exact absurd h (by decide)
  · intro heq
    have h : (H.parse (parser behind) ['a'] true).1.events.length = 0 := by decide +kernel
    rw [heq, hbehind] at h
    exact absurd h (by decide)

/-! ## An action's error surfaces -/

namespace Hooks

/-- What is done after a call of an action that fails with a cause on a match from a position, if the notes and
reports up to then satisfy a test. -/
def afterFailing (position : Nat) (cause : String) (test : List Event → Bool)
    (instead : Context → Action → (start stop : Nat) → Results → MatchM Step) : Hooks where
  call _ c action start stop r := fun s =>
    match runAction c action start stop r s with
    | .error (.action p e) s' =>
      if p = position ∧ e = cause ∧ test s'.journal.reverse = true then instead c action start stop r s'
      else .error (.action p e) s'
    | res => res
  made m := m

/-- What is done after attempts that end with one halt. -/
def afterHalt (halt : Halt) (instead : MatchM Step) : Hooks where
  call _ := runAction
  made m := fun s =>
    match m s with
    | .error h s' => if h = halt then instead s' else .error h s'
    | res => res

/-- The parse ends with the error of an action, and what was noted and reported up to then satisfies a test. -/
def failedAction (position : Nat) (cause : String) (test : List Event → Bool) : Escape where
  ends h journal := h = .action position cause ∧ test journal.reverse = true
  uncaught h := absurd h.1 (by simp)

/-- The parse ends with a halt that is no committed failure. -/
def halted {halt : Halt} (h : halt.isCommitted = false) : Escape where
  ends h' _ := h' = halt
  uncaught h' := absurd h (by simp [← h', Halt.isCommitted])

theorem afterFailing_harmless (position : Nat) (cause : String) (test : List Event → Bool)
    (instead : Context → Action → (start stop : Nat) → Results → MatchM Step) :
    (afterFailing position cause test instead).Harmless (failedAction position cause test) fun _ => True where
  start := trivial
  under _ _ := trivial
  call := by
    intro chain _ c action start stop r s
    show runAction c action start stop r s = (match runAction c action start stop r s with
      | .error (.action p e) s' =>
        if p = position ∧ e = cause ∧ test s'.journal.reverse = true then instead c action start stop r s'
        else .error (.action p e) s'
      | res => res) ∨ _
    cases runAction c action start stop r s with
    | ok step s' => exact Or.inl rfl
    | error h s' =>
      cases h with
      | action p e =>
        by_cases hp : p = position ∧ e = cause ∧ test s'.journal.reverse = true
        · obtain ⟨rfl, rfl, htest⟩ := hp
          exact Or.inr ⟨_, s', rfl, rfl, htest⟩
        · left
          dsimp only
          rw [if_neg hp]
      | _ => exact Or.inl rfl
  made := id

theorem afterHalt_harmless {halt : Halt} (h : halt.isCommitted = false) (instead : MatchM Step) :
    (afterHalt halt instead).Harmless (halted h) fun _ => True where
  start := trivial
  under _ _ := trivial
  call _ _ _ _ _ _ := Tracks.refl _
  made := by
    intro m₁ m₂ hm s
    show m₁ s = (match m₂ s with
      | .error h s' => if h = halt then instead s' else .error h s'
      | res => res) ∨ _
    rcases hm s with heq | hescape
    · rw [← heq]
      cases m₁ s with
      | ok step s' => exact Or.inl rfl
      | error h' s' =>
        by_cases hh : h' = halt
        · exact Or.inr ⟨h', s', rfl, hh⟩
        · left
          dsimp only
          rw [if_neg hh]
    · exact Or.inr hescape

end Hooks

/-- During a parse some action is called on a match from a position and fails with a cause, and the notes and reports
up to then satisfy a test: what is done after such a call can show. -/
def CallFails (p : Parser) (t : Text) (all : Bool) (position : Nat) (cause : String) (test : List Event → Bool) :
    Prop :=
  ∃ instead, (Hooks.afterFailing position cause test instead).parse p t all ≠ p.parse t all

/-- During a parse some attempt ends with a halt: what is done after it can show. -/
def AttemptHalts (p : Parser) (t : Text) (all : Bool) (halt : Halt) : Prop :=
  ∃ instead, (Hooks.afterHalt halt instead).parse p t all ≠ p.parse t all

/-- **An action's error surfaces unchanged.** If during a parse an action fails with a cause on a match from a
position, the parse ends with that position and cause. What was noted and reported up to then is all that is noted
and reported in it, whatever notes the actions of the grammar leave: no action is called any more. Nor does anything
recover from the halt of an attempt, other than a committed failure: the parse ends with its error. -/
theorem failed_action_surfaces (p : Parser) (t : Text) (all : Bool) :
    (∀ position cause test, CallFails p t all position cause test →
      (p.parse t all).1.outcome = .error (.action position cause) ∧ test (p.parse t all).1.events = true) ∧
    ∀ halt, halt.isCommitted = false → AttemptHalts p t all halt →
      (p.parse t all).1.outcome = .error (halt.toError (viewOf p.config t)) := by
  constructor
  · rintro position cause test ⟨instead, hshows⟩
    have htracks := (Hooks.afterFailing_harmless position cause test instead).matchRoot_tracks
      (Context.top p.grammar p.config p.watch (viewOf p.config t)) all
    rcases Hooks.parse_tracks _ htracks with heq | ⟨halt, houtcome, rfl, htest⟩
    · exact absurd heq hshows
    · rw [List.reverse_reverse] at htest
      exact ⟨houtcome, htest⟩
  · rintro halt hhalt ⟨instead, hshows⟩
    have htracks := (Hooks.afterHalt_harmless hhalt instead).matchRoot_tracks
      (Context.top p.grammar p.config p.watch (viewOf p.config t)) all
    rcases Hooks.parse_tracks _ htracks with heq | ⟨halt', houtcome, hends⟩
    · exact absurd heq hshows
    · obtain rfl : halt' = halt := hends
      exact houtcome

/-- A letter that is looked at ahead if it can be, with an action that fails. -/
def failingAhead : Parser :=
  Parser.new (Grammar.ofKinds [.literal "a" false, .transform 0 ⟨fun _ _ => ⟨["called"], .error (.failed "boom")⟩⟩,
    .lookahead 1, .optional 2 none, .sequence [3, 0], .orderedChoice [4, 0]] 5) {} default

theorem failed_action_surfaces_failingAhead :
    (failingAhead.parse ['a'] true).1.outcome = .error (.action 0 "boom") ∧
      ((failingAhead.parse ['a'] true).1.events.length == 1) = true := by
  have hcall : CallFails failingAhead ['a'] true 0 "boom" fun events => events.length == 1 := by
    refine ⟨fun _ _ _ stop r => pure (.matched stop r), fun heq => ?_⟩
    have h := congrArg (fun x : Parsed × Parser => x.1.outcome.isOk) heq
    revert h
    decide +kernel
  have hhalt : AttemptHalts failingAhead ['a'] true (.action 0 "boom") := by
    refine ⟨pure (.failed ⟨0, ""⟩), fun heq => ?_⟩
    have h := congrArg (fun x : Parsed × Parser => x.1.outcome.isOk) heq
    revert h
    decide +kernel
  have h := failed_action_surfaces failingAhead ['a'] true
  exact ⟨h.2 _ rfl hhalt, (h.1 0 "boom" _ hcall).2⟩

end Packrat
