import Packrat.Proofs.Coupling.Runs
import Packrat.Proofs.Memory.Table

/-!
# `Packrat.Proofs.Memory.Transparency` — memory is not noticed

A run that remembers outcomes is compared with a plain one. The key of an outcome holds everything that it
depends on, so a sound table answers as the plain run does, and stays sound. A halt is not remembered; where a
committed one is recovered from, both runs recover alike.

## Contents

* `Coupling.remembering` — a plain run and one that remembers;
* `remembering_agrees` — they agree;
* `packrat_transparent` — **remembering changes no outcome**, of parses, scans and replacements.
-/

namespace Packrat
namespace Coupling

/-- Contexts of a plain run and of one that remembers on one text, the second with at least the room `k` and the
first with at most that. -/
structure MemoryPair (g : Grammar) (t : Text) (n m k : Nat) (c₁ c₂ : Context) : Prop where
  alike : Context.Alike g c₁ c₂
  text : c₁.text = t
  plain : c₁.IsPlain
  seedless : c₂.config.memoization ≠ .leftRecursion
  room₁ : c₁.room n ≤ k
  room₂ : k ≤ c₂.room m

/-- A plain run and one that remembers. Its table is sound for the text both are on. -/
@[reducible] def remembering (g : Grammar) (n m k : Nat) : Coupling g where
  World := Text
  exact := true
  state t s₁ s₂ := s₁.memo = .off ∧ s₂.memo.Sound g t
  contexts t := MemoryPair g t n m k
  state_congr := fun hs h₁ h₂ => ⟨h₁.memo.trans hs.1, h₂.memo ▸ hs.2⟩
  alike := fun hc => hc.alike
  combined := fun hc => ⟨⟨hc.alike.1, hc.alike.2, hc.alike.3, rfl⟩, hc.2, hc.3, hc.4, hc.5, hc.6⟩
  behind := by
    intro t c₁ c₂ hc p
    refine ⟨(c₁.behind p).text, ⟨⟨hc.alike.1, hc.alike.2, ?_, rfl⟩, rfl, hc.3, hc.4, hc.5, hc.6⟩, ?_, ?_⟩
    · exact congrArg (Text.before · p) hc.alike.text
    · rw [State.initial, hc.plain, Memo.ofStrategy]
    · exact Memo.sound_ofStrategy _ _ _

section Attempts

variable {g : Grammar} {t : Text} {n m k : Nat} {r : Bool} {c₁ c₂ : Context} {a₁ a₂ : Attempt} {i : ExprId}
  {p : Nat} {acts skips : Bool}

/-- What a plain attempt comes to is the answer under the key that the other run remembers it by. -/
theorem settles_key (hc : MemoryPair g t n m k c₁ c₂) {s : State} (hs : s.memo = .off) {o : Answer}
    (ho : answerOf? (attemptWithin n c₁ i p acts skips s) = some o) :
    g.Settles t (c₂.key i p acts (skips && !c₂.adjacent)) o := by
  rw [answerOf?_attemptWithin hc.alike.grammar₁ hc.plain hs, hc.text] at ho
  refine ⟨c₁.room n, ?_⟩
  rw [Context.key, ← hc.alike.adjacent, Grammar.answer?_skips]
  exact ho

/-- An outcome that is remembered is what the plain attempt comes to, unless that nests too deeply. -/
theorem agree_of_find? (hc : MemoryPair g t n m k c₁ c₂) {s₁ s₂ s₂' : State}
    (hs : (remembering g n m k).state t s₁ s₂) {step : Step}
    (hfind : (s₂.memo.find? (c₂.key i p acts (skips && !c₂.adjacent))).1 = some step)
    (hsound : s₂'.memo.Sound g t) :
    (remembering g n m k).Agree t r (Step.Alike true) (attemptWithin n c₁ i p acts skips s₁) (.ok step s₂') := by
  -- the table is sound, so what it gives is what the plain run comes to
  have hanswer {o : Answer} (ho : answerOf? (attemptWithin n c₁ i p acts skips s₁) = some o) : o = .ok step :=
    hs.2.find?_eq hfind (settles_key hc hs.1 ho)
  cases h : attemptWithin n c₁ i p acts skips s₁ with
  | ok x s₁' =>
    rw [h] at hanswer
    obtain rfl : x = step := Except.ok.inj (hanswer rfl)
    exact ⟨Step.Alike.refl _ _, memo_attemptWithin hc.alike.grammar₁ hc.plain hs.1 n i p acts skips h, hsound⟩
  | error e s₁' =>
    rw [h] at hanswer
    cases he : e.isTooDeep with
    | true => exact agree_of_isTooDeep he
    | false => exact absurd (hanswer (answerOf?_error he s₁')) (by simp)

/-- An outcome that is not remembered yet is performed, and remembered if there is one. -/
theorem agree_of_insert (hc : MemoryPair g t n m k c₁ c₂) {s : State} (hs : s.memo = .off)
    {res : EStateM.Result Halt State Step}
    (h : (remembering g n m k).Agree t r (Step.Alike true) (attemptWithin n c₁ i p acts skips s) res) :
    (remembering g n m k).Agree t r (Step.Alike true) (attemptWithin n c₁ i p acts skips s)
      (addOutcome (c₂.key i p acts (skips && !c₂.adjacent)) res) := by
  cases res with
  | error e s' => exact h
  | ok step s' =>
    cases hleft : attemptWithin n c₁ i p acts skips s with
    | error e u =>
      rw [hleft] at h
      exact h
    | ok x u =>
      rw [hleft] at h
      obtain ⟨halike, hoff, hsound⟩ := h
      obtain rfl : x = step := Step.alike_true halike
      exact ⟨halike, hoff, hsound.insert (settles_key hc hs (by rw [hleft]; rfl))⟩

end Attempts

/-- **A plain run and one that remembers agree**, whatever the table keeps. -/
theorem remembering_agrees (g : Grammar) (n m k : Nat) :
    (remembering g n m k).Agrees (attemptWithin n) (attemptWithin m) := by
  induction k using Nat.strong_induction_on generalizing n m with
  | _ k ih =>
    intro t c₁ c₂ r i p acts₁ acts₂ skips hc hi hacts
    obtain rfl : acts₁ = acts₂ := hacts rfl
    refine linked_of_room hc.room₁ hc.room₂ fun {n' m' k'} hk h₁ h₂ e₁ => ?_
    subst hk
    have hdeep : MemoryPair g t n' m' k' c₁.deeper c₂.deeper :=
      ⟨hc.alike.deeper, hc.text, hc.plain, hc.seedless, h₁, h₂⟩
    have ha := ih k' (Nat.lt_succ_self k') n' m'
    have hperform (skips : Bool) : (remembering g n' m' k').Linked t r (Step.Alike true)
        (perform (attemptWithin n') c₁.deeper i p acts₁ skips)
        (perform (attemptWithin m') c₂.deeper i p acts₁ skips) :=
      perform_linked_of_seedless ha hdeep hdeep.plain.seedless hdeep.seedless hi hacts p skips (by simp) (by simp)
    intro s₁ s₂ hs
    -- whatever the table is, performing the attempt agrees with the plain run
    have hperformed {s : State} (hsound : s.memo.Sound g t) :
        (remembering g n m (k' + 1)).Agree t r (Step.Alike true) (attemptWithin n c₁ i p acts₁ skips s₁)
          (perform (attemptWithin m') c₂.deeper i p acts₁ (skips && !c₂.deeper.adjacent) s) := by
      rw [e₁, remember_off hs.1, show c₁.deeper.adjacent = c₂.deeper.adjacent from hc.alike.adjacent]
      exact hperform _ s₁.counted s ⟨hs.1, hsound⟩
    cases hon : s₂.memo.isOn with
    | false =>
      rw [remember_off (Memo.eq_off hon)]
      exact hperformed hs.2
    | true =>
      rw [remember_of_isOn hon]
      have hconsulted : ((s₂.counted.consulted (c₂.deeper.key i p acts₁ (skips && !c₂.deeper.adjacent))).memo).Sound
          g t := hs.2.find? _
      dsimp only
      cases hfind : (s₂.memo.find? (c₂.deeper.key i p acts₁ (skips && !c₂.deeper.adjacent))).1 with
      | some step => exact agree_of_find? hc hs hfind hconsulted
      | none => exact agree_of_insert hc hs.1 (hperformed hconsulted)

end Coupling

/-! ## Parses, scans and replacements -/

/-- A configuration with memory. -/
def Config.remembering (config : Config) (capacity : Option Nat) : Config :=
  { config with memoization := .packrat capacity }

section Runs

open Coupling

variable (g : Grammar) (config : Config) (capacity : Option Nat) (watch watch' : Watch) (state : State)

/-- A parse or scan without memory, and one with memory, start in contexts of one pair. -/
theorem memoryPair_top (view : Text) :
    let c₁ := Context.top g config.plain watch view
    let c₂ := Context.top g (config.remembering capacity) watch' view
    MemoryPair g view (attemptFuel c₁) (attemptFuel c₂) (c₁.room (attemptFuel c₁)) c₁ c₂ :=
  ⟨⟨rfl, rfl, rfl, rfl⟩, rfl, rfl, by simp [Context.top, Config.remembering], le_refl _, le_refl _⟩

theorem scansAlike_new (view : Text) :
    let s₁ := Scan.new g config.plain watch view
    let s₂ := { Scan.new g (config.remembering capacity) watch' view with state := state.forget }
    ScansAlike (remembering g (attemptFuel s₁.context) (attemptFuel s₂.context)
      (s₁.context.room (attemptFuel s₁.context))) view s₁ s₂ where
  agrees := remembering_agrees g _ _ _
  contexts := memoryPair_top g config capacity watch watch' view
  root := trivial
  position := rfl
  done := rfl
  state := fun _ => ⟨rfl, Memo.sound_clear g view state.memo⟩

/-- **Remembering changes no outcome.** Whatever a parser has remembered before and whatever its table gives up
and when, a parse comes to the results or the error of the parse without memory, unless that nests too deeply;
and a scan, in which one table lives across all attempts, yields the same items and the same replaced text. -/
theorem packrat_transparent :
    (∀ t all, ¬ TooDeep (g.parse config.plain watch t all).outcome →
      ((Parser.mk g (config.remembering capacity) watch' state).parse t all).1.outcome
        = (g.parse config.plain watch t all).outcome) ∧
    ∀ view,
      let plain := Scan.new g config.plain watch view
      let remembering := { Scan.new g (config.remembering capacity) watch' view with state := state.forget }
      (∀ item ∈ plain.collectAll.1, ¬ TooDeep item) →
        remembering.collectAll.1 = plain.collectAll.1 ∧ remembering.replace = plain.replace := by
  constructor
  · intro t all hdeep
    have hpair := memoryPair_top g config capacity watch watch' (viewOf config t)
    have hlinked := matchRoot_linked (r := false) (remembering_agrees g _ _ _) hpair trivial all
      { (State.initial config.plain).forget with journal := [] } { state.forget with journal := [] }
      ⟨rfl, Memo.sound_clear g _ state.memo⟩
    exact (hlinked.resolve rfl (viewOf config t) hdeep).symm
  · intro view plain remembering hdeep
    have hitems := (scansAlike_new g config capacity watch watch' state view).collectAll rfl hdeep
    refine ⟨hitems.symm, ?_⟩
    show (matchesOf remembering.collectAll.1).map _ = (matchesOf plain.collectAll.1).map _
    rw [← hitems]
    rfl

end Runs

/-- Two sequences with one beginning, attempted in order: the second finds the beginning in memory. -/
def twoSequences : Grammar :=
  Grammar.ofKinds [.literal "a" false, .literal "b" false, .literal "c" false, .sequence [0, 1],
    .sequence [0, 2], .orderedChoice [3, 4]] 5

theorem packrat_transparent_twoSequences :
    let config := Config.remembering {} (some 1)
    let plain := Scan.new twoSequences (Config.plain {}) default ['a', 'c', 'a', 'b']
    let remembering := { Scan.new twoSequences config default ['a', 'c', 'a', 'b'] with
      state := (State.initial config).forget }
    ((Parser.mk twoSequences config default (State.initial config)).parse ['a', 'c'] true).1.outcome
        = (twoSequences.parse (Config.plain {}) default ['a', 'c'] true).outcome ∧
      remembering.collectAll.1 = plain.collectAll.1 ∧ remembering.replace = plain.replace := by
  have hparse : ¬ TooDeep (twoSequences.parse (Config.plain {}) default ['a', 'c'] true).outcome := by
    decide +kernel
  have hscan : ((Scan.new twoSequences (Config.plain {}) default ['a', 'c', 'a', 'b']).collectAll.1.all
      fun item => decide (¬ TooDeep item)) = true := by decide +kernel
  have h := packrat_transparent twoSequences {} (some 1) default default
    (State.initial (Config.remembering {} (some 1)))
  exact ⟨h.1 ['a', 'c'] true hparse, h.2 _ fun item hi => of_decide_eq_true (List.all_eq_true.mp hscan item hi)⟩

end Packrat
