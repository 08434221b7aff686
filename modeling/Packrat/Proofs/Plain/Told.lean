import Mathlib.Data.Set.Finite.Lattice
import Packrat.Proofs.Plain.Answer
import Packrat.Proofs.Placement.Boundary

/-!
# `Packrat.Proofs.Plain.Told` — attempts that are told their answers

The answer of a plain attempt with room for `k + 1` attempts is what its performance comes to when every attempt in
it is told the answer it has with room for `k`. On one text, finitely many nodes can be attempted at finitely many
places, so some room is enough for all attempts that have an answer at all: what is told there is told in full.

## Contents

* `told` — attempts that are told their answers;
* `Coupling.telling` — plain attempts and told ones;
* `answerOf?_perform_told` — **one performance by told attempts**;
* `Universe`, `exists_room` — **room enough for every answer**.
-/

namespace Packrat

/-! ## Being told -/

/-- Ends at once with an answer and leaves the state as it is; without an answer, attempts nest too deeply. -/
def tell (o : Option Answer) : MatchM Step := fun s =>
  match o with
  | some (.ok step) => .ok step s
  | some (.error h) => .error h s
  | none => .error .endless s

/-- Attempts that are told the answer of the plain attempt with room `k`. -/
def told (g : Grammar) (k : Nat) : Attempt := fun c i p acts skips => tell (g.answer? c.text k (c.key i p acts skips))

theorem answerOf?_tell {o : Option Answer} (h : ∀ e, o = some (.error e) → e.isTooDeep = false) (s : State) :
    answerOf? (tell o s) = o := by
  rcases o with _ | e | step
  · rfl
  · exact answerOf?_error (h e rfl) s
  · rfl

/-- An answer says nothing of too deep nesting. -/
theorem Grammar.not_tooDeep_of_answer {g : Grammar} {t : Text} {k : Nat} {key : MemoKey} {e : Halt}
    (h : g.answer? t k key = some (.error e)) : e.isTooDeep = false :=
  (answerOf?_eq_error h).1

/-- A told attempt has the answer it is told. -/
theorem answerOf?_told (g : Grammar) (k : Nat) (c : Context) (i : ExprId) (p : Nat) (acts skips : Bool) (s : State) :
    answerOf? (told g k c i p acts skips s) = g.answer? c.text k (c.key i p acts skips) :=
  answerOf?_tell (fun _ h => Grammar.not_tooDeep_of_answer h) s

/-- Inside a combined region it makes no difference whether a told attempt is to skip. -/
theorem told_skips (g : Grammar) (k : Nat) (c : Context) (i : ExprId) (p : Nat) (acts skips : Bool) :
    told g k c i p acts (skips && !c.adjacent) = told g k c i p acts skips :=
  congrArg tell (Grammar.answer?_skips g c.text k i p acts skips c.adjacent)

/-! ## Plain attempts and told ones -/

/-- When two runs agree of which only the second is excused, and the second has an answer, so has the first. -/
theorem Coupling.Agree.answer_back {g : Grammar} {K : Coupling g} {w : K.World} {r : Bool}
    {x y : EStateM.Result Halt State Step} (h : K.Agree w r (Step.Alike K.exact) x y) {o : Answer}
    (ho : answerOf? y = some o) (hunexcused : K.deep₁ = false) :
    ∃ o', answerOf? x = some o' ∧ o'.Alike K.exact o := by
  rcases h.cases_all with
    ⟨e, s, he, -⟩ | ⟨e, s, he, rfl⟩ | ⟨e, s, s', rfl, rfl, -⟩ | ⟨a, b, s, s', rfl, rfl, hab, -⟩
  · exact absurd he.1 (by simp [hunexcused])
  · rw [answerOf?_tooDeep he.2] at ho
    exact absurd ho (by simp)
  · cases he : e.isTooDeep with
    | true =>
      rw [answerOf?_tooDeep he] at ho
      exact absurd ho (by simp)
    | false =>
      obtain rfl : Except.error e = o := by simpa [answerOf?_error he] using ho
      exact ⟨.error e, answerOf?_error he s, rfl⟩
  · obtain rfl : Except.ok b = o := by simpa using ho
    exact ⟨.ok a, rfl, hab⟩

/-- A plain run leaves nothing remembered where its failure may be recovered from. -/
theorem memo_of_committed {g : Grammar} {c : Context} (hg : c.grammar = g) (hc : c.IsPlain) {s : State}
    (hs : s.memo = .off) {n : Nat} {i : ExprId} {p : Nat} {acts skips : Bool} {e : Halt} {s' : State}
    (h : attemptWithin n c i p acts skips s = .error e s') (he : e.isCommitted = true) : s'.memo = .off := by
  have hpair : Coupling.PlainPair g n n (c.room n) c c := ⟨⟨hg, hg, rfl, rfl⟩, hc, hc, le_refl _, le_refl _⟩
  have hlinked : (Coupling.plain g true (fun _ => True) (Grammar.Closed.all g) n n (c.room n)).Linked () true
      (Step.Alike true) (attemptWithin n c i p acts skips) (attemptWithin n c i p acts skips) :=
    Coupling.plain_agrees (Grammar.Closed.all g) (by simp) n n (c.room n) hpair trivial fun _ => rfl
  have hend := hlinked s s ⟨hs, hs⟩
  rw [h] at hend
  rcases hend with hdeep | hdeep | ⟨-, hstate⟩
  · cases e with
    | committed d => exact absurd hdeep.2 Bool.false_ne_true
    | _ => exact absurd he Bool.false_ne_true
  · exact absurd hdeep.1 Bool.false_ne_true
  · exact (hstate rfl he).1

namespace Coupling

/-- A plain context without a limit, and any other on the same text in which forwards grow no seeds. -/
structure TellingPair (g : Grammar) (c₁ c₂ : Context) : Prop where
  alike : Context.Alike g c₁ c₂
  plain : c₁.IsPlain
  unlimited : c₁.config.recursionLimit = none
  seedless : c₂.config.memoization ≠ .leftRecursion

/-- A plain run and one whose attempts are told their answers; one of them is excused. -/
@[reducible] def telling (g : Grammar) (first : Bool) : Coupling g where
  World := Unit
  exact := true
  deep₁ := first
  deep₂ := !first
  state _ s₁ _ := s₁.memo = .off
  contexts _ := TellingPair g
  state_congr := fun hs h₁ _ => h₁.memo.trans hs
  alike := fun hc => hc.alike
  combined := fun hc => ⟨⟨hc.alike.1, hc.alike.2, hc.alike.3, rfl⟩, hc.2, hc.3, hc.4⟩
  behind := by
    intro _ c₁ c₂ hc p
    refine ⟨(), ⟨⟨hc.alike.1, hc.alike.2, ?_, rfl⟩, hc.2, hc.3, hc.4⟩, ?_⟩
    · exact congrArg (Text.before · p) hc.alike.text
    · rw [State.initial, hc.plain, Memo.ofStrategy]

/-- Plain attempts agree with what told ones are told. -/
theorem telling_agrees (g : Grammar) (first : Bool) (k : Nat) :
    (telling g first).Agrees (attemptWithin k) (told g k) := by
  intro w c₁ c₂ r i p acts₁ acts₂ skips hc _ hacts s₁ s₂ hs
  obtain rfl : acts₁ = acts₂ := hacts rfl
  have hroom : c₁.room k = k := by simp [Context.room, hc.unlimited]
  have hanswer := answerOf?_attemptWithin hc.alike.grammar₁ hc.plain hs k i p acts₁ skips
  rw [hroom, hc.alike.text, Context.key, hc.alike.adjacent] at hanswer
  show (telling g first).Agree w r _ _ (tell (g.answer? c₂.text k ⟨i, p, acts₁, skips, c₂.adjacent⟩) s₂)
  cases h : attemptWithin k c₁ i p acts₁ skips s₁ with
  | ok step s₁' =>
    rw [h] at hanswer
    rw [← hanswer]
    exact ⟨Step.Alike.refl _ _, memo_attemptWithin hc.alike.grammar₁ hc.plain hs k i p acts₁ skips h⟩
  | error e s₁' =>
    rw [h] at hanswer
    cases he : e.isTooDeep with
    | true =>
      rw [← hanswer, answerOf?_tooDeep he]
      cases first with
      | true => exact Or.inl ⟨rfl, he⟩
      | false => exact Or.inr (Or.inl ⟨rfl, rfl⟩)
    | false =>
      rw [← hanswer, answerOf?_error he]
      exact Or.inr (Or.inr ⟨rfl, fun _ hcommitted => memo_of_committed hc.alike.grammar₁ hc.plain hs h hcommitted⟩)

end Coupling

/-- **One performance by told attempts** comes to the answer with room for one attempt more. -/
theorem answerOf?_perform_told {g : Grammar} {c : Context} (hg : c.grammar = g)
    (hc : c.config.memoization ≠ .leftRecursion) (k : Nat) (i : ExprId) (p : Nat) (acts skips : Bool) (s : State) :
    answerOf? (perform (told g k) c i p acts (skips && !c.adjacent) s)
      = g.answer? c.text (k + 1) (c.key i p acts skips) := by
  let c₀ := (plainContext g c.text c.adjacent).deeper
  let s₀ := (State.initial {}).counted
  have hpair : Coupling.TellingPair g c₀ c := ⟨⟨rfl, hg, rfl, rfl⟩, rfl, rfl, hc⟩
  have hplain : g.answer? c.text (k + 1) (c.key i p acts skips)
      = answerOf? (perform (attemptWithin k) c₀ i p acts (skips && !c.adjacent) s₀) := by
    have hremember := remember_off (s := State.initial {}) rfl (attemptWithin k) c₀ i p acts skips
    exact congrArg answerOf? hremember
  have hperform (first : Bool) : (Coupling.telling g first).Linked () false (Step.Alike true)
      (perform (attemptWithin k) c₀ i p acts (skips && !c.adjacent))
      (perform (told g k) c i p acts (skips && !c.adjacent)) :=
    Coupling.perform_linked_of_seedless (Coupling.telling_agrees g first k) hpair hpair.plain.seedless hc trivial
      (fun _ => rfl) p _ (by simp) (by simp)
  rw [hplain]
  -- either run has an answer when the other one has
  apply Option.ext
  intro o
  constructor
  · intro ho
    obtain ⟨o', ho', halike⟩ := (hperform false s₀ s rfl).answer_back ho rfl
    rw [← Answer.alike_true halike]
    exact ho'
  · intro ho
    obtain ⟨o', ho', halike⟩ := (hperform true s₀ s rfl).answer ho
    rw [Answer.alike_true halike]
    exact ho'

/-! ## Room enough -/

/-- The keys under which nodes can be attempted at the places of a text or of a front of it. -/
structure Universe (N : Set ExprId) (t : Text) (x : Text × MemoKey) : Prop where
  text : x.1 <+: t
  node : x.2.id ∈ N
  place : x.2.position ≤ t.size

/-- There are finitely many, if there are finitely many nodes. -/
theorem finite_universe {N : Set ExprId} (hN : N.Finite) (t : Text) : {x | Universe N t x}.Finite := by
  let flags : Set (Bool × Bool × Bool) := Set.univ
  let all := {T : Text | T ∈ t.inits} ×ˢ N ×ˢ Set.Iic t.size ×ˢ flags
  have hall : all.Finite :=
    (List.finite_toSet t.inits).prod (hN.prod ((Set.finite_Iic _).prod Set.finite_univ))
  refine (hall.image fun x => (x.1, (⟨x.2.1, x.2.2.1, x.2.2.2.1, x.2.2.2.2.1, x.2.2.2.2.2⟩ : MemoKey))).subset ?_
  rintro ⟨T, i, p, acts, skips, adjacent⟩ ⟨htext, hnode, hplace⟩
  exact ⟨(T, i, p, acts, skips, adjacent), ⟨(List.mem_inits _ _).mpr htext, hnode, hplace, trivial⟩, rfl⟩

/-- **Room enough for every answer.** For finitely many nodes on one text, some room is enough for every attempt that
has an answer. -/
theorem exists_room (g : Grammar) {N : Set ExprId} (hN : N.Finite) (t : Text) :
    ∃ room, ∀ x, Universe N t x → ∀ o, g.Settles x.1 x.2 o → g.answer? x.1 room x.2 = some o := by
  classical
  -- the room of one key, as far as it has an answer
  let need (x : Text × MemoKey) : Nat :=
    if h : ∃ k o, g.answer? x.1 k x.2 = some o then h.choose else 0
  obtain ⟨room, hroom⟩ := ((finite_universe hN t).image need).bddAbove
  refine ⟨room, ?_⟩
  rintro x hx o ⟨k, hk⟩
  have hex : ∃ k o, g.answer? x.1 k x.2 = some o := ⟨k, o, hk⟩
  obtain ⟨o', ho'⟩ := hex.choose_spec
  have hneed : need x = hex.choose := dif_pos hex
  have hle : hex.choose ≤ room := hneed ▸ hroom ⟨x, hx, rfl⟩
  have hsettles : g.Settles x.1 x.2 o' := ⟨_, ho'⟩
  rw [← hsettles.unique ⟨k, hk⟩]
  exact Grammar.answer?_of_le hle ho'

end Packrat
