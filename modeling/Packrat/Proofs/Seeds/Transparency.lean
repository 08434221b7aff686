import Packrat.Proofs.Coupling.Runs
import Packrat.Proofs.Seeds.Opening

/-!
# `Packrat.Proofs.Seeds.Transparency` — seeds are not noticed

In a safe grammar, a parse that grows seeds comes to what the plain parse comes to. None of the three conditions
for safety can be dropped.

## Contents

* `growSeed_linked` — growth agrees with a plain attempt of the target;
* `seeded_agrees` — attempts of all nodes agree;
* `leftRecursion_transparent` — **seeds change no outcome** of a safe grammar.
-/

namespace Packrat
namespace Coupling

/-! ## The attempt of a forward -/

section Forward

variable {g : Grammar} (hg : g.SeedSafe) {n m k : Nat}
  (ih : ∀ j ≤ k, (seeded g j m j).Agrees (attemptWithin j) (attemptWithin m)) {w : Pending} {c₁ c₂ : Context}
  {r : Bool} {f target : ExprId} {label : String} (hc : SeedPair g w n m k c₁ c₂) (hopen : w.Unanswered g (k + 1))
  (hk : (g.rule f).kind = .forward label (some target)) (hf : g.Visits c₂.adjacent r f) {p : Nat} {acts : Bool}
include hg ih hc hopen hk hf

/-- Where the plain attempt of a target has an answer, a forward is answered by it: from the seed that stayed
behind, or by growth. -/
theorem growSeed_ends {o : Answer} (ho : g.answer? w.text k ⟨target, p, acts, false, c₂.adjacent⟩ = some o)
    {s : State} (hs : s.memo = .off) (hseeds : w.Allows g s.seeds) :
    (∃ e s', o = .error e ∧ growSeed (attemptWithin m) c₂ (g.rule f) f target p acts s = .error e s') ∨
      ∃ step s', o = .ok step ∧ growSeed (attemptWithin m) c₂ (g.rule f) f target p acts s = .ok step s' ∧
        s'.memo = .off ∧ w.Allows g s'.seeds := by
  have hforward : g.answer? w.text (k + 1) ⟨f, p, acts, false, c₂.adjacent⟩ = some (o.withOrigin f) := by
    rw [Grammar.answer?_forward hk, ho]
    rfl
  -- a forward that has an answer is not open
  have hclosed (key : SeedKey) (hkey : key.forward = f ∧ key.position = p) : w.seeds key = none := by
    cases hw : w.seeds key with
    | none => rfl
    | some step =>
      have hnone := hopen key (by simp [hw]) acts c₂.adjacent r (hkey.1 ▸ hf)
      rw [hkey.1, hkey.2, hforward] at hnone
      exact absurd hnone (by simp)
  cases hget : s.seeds.get? ⟨p, f, acts⟩ with
  | some step =>
    have hstale := hseeds ⟨p, f, acts⟩
    unfold Pending.AllowsAt at hstale
    rw [hclosed ⟨p, f, acts⟩ ⟨rfl, rfl⟩] at hstale
    obtain ⟨d, rfl, hsettles⟩ := hstale step hget
    have heq : o.withOrigin f = .ok (.failed d) := Grammar.Settles.unique ⟨k + 1, hforward⟩ (hsettles _ r hf)
    refine Or.inr ⟨.failed d, s, ?_, growSeed_answered hget, hs, hseeds⟩
    match o with
    | .ok (.failed d') => exact heq
    | .ok (.matched stop x) => exact absurd heq (by simp [Answer.withOrigin, Step.mapResults])
    | .error e => exact absurd heq (by simp [Answer.withOrigin])
  | none =>
    obtain ⟨j, hj, o', hfirst, rfl⟩ := exists_firstAnswer (Grammar.closed_reaches g f)
      (hg.accepting ⟨label, target, hk⟩ hf) (Grammar.reaches_child (by simp [hk, NodeKind.children])) ho
    have hpair : SeedPair g w j m j (plainContext g w.text c₂.adjacent) c₂ :=
      ⟨⟨rfl, hc.alike.grammar₂, hc.text.symm.trans hc.alike.text, rfl⟩, rfl, rfl, hc.seeded, hc.unbounded,
        le_refl _, hj.trans hc.room₂, hopen.mono (hj.trans (Nat.le_succ k))⟩
    have hopening : Opening g w m c₂ r f target p j o' := ⟨hg, ⟨label, hk⟩, hf, hpair, ih j hj, hfirst⟩
    refine hopening.growSeed_answers (fun key hkey => hclosed key ?_) hs hseeds hget
    rcases hkey with rfl | ⟨-, rfl⟩
    · exact ⟨rfl, rfl⟩
    · exact ⟨rfl, rfl⟩

/-- An attempt of a target and the growth of a seed for it are linked. -/
theorem growSeed_linked :
    (seeded g n m k).Linked w r (Step.Alike true) (attemptWithin n c₁ target p acts false)
      (growSeed (attemptWithin m) c₂ (g.rule f) f target p acts) := by
  intro s₁ s₂ ⟨hs₁, hs₂, hseeds⟩
  have hanswer := answerOf?_attemptWithin hc.alike.grammar₁ hc.plain hs₁ n target p acts false
  cases ho : answerOf? (attemptWithin n c₁ target p acts false s₁) with
  | none => exact agree_of_answer_none ho
  | some o =>
    rw [ho, hc.text, Context.key, hc.alike.adjacent] at hanswer
    have hk' := Grammar.answer?_of_le hc.room₁ hanswer.symm
    rcases growSeed_ends hg ih hc hopen hk hf hk' hs₂ hseeds with
      ⟨e, s', rfl, h⟩ | ⟨step, s', rfl, h, hs', hseeds'⟩
    · obtain ⟨-, s₁', h₁⟩ := answerOf?_eq_error ho
      rw [h₁, h]
      -- where committed failures are recovered from, the forward has none
      refine Or.inr (Or.inr ⟨rfl, ?_⟩)
      intro hr hcommitted
      subst hr
      have hforward : g.IsForward f := ⟨label, target, hk⟩
      have hnot := Grammar.not_committed_of_answer (Grammar.closed_reaches g f) (hg.accepting hforward hf)
        (hg.uncommitted hforward hf) (Grammar.reaches_child (by simp [hk, NodeKind.children])) hk'
      exact absurd (hnot.symm.trans hcommitted) Bool.false_ne_true
    · obtain ⟨s₁', h₁⟩ := answerOf?_eq_ok ho
      rw [h₁, h]
      exact ⟨Step.Alike.refl _ _, memo_attemptWithin hc.alike.grammar₁ hc.plain hs₁ _ _ _ _ _ h₁, hs', hseeds'⟩

end Forward

/-- **Seeds are not noticed**: in a safe grammar a run that grows seeds agrees with the plain run, unless that
nests too deeply. -/
theorem seeded_agrees {g : Grammar} (hg : g.SeedSafe) (n m k : Nat) :
    (seeded g n m k).Agrees (attemptWithin n) (attemptWithin m) := by
  induction k using Nat.strong_induction_on generalizing n m with
  | _ k ih =>
    intro w c₁ c₂ r i p acts₁ acts₂ skips hc hi hacts
    obtain rfl := hacts rfl
    refine linked_of_room hc.room₁ hc.room₂ fun {n' m' k'} hk h₁ h₂ e₁ => ?_
    subst hk
    rw [e₁]
    have hdeep : SeedPair g w n' m' k' c₁.deeper c₂.deeper :=
      ⟨hc.alike.deeper, hc.2, hc.3, hc.4, hc.5, h₁, h₂, hc.unanswered.mono (Nat.le_succ k')⟩
    have ha := ih k' (Nat.lt_succ_self k') n' m'
    have hadj : c₁.deeper.adjacent = c₂.deeper.adjacent := hdeep.alike.adjacent
    refine remember_linked (K := seeded g n' m' k') (w := w) (fun _ _ hs => ⟨hs.1, hs.2.1⟩) hdeep skips ?_
    intro skips'
    refine perform_linked ha hdeep hi p skips' ?_
    intro start
    refine matchNode_linked ha hdeep hi hacts start ?_ (by simp) (by simp)
    intro label target hk
    have hseeded : c₂.deeper.config.memoization = .leftRecursion := hc.seeded
    rw [matchNode_forward (Context.IsPlain.seedless hdeep.plain) hk]
    simp only [matchNode, hk, if_pos hseeded]
    -- growing answers by plain runs with any room up to `k'`, hence the strong induction
    exact growSeed_linked hg (fun j hj => ih j (Nat.lt_succ_of_le hj) j m') hdeep hc.unanswered hk (hadj ▸ hi)

end Coupling

/-! ## Parses -/

/-- A configuration in which forwards grow seeds without bound. -/
def Config.growing (config : Config) : Config := { config with memoization := .leftRecursion, growthLimit := none }

open Coupling in
/-- A plain parse and one that grows seeds start in contexts of one pair. -/
theorem seedPair_top (g : Grammar) (config : Config) (watch watch' : Watch) (view : Text) :
    let c₁ := Context.top g config.plain watch view
    let c₂ := Context.top g config.growing watch' view
    SeedPair g ⟨view, fun _ => none⟩ (attemptFuel c₁) (attemptFuel c₂) (c₁.room (attemptFuel c₁)) c₁ c₂ :=
  ⟨⟨rfl, rfl, rfl, rfl⟩, rfl, rfl, rfl, rfl, le_refl _, le_refl _, fun _ hkey => absurd hkey (by simp)⟩

/-- **Seeds change no outcome** of a safe grammar: a parse that grows them comes to the results or the error of
the plain parse, unless that nests too deeply. -/
theorem leftRecursion_transparent {g : Grammar} (hg : g.SeedSafe) (config : Config) (watch watch' : Watch)
    (t : Text) (all : Bool) (hdeep : ¬ TooDeep (g.parse config.plain watch t all).outcome) :
    (g.parse config.growing watch' t all).outcome = (g.parse config.plain watch t all).outcome := by
  have hpair := seedPair_top g config watch watch' (viewOf config t)
  have hseeds : Pending.Allows g ⟨viewOf config t, fun _ => none⟩ Seeds.empty := fun _ _ h => absurd h (by simp)
  have hlinked := Coupling.matchRoot_linked (Coupling.seeded_agrees hg _ _ _) hpair (r := false) .root all
    { (State.initial config.plain).forget with journal := [] }
    { (State.initial config.growing).forget with journal := [] } ⟨rfl, rfl, hseeds⟩
  exact (hlinked.resolve rfl (viewOf config t) hdeep).symm

/-- A right-recursive list: no seed needs to grow for it. -/
def rightRecursive : Grammar :=
  Grammar.ofKinds [.literal "a" false, .literal "b" false, .forward "list" (some 4), .sequence [0, 2],
    .orderedChoice [3, 1]] 2

theorem seedSafe_rightRecursive : rightRecursive.SeedSafe := by
  have hkind (i : ExprId) := Grammar.kind_ofKinds [.literal "a" false, .literal "b" false,
    .forward "list" (some 4), .sequence [0, 2], .orderedChoice [3, 1]] 2 i
  change ∀ i, (rightRecursive.rule i).kind ∈ _ at hkind
  simp only [List.mem_cons, List.not_mem_nil, or_false] at hkind
  have hvisits {b r : Bool} {i : ExprId} (h : rightRecursive.Visits b r i) : b = false ∧ r = false := by
    induction h with
    | root => exact ⟨rfl, rfl⟩
    | within _ _ ih => exact ih
    | @recovering b r i j _ hj _ =>
      rw [show (rightRecursive.rule i).ignores = [] from Grammar.ignores_ofKinds _ _ i] at hj
      rcases hkind i with h | h | h | h | h | h <;> rw [h] at hj <;> exact absurd hj (by simp [NodeKind.recovering])
    | @combined b r i j joiner _ hk _ =>
      rcases hkind i with h | h | h | h | h | h <;> rw [h] at hk <;> exact absurd hk (by simp)
    | @behind b r i j retreat _ hk _ =>
      rcases hkind i with h | h | h | h | h | h <;> rw [h] at hk <;> exact absurd hk (by simp)
  refine ⟨fun _ ha hb => (hvisits ha).1.trans (hvisits hb).1.symm, ?_, ?_⟩
  · intro _ _ _ h
    exact absurd (hvisits h).2 (by simp)
  · intro _ _ _ _ _ i child action _ hk
    rcases hkind i with h | h | h | h | h | h <;> rw [h] at hk <;> exact absurd hk (by simp)

theorem leftRecursion_transparent_rightRecursive :
    rightRecursive.SeedSafe ∧
      ¬ TooDeep (rightRecursive.parse (Config.plain {}) default ['a', ' ', 'a', 'b'] true).outcome ∧
      (rightRecursive.parse (Config.growing {}) default ['a', ' ', 'a', 'b'] true).outcome
        = (rightRecursive.parse (Config.plain {}) default ['a', ' ', 'a', 'b'] true).outcome := by
  have hdeep : ¬ TooDeep (rightRecursive.parse (Config.plain {}) default ['a', ' ', 'a', 'b'] true).outcome := by
    decide +kernel
  exact ⟨seedSafe_rightRecursive, hdeep,
    leftRecursion_transparent seedSafe_rightRecursive {} default default ['a', ' ', 'a', 'b'] true hdeep⟩

/-! ## Necessity -/

/-- A forward that is attempted inside a combined region first, and then outside of it. -/
def joinedOrApart : Except BuildError Grammar := do
  let (a, b) ← (Builder.setDefaultWhitespace {} ⟨[⟨' ', ' '⟩]⟩).literal "a" false
  let (c, b) ← b.literal "b" false
  let (f, b) := b.forward "f"
  let (pair, b) := b.sequence [a, c]
  let b ← b.bind f pair
  let (joined, b) := b.combine f ""
  let (root, b) := b.orderedChoice [joined, f]
  b.build root

/-- The seed that stays behind inside the combined region answers outside of it, although the grammar has no
left-recursive forward: the plain parse of a text with a blank matches, the one that grows seeds fails. -/
theorem not_transparent_joinedOrApart :
    ∃ g, joinedOrApart = .ok g ∧ g.leftRecursive = [] ∧
      ¬ TooDeep (g.parse (Config.plain {}) default ['a', ' ', 'b'] true).outcome ∧
      (g.parse (Config.growing {}) default ['a', ' ', 'b'] true).outcome
        ≠ (g.parse (Config.plain {}) default ['a', ' ', 'b'] true).outcome := by
  have h : joinedOrApart.toOption.any (fun g => g.leftRecursive == [] &&
      (g.parse (Config.plain {}) default ['a', ' ', 'b'] true).outcome.isOk &&
      !(g.parse (Config.growing {}) default ['a', ' ', 'b'] true).outcome.isOk) = true := by decide +kernel
  cases hbuild : joinedOrApart with
  | error e =>
    rw [hbuild] at h
    exact absurd h (by simp [Except.toOption])
  | ok g =>
    rw [hbuild] at h
    simp only [Except.toOption, Option.any_some, Bool.and_eq_true, beq_iff_eq, Bool.not_eq_true'] at h
    obtain ⟨⟨hleft, hplain⟩, hgrowing⟩ := h
    refine ⟨g, rfl, hleft, ?_, ?_⟩
    · intro hdeep
      cases ho : (g.parse (Config.plain {}) default ['a', ' ', 'b'] true).outcome with
      | ok r => rw [ho] at hdeep; exact hdeep
      | error e => rw [ho] at hplain; exact absurd hplain (by simp [Except.isOk, Except.toBool])
    · intro heq
      rw [heq, hplain] at hgrowing
      exact absurd hgrowing (by simp)

/-- A forward with a commit marker that is looked ahead for leaves its first seed behind: where the plain parse
has a committed failure, the one that grows seeds has an ordinary one. -/
example :
    let g := Grammar.ofKinds [.literal "a" false, .literal "b" false, .commit, .forward "f" (some 4),
      .sequence [0, 2, 1], .lookahead 3, .orderedChoice [5, 3]] 6
    let code (config : Config) := match (g.parse config default ['a', 'c'] true).outcome with
      | .error e => e.code
      | .ok _ => ""
    code (Config.plain {}) = "parser::syntax" ∧ code (Config.growing {}) = "parser::mismatch" := by decide +kernel

/-- A forward is run without actions first. Where an action refuses a match and the plain parse takes the next
child of a choice, that run takes the first one, and the forward fails. -/
example :
    let g := Grammar.ofKinds [.literal "a" false, .transform 0 (.ofTest (fun _ => false) "refused"),
      .literal "ab" false, .literal "c" false, .forward "f" (some 6), .orderedChoice [1, 2], .sequence [5, 3]] 4
    (g.parse (Config.plain {}) default ['a', 'b', 'c'] true).outcome.isOk = true ∧
      (g.parse (Config.growing {}) default ['a', 'b', 'c'] true).outcome.isOk = false := by decide +kernel

end Packrat
