import Packrat.Proofs.Plain.Answer
import Packrat.Proofs.Placement.Nodes
import Packrat.Proofs.Seeds.Rounds

/-!
# `Packrat.Proofs.Seeds.Safety` — grammars that seeds are safe for

A seed is kept under the position and the forward, and stays after a failure. So seeds change outcomes when a
forward is attempted inside and outside a combined region, when a committed failure leaves half-grown seeds
behind and is recovered from, and when an action refuses a match that was found without it. A grammar is
*safe* when none of this can happen.

## Contents

* `Grammar.Visits` — the nodes a parse attempts, and where it attempts them;
* `Grammar.Reaches` — what a node refers to, directly or through others;
* `Grammar.SeedSafe` — grammars in which seeds change nothing;
* `Upkeep.uncommitted` — nodes that never halt with a committed failure;
* `answer?_forward` — the plain answer of a forward is that of its target.
-/

namespace Packrat

/-! ## Visiting and reaching -/

namespace Grammar

/-- The nodes a parse attempts: inside or outside a combined region, and where committed failures are recovered
from or not. -/
inductive Visits (g : Grammar) : (adjacent recovering : Bool) → ExprId → Prop
  | root : Visits g false false g.root
  | within {b r i j} : Visits g b r i → j ∈ (g.rule i).kind.within → Visits g b r j
  | recovering {b r i j} : Visits g b r i → j ∈ (g.rule i).kind.recovering ++ (g.rule i).ignores → Visits g b true j
  | combined {b r i j joiner} : Visits g b r i → (g.rule i).kind = .combine j joiner → Visits g true r j
  | behind {b r i j retreat} : Visits g b r i → (g.rule i).kind = .precededBy j retreat → Visits g false true j

/-- What a node refers to, directly or through others, and the node itself. -/
def Reaches (g : Grammar) : ExprId → ExprId → Prop :=
  Relation.ReflTransGen fun i j => j ∈ (g.rule i).references

variable {g : Grammar} {i j : ExprId}

theorem Reaches.self (g : Grammar) (i : ExprId) : g.Reaches i i := Relation.ReflTransGen.refl

theorem closed_reaches (g : Grammar) (i : ExprId) : g.Closed (g.Reaches i) := fun _ _ h hj => h.tail hj

theorem reaches_child (h : j ∈ (g.rule i).kind.children) : g.Reaches i j :=
  (closed_reaches g i).child (Reaches.self g i) h

/-- A node that refers to nothing reaches only itself. -/
theorem Reaches.eq_self (h : g.Reaches i j) (hnone : (g.rule i).references = []) : j = i := by
  rcases Relation.ReflTransGen.cases_head h with rfl | ⟨k, hk, -⟩
  · rfl
  · rw [hnone] at hk
    exact absurd hk List.not_mem_nil

/-- A forward that has a target. -/
def IsForward (g : Grammar) (i : ExprId) : Prop := ∃ label target, (g.rule i).kind = .forward label (some target)

/-- Seeds change nothing: every forward is attempted only inside combined regions or only outside them, none that
reaches a commit marker is attempted where committed failures are recovered from, and no action that a forward
reaches refuses a match. -/
structure SeedSafe (g : Grammar) : Prop where
  separate : ∀ {f a b r r'}, g.IsForward f → g.Visits a r f → g.Visits b r' f → a = b
  uncommitted : ∀ {f b}, g.IsForward f → g.Visits b true f → ∀ j, g.Reaches f j → (g.rule j).kind.isCommit = false
  accepting : ∀ {f b r}, g.IsForward f → g.Visits b r f → g.Accepting (g.Reaches f)

end Grammar

/-! ## Nodes without committed failures -/

/-- Where no commit marker is reached and no action refuses a match, no halt is a committed failure. -/
def Upkeep.uncommitted {g : Grammar} {N : ExprId → Prop} (hN : g.Closed N) (haccepting : g.Accepting N)
    (hcommit : ∀ i, N i → (g.rule i).kind.isCommit = false) : Upkeep g where
  sites := Sites.all
  halts _ _ h := h.isCommitted = false
  nodes := N
  closed := hN
  mono _ h := h
  placed h := absurd h (by simp [Halt.isCommitted])
  anywhere h _ := h
  behind _ h _ := h
  tooDeep _ := ⟨fun _ => rfl, rfl⟩
  growthLimit _ := rfl
  unboundForward _ _ _ _ := rfl
  sequence := by
    rintro i children hi hk ⟨j, hj, hc⟩
    rw [hcommit j (hN.child hi (by simp [hk, NodeKind.children, hj]))] at hc
    exact absurd hc Bool.false_ne_true
  transform := by
    intro i child action hi hk t p c r e h _ he _
    obtain ⟨r', hr'⟩ := haccepting hi hk c r
    rw [hr'] at he
    exact absurd he (by simp)

namespace Grammar

variable {g : Grammar} {t : Text} {k : Nat}

/-- Such nodes are never answered by a committed failure that halts. -/
theorem not_committed_of_answer {N : ExprId → Prop} (hN : g.Closed N) (haccepting : g.Accepting N)
    (hcommit : ∀ i, N i → (g.rule i).kind.isCommit = false) {key : MemoKey} (hkey : N key.id) {e : Halt}
    (h : g.answer? t k key = some (.error e)) : e.isCommitted = false := by
  obtain ⟨-, s, hs⟩ := answerOf?_eq_error h
  have hsound := Upkeep.attemptWithin_sound (Upkeep.uncommitted hN haccepting hcommit) k
  have hrun : (Upkeep.uncommitted hN haccepting hcommit).Run (plainContext g t key.adjacent) key.position _
    (attemptWithin k (plainContext g t key.adjacent) key.id key.position key.acts key.skips) :=
    hsound rfl hkey trivial
  have hend := hrun (State.initial {}) (State.Placed.initial _ _ _)
  rw [hs] at hend
  exact hend.1

end Grammar

/-! ## Forwards -/

/-- An answer with a node recorded as its origin. -/
def Answer.withOrigin (i : ExprId) : Answer → Answer
  | .ok step => .ok (step.mapResults (ResultsOf.withOrigin i))
  | .error e => .error e

/-- Where nobody watches and forwards grow no seeds, an attempt of a forward is one of its target. -/
theorem perform_forward {a : Attempt} {c : Context} {f target : ExprId} {label : String}
    (hk : (c.rule f).kind = .forward label (some target)) (hwatch : c.watch = default) (hc : c.IsPlain) (p : Nat)
    (acts : Bool) (s : State) :
    answerOf? (perform a c f p acts false s)
      = (answerOf? (a c target p acts false s)).map (Answer.withOrigin f) := by
  -- nothing is reported, before the target is attempted or after
  have htry : reportTry c.watch (c.watch.wants (c.rule f)) f p s = .ok () s := by rw [hwatch]; rfl
  simp only [perform]
  rw [bind_ok htry]
  show answerOf? ((matchNode a c f (c.rule f) p acts >>= fun step => _) s) = _
  rw [matchNode_forward hc.seedless hk]
  cases h : a c target p acts false s with
  | error e s' =>
    rw [bind_error h]
    cases he : e.isTooDeep with
    | true => rw [answerOf?_tooDeep he]; rfl
    | false => rw [answerOf?_error he]; rfl
  | ok step s' =>
    rw [bind_ok h, hwatch]
    rfl

namespace Grammar

variable {g : Grammar} {t : Text} {k : Nat}

/-- The plain answer of a forward is the one of its target. -/
theorem answer?_forward {f target : ExprId} {label : String}
    (hk : (g.rule f).kind = .forward label (some target)) (p : Nat) (acts adjacent : Bool) :
    g.answer? t (k + 1) ⟨f, p, acts, false, adjacent⟩
      = (g.answer? t k ⟨target, p, acts, false, adjacent⟩).map (Answer.withOrigin f) := by
  let c := (plainContext g t adjacent).deeper
  have htarget := answerOf?_attemptWithin (c := c) rfl rfl (s := (State.initial {}).counted) rfl k target p acts false
  rw [show c.room k = k from rfl] at htarget
  rw [show g.answer? t k ⟨target, p, acts, false, adjacent⟩ = _ from htarget.symm,
    ← perform_forward (c := c) hk rfl rfl]
  show answerOf? (remember (attemptWithin k) c f p acts false (State.initial {})) = _
  rw [remember_off rfl]
  rfl

end Grammar
end Packrat
