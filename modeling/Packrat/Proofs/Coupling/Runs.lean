import Packrat.Scan
import Packrat.Proofs.Coupling.Nodes

/-!
# `Packrat.Proofs.Coupling.Runs` — linked parses and scans

When the attempts of two contexts are linked, so are a parse of a whole text and a scan: unless the first run
nests too deeply, both give the same.

## Contents

* `TooDeep` — results that nest too deeply;
* `Grammar.ofKinds` — small grammars, written down;
* `matchRoot_linked`, `Coupling.Agree.resolve` — parses;
* `ScansAlike`, `collectAll_alike` — scans.
-/

namespace Packrat

/-! ## Too deep nesting -/

/-- Whether an error says that attempts nest too deeply, beyond a limit or without end. -/
def ParseError.isTooDeep : ParseError → Bool
  | .recursionLimit _ _ | .endless => true
  | _ => false

theorem Halt.isTooDeep_toError (t : Text) (h : Halt) : (h.toError t).isTooDeep = h.isTooDeep := by
  cases h <;> rfl

/-- Something was not found because attempts nest too deeply. -/
def TooDeep {α : Type} : Except ParseError α → Prop
  | .error e => e.isTooDeep = true
  | .ok _ => False

instance {α : Type} (x : Except ParseError α) : Decidable (TooDeep x) :=
  match x with
  | .error e => inferInstanceAs (Decidable (e.isTooDeep = true))
  | .ok _ => inferInstanceAs (Decidable False)

theorem tooDeep_toError {α : Type} (t : Text) {h : Halt} (hh : h.isTooDeep = true) :
    TooDeep (.error (h.toError t) : Except ParseError α) :=
  (Halt.isTooDeep_toError t h).trans hh

/-! ## Small grammars -/

/-- A grammar of expressions that all skip blanks and have no ignorables. -/
def Grammar.ofKinds (kinds : List NodeKind) (root : ExprId) : Grammar where
  rules := (kinds.map fun kind =>
    { kind, whitespace := ⟨[⟨' ', ' '⟩]⟩, display := "", message := "", savesList := false : Rule }).toArray
  root
  defaultWhitespace := ⟨[⟨' ', ' '⟩]⟩
  leftRecursive := []

section OfKinds

variable (kinds : List NodeKind) (root i : ExprId)

/-- The rule of an expression that is written down. -/
theorem Grammar.rule_ofKinds {kind : NodeKind} (h : kinds[i]? = some kind) :
    (Grammar.ofKinds kinds root).rule i
      = { kind, whitespace := ⟨[⟨' ', ' '⟩]⟩, display := "", message := "", savesList := false } := by
  simp [Grammar.rule, Grammar.ofKinds, h]

/-- The expressions of a small grammar are those written down, and a stand-in where there is none. -/
theorem Grammar.kind_ofKinds : ((Grammar.ofKinds kinds root).rule i).kind ∈ .literal "" false :: kinds := by
  cases h : kinds[i]? with
  | none =>
    have hrule : (Grammar.ofKinds kinds root).rule i = default := by simp [Grammar.rule, Grammar.ofKinds, h]
    rw [hrule]
    exact List.mem_cons_self
  | some kind =>
    rw [Grammar.rule_ofKinds kinds root i h]
    exact List.mem_cons_of_mem _ (List.mem_of_getElem? h)

theorem Grammar.ignores_ofKinds : ((Grammar.ofKinds kinds root).rule i).ignores = [] := by
  cases h : kinds[i]? with
  | none =>
    have hrule : (Grammar.ofKinds kinds root).rule i = default := by simp [Grammar.rule, Grammar.ofKinds, h]
    rw [hrule]
    rfl
  | some kind => rw [Grammar.rule_ofKinds kinds root i h]

end OfKinds

namespace Coupling

variable {g : Grammar} {K : Coupling g} {w : K.World} {r : Bool} {c₁ c₂ : Context}

/-! ## Parses -/

/-- Matches the root at the start of the text, and the end after it if the whole text is wanted, by given
attempts. -/
def matchRootBy (a : Attempt) (c : Context) (all : Bool) : MatchM Step := do
  let g := c.grammar
  match ← a c g.root 0 true true with
  | .failed d => return .failed d
  | .matched stop results =>
    if !all then return .matched stop results
    let loc ← skipLeading a c (g.rule g.root) stop
    let loc := c.text.skip g.defaultWhitespace.contains loc
    if loc < c.text.size then return .failed ⟨loc, "Expected end of text"⟩
    return .matched loc results

section Parse

theorem matchRootBy_linked {a₁ a₂ : Attempt} (ha : K.Agrees a₁ a₂) (hc : K.contexts w c₁ c₂)
    (hroot : K.nodes c₁.adjacent r g.root) (all : Bool) :
    K.Linked w r (Step.Alike K.exact) (matchRootBy a₁ c₁ all) (matchRootBy a₂ c₂ all) := by
  simp only [matchRootBy, (K.alike hc).grammar₁, (K.alike hc).grammar₂, ← (K.alike hc).text]
  refine Linked.step (ha hc hroot fun _ => rfl) ?_ fun d => Linked.pure rfl
  intro stop p₁ p₂ hp
  cases all with
  | false => exact Linked.pure ⟨rfl, hp⟩
  | true =>
    simp only [Bool.not_true, Bool.false_eq_true, if_false]
    refine (skipLeading_linked ha hc (fun j hj => K.nodes_recovering hroot (by simp [hj])) stop).bind ?_
    intro a b hab
    subst hab
    split
    · exact Linked.pure rfl
    · exact Linked.pure ⟨rfl, hp⟩

variable (ha : K.Agrees (attempt c₁) (attempt c₂)) (hc : K.contexts w c₁ c₂) (hroot : K.nodes c₁.adjacent r g.root)
include ha hc hroot

theorem matchRoot_linked (all : Bool) :
    K.Linked w r (Step.Alike K.exact) (matchRoot c₁ all) (matchRoot c₂ all) :=
  matchRootBy_linked ha hc hroot all

theorem attemptAt_linked (p : Nat) :
    K.Linked w r (fun x y => x.1 = y.1 ∧ x.2.Alike K.exact y.2) (Scan.attemptAt c₁ p) (Scan.attemptAt c₂ p) := by
  simp only [Scan.attemptAt, (K.alike hc).grammar₁, (K.alike hc).grammar₂]
  refine (skipLeading_linked ha hc (fun j hj => K.nodes_recovering hroot (by simp [hj])) p).bind ?_
  intro a b hab
  subst hab
  exact (ha hc hroot fun _ => rfl).bind fun x y hxy => Linked.pure ⟨rfl, hxy⟩

end Parse

/-- Runs that agree come to the same results or error, unless the first nests too deeply. -/
theorem Agree.resolve (he : K.exact = true) {x y : EStateM.Result Halt State Step}
    (h : K.Agree w r (Step.Alike K.exact) x y) (t : Text) (hdeep : ¬ TooDeep (resolve t x).1)
    (hunexcused : K.deep₂ = false := by rfl) : (Packrat.resolve t x).1 = (Packrat.resolve t y).1 := by
  rcases h.cases hunexcused with ⟨e, s, htoo, rfl⟩ | ⟨e, s, s', rfl, rfl, -⟩ | ⟨a, b, s, s', rfl, rfl, hab, -⟩
  · exact absurd (tooDeep_toError t htoo) hdeep
  · rfl
  · rw [he] at hab
    rw [Step.alike_true hab]
    cases b <;> rfl

/-! ## Scans -/

variable (K w) in
/-- Two scans have come equally far, and their runs are linked from here on. -/
structure ScansAlike (s₁ s₂ : Scan) : Prop where
  agrees : K.Agrees (attempt s₁.context) (attempt s₂.context)
  contexts : K.contexts w s₁.context s₂.context
  root : K.nodes s₁.context.adjacent false g.root
  position : s₁.position = s₂.position
  done : s₁.done = s₂.done
  state : s₁.done = false → K.state w s₁.state s₂.state

namespace ScansAlike

variable (he : K.exact = true) {s₁ s₂ : Scan}
include he

theorem nextWithin (fuel : Nat) (h : ScansAlike K w s₁ s₂) (hunexcused : K.deep₂ = false) :
    (∃ item, (s₁.nextWithin fuel).1 = some item ∧ TooDeep item) ∨
      ((s₁.nextWithin fuel).1 = (s₂.nextWithin fuel).1
        ∧ ScansAlike K w (s₁.nextWithin fuel).2 (s₂.nextWithin fuel).2) := by
  induction fuel generalizing s₁ s₂ with
  | zero => exact Or.inr ⟨rfl, h.agrees, h.contexts, h.root, h.position, rfl, by simp [Scan.nextWithin]⟩
  | succ fuel ih =>
    obtain ⟨c₁, t₁, p, done⟩ := s₁
    obtain ⟨c₂, t₂, p₂, done₂⟩ := s₂
    obtain ⟨hagrees, hc, hroot, rfl, rfl, hstate⟩ := h
    dsimp only at hagrees hc hroot hstate
    have htext : c₁.text = c₂.text := (K.alike hc).text
    unfold Scan.nextWithin
    simp only [← htext]
    by_cases hend : (done || decide (c₁.text.size < p)) = true
    · rw [if_pos hend, if_pos hend]
      exact Or.inr ⟨rfl, hagrees, hc, hroot, rfl, rfl, by simp⟩
    · rw [if_neg hend, if_neg hend]
      have hdone : done = false := by
        simp only [Bool.or_eq_true, not_or, Bool.not_eq_true] at hend
        exact hend.1
      simp only [EStateM.run]
      rcases (attemptAt_linked hagrees hc hroot p t₁ t₂ (hstate hdone)).cases hunexcused with
        ⟨e, u₁, htoo, h₁⟩ | ⟨e, u₁, u₂, h₁, h₂, -⟩ | ⟨⟨start, step⟩, b, u₁, u₂, h₁, h₂, halike, hstate'⟩
      · -- the first attempt nests too deeply, and this is the item
        rw [h₁]
        exact Or.inl ⟨_, rfl, tooDeep_toError _ htoo⟩
      · rw [h₁, h₂]
        exact Or.inr ⟨rfl, hagrees, hc, hroot, rfl, rfl, by simp⟩
      · obtain ⟨start', step'⟩ := b
        obtain rfl : start = start' := halike.1
        obtain rfl : step = step' := Step.alike_true (he ▸ halike.2)
        rw [h₁, h₂]
        cases step with
        | failed d => exact ih ⟨hagrees, hc, hroot, rfl, rfl, fun _ => hstate'⟩
        | matched stop results =>
          dsimp only
          by_cases hlt : p < stop
          · rw [if_pos hlt, if_pos hlt]
            exact Or.inr ⟨rfl, hagrees, hc, hroot, rfl, rfl, fun _ => hstate'⟩
          -- an empty match is passed over
          · rw [if_neg hlt, if_neg hlt]
            exact ih ⟨hagrees, hc, hroot, rfl, rfl, fun _ => hstate'⟩

theorem collect (n : Nat) (h : ScansAlike K w s₁ s₂)
    (hdeep : ∀ x ∈ (s₁.collect n).1, ¬ TooDeep x.1) (hunexcused : K.deep₂ = false) :
    (s₁.collect n).1 = (s₂.collect n).1 := by
  induction n generalizing s₁ s₂ with
  | zero => rfl
  | succ n ih =>
    have hnext := h.nextWithin he (s₁.context.text.size + 2) hunexcused
    rw [show s₁.context.text.size = s₂.context.text.size by rw [(K.alike h.contexts).text]] at hnext
    have h₁ : s₁.next = s₁.nextWithin (s₂.context.text.size + 2) := by
      rw [Scan.next, (K.alike h.contexts).text]
    unfold Scan.collect at hdeep ⊢
    rw [h₁] at hdeep ⊢
    rw [Scan.next]
    rcases hx : s₁.nextWithin (s₂.context.text.size + 2) with ⟨item₁, s₁'⟩
    rcases hy : s₂.nextWithin (s₂.context.text.size + 2) with ⟨item₂, s₂'⟩
    rw [hx, hy] at hnext
    rw [hx] at hdeep
    dsimp only at hnext hdeep ⊢
    cases item₁ with
    | none =>
      rcases hnext with ⟨item, hitem, -⟩ | ⟨rfl, -⟩
      · exact absurd hitem (by simp)
      · rfl
    | some item =>
      rcases hnext with ⟨item', hitem, htoo⟩ | ⟨rfl, hs⟩
      · obtain rfl : item = item' := by simpa using hitem
        exact absurd htoo (hdeep _ List.mem_cons_self)
      · dsimp only at hdeep ⊢
        -- the item of the first scan is not too deep, so the second one has it too
        rw [ih hs fun x hx => hdeep x (List.mem_cons_of_mem _ hx), hs.position]

/-- Scans whose runs are linked yield the same, unless the first nests too deeply. -/
theorem collectAll (h : ScansAlike K w s₁ s₂) (hdeep : ∀ item ∈ s₁.collectAll.1, ¬ TooDeep item)
    (hunexcused : K.deep₂ = false := by rfl) : s₁.collectAll.1 = s₂.collectAll.1 := by
  have hbound : s₁.itemBound = s₂.itemBound := by rw [Scan.itemBound, Scan.itemBound, (K.alike h.contexts).text]
  simp only [Scan.collectAll, ← hbound] at hdeep ⊢
  rw [h.collect he s₁.itemBound (fun x hx => hdeep _ (List.mem_map_of_mem hx)) hunexcused]

end ScansAlike
end Coupling
end Packrat
