import Packrat.Proofs.Depth.Guarded
import Packrat.Proofs.Dispatch.Assembled
import Packrat.Proofs.Memory.Reset

/-!
# `Packrat.Proofs.Memory.Accounts` — hits and misses account for attempts

Where outcomes are remembered, an attempt is counted and then looked up, which counts a hit or a miss. Between the two
nothing halts, so whatever a parse comes to, each attempt has its hit or miss. Only what is attempted aside, behind a
position, is counted in a state of its own, of which the number of attempts is taken over, and the hits and misses are
not. So these never exceed the attempts, and without a look back they are as many.

## Contents

* `Grammar.Ties` — relations between uses and attempts that matching keeps: `ties_le`, `ties_eq`;
* `State.Tied` — states with such a relation, and `State.Tied.consulted`, a step from one to the next;
* `attemptWithin_tied`, `matchRoot_tied` — runs keep it;
* `Parser.Used.tied` — and so do histories of parses, halted ones too;
* `hits_add_misses_le`, `attempts_eq_hits_add_misses` — **the counters account for the attempts**.
-/

namespace Packrat

/-! ## Tables that are in use -/

namespace Memo

theorem isOn_blank (m : Memo) : m.blank.isOn = m.isOn := by cases m <;> rfl

theorem isOn_eq_of_blank_eq {m m' : Memo} (h : m'.blank = m.blank) : m'.isOn = m.isOn := by
  rw [← isOn_blank m', h, isOn_blank]

theorem isOn_ofStrategy {capacity : Option Nat} (h : capacity ≠ some 0) :
    (ofStrategy (.packrat capacity)).isOn = true := by
  rcases capacity with _ | _ | n
  · rfl
  · exact absurd rfl h
  · rfl

end Memo

/-! ## Relations between counts -/

/-- A relation between how often a table is used and how many attempts are made that holds at the beginning, and that
matching keeps: by one more of both and, where nodes look back, by more attempts. -/
structure Grammar.Ties (g : Grammar) (R : (uses attempts : Nat) → Prop) : Prop where
  start : R 0 0
  both : ∀ {uses attempts}, R uses attempts → R (uses + 1) (attempts + 1)
  behind : (∃ i, g.Leads g.root i ∧ (g.rule i).kind.looksBack = true) →
    ∀ {uses attempts}, R uses attempts → ∀ more, R uses (attempts + more)

namespace Grammar

variable {g : Grammar}

/-- There is a default rule at indices of no rule. -/
theorem rule_of_size_le {i : ExprId} (h : g.size ≤ i) : g.rule i = default := by
  rw [rule, Array.getElem?_eq_none h]
  rfl

/-- There are never more uses than attempts. -/
theorem ties_le (g : Grammar) : g.Ties (· ≤ ·) where
  start := Nat.le_refl 0
  both := Nat.succ_le_succ
  behind _ _ _ h _ := Nat.le_add_right_of_le h

/-- A node that the root leads to, and that looks back, is a node of the walk from the root. -/
theorem mem_walk_of_looksBack {i : ExprId} (hi : g.Leads g.root i) (hback : (g.rule i).kind.looksBack = true) :
    i ∈ g.walk g.root := by
  have hlt : i < g.size := by
    by_contra hle
    rw [rule_of_size_le (Nat.le_of_not_lt hle)] at hback
    exact absurd hback Bool.false_ne_true
  exact mem_preorder.mpr ⟨lt_size_nodes hlt, g.root, List.mem_singleton_self _, hi⟩

/-- Where nothing looks back there are as many uses as attempts. -/
theorem ties_eq (h : ∀ i ∈ g.walk g.root, (g.rule i).kind.looksBack = false) : g.Ties (· = ·) where
  start := rfl
  both := congrArg Nat.succ
  behind := by
    rintro ⟨i, hi, hback⟩
    rw [h i (mem_walk_of_looksBack hi hback)] at hback
    exact absurd hback Bool.false_ne_true

/-- The nodes that a node leads to attempt each other only. -/
theorem attemptsWithin_leads (g : Grammar) (i : ExprId) : g.AttemptsWithin (g.Leads i) := by
  have href {a b : ExprId} (ha : g.Leads i a) (hb : b ∈ (g.rule a).references) : g.Leads i b := by
    by_cases hlt : a < g.size
    · exact Relation.ReflTransGen.trans ha (leads_of_reference hlt hb)
    · rw [rule_of_size_le (Nat.le_of_not_lt hlt)] at hb
      exact absurd hb List.not_mem_nil
  constructor
  · intro a b ha hb
    apply href ha
    apply List.mem_append_left
    unfold NodeKind.attempted at hb
    split at hb
    · next children hk =>
      show b ∈ (g.rule a).kind.children
      rw [hk]
      exact (List.mem_filter.mp hb).1
    · exact hb
  · intro a b ha hb
    exact href ha (List.mem_append_right _ hb)

end Grammar

/-! ## States -/

/-- A look into the table is a hit or a miss. -/
theorem State.consulted_counts (s : State) (key : MemoKey) :
    (s.consulted key).metrics.hits + (s.consulted key).metrics.misses = s.metrics.hits + s.metrics.misses + 1 ∧
      (s.consulted key).metrics.attempts = s.metrics.attempts := by
  unfold State.consulted
  dsimp only
  split
  · exact ⟨Nat.add_right_comm _ _ _, rfl⟩
  · exact ⟨rfl, rfl⟩

/-- A state with a table in use, whose counts are in a relation. -/
structure State.Tied (R : Nat → Nat → Prop) (s : State) : Prop where
  on : s.memo.isOn = true
  counts : R (s.metrics.hits + s.metrics.misses) s.metrics.attempts

namespace State.Tied

variable {R : Nat → Nat → Prop} {s s' : State}

/-- The relation is about what attempts leave behind. -/
theorem unattempted (h : s.Tied R) (hs : s'.Unattempted s) : s'.Tied R := by
  constructor
  · rw [hs.memo]
    exact h.on
  · rw [hs.hits, hs.misses, hs.attempts]
    exact h.counts

theorem withMemo (h : s.Tied R) {m : Memo} (hm : m.blank = s.memo.blank) : ({ s with memo := m } : State).Tied R :=
  ⟨(Memo.isOn_eq_of_blank_eq hm).trans h.on, h.counts⟩

/-- **An attempt is counted once, and so is the use of the table for it**, be it a hit or a miss. -/
theorem consulted {g : Grammar} (hR : g.Ties R) (h : s.Tied R) (key : MemoKey) : (s.counted.consulted key).Tied R := by
  obtain ⟨huses, hattempts⟩ := s.counted.consulted_counts key
  constructor
  · exact (Memo.isOn_eq_of_blank_eq (Memo.blank_find? _ _)).trans h.on
  · rw [huses, hattempts]
    exact hR.both h.counts

end State.Tied

/-! ## Runs -/

/-- A computation that keeps the relation between the counts. -/
abbrev MatchM.Ties {α : Type} (R : Nat → Nat → Prop) (m : MatchM α) : Prop :=
  Keeps (State.Tied R) (fun _ => True) (fun _ => True) m

section Runs

variable {g : Grammar} {R : Nat → Nat → Prop} (hR : g.Ties R)
include hR

/-- What is put together from attempts keeps the relation when these do. -/
theorem Assembled.ties {a : Attempt} {t : Text} {α : Type} {m : MatchM α}
    (h : Assembled g (·.grammar = g) (g.Leads g.root) a a t m m)
    (ha : ∀ {c i p acts skips}, c.grammar = g → g.Leads g.root i → MatchM.Ties R (a c i p acts skips)) : m.Ties R :=
  h.keeps (I := fun _ s => s.Tied R) ha (fun hless hs => hs.unattempted hless) fun hback _ _ _ attempts hs =>
    ⟨hs.on, hR.behind hback hs.counts attempts⟩

/-- An attempt that is looked up, or performed, keeps the relation when performing it does. -/
theorem remember_tied {a : Attempt} {c : Context} {i : ExprId} {p : Nat} {acts : Bool}
    (hperform : ∀ skips, MatchM.Ties R (perform a c i p acts skips)) (skips : Bool) :
    MatchM.Ties R (remember a c i p acts skips) := by
  intro s hs
  have hconsulted := hs.consulted hR (c.key i p acts (skips && !c.adjacent))
  have hrun := hperform (skips && !c.adjacent) _ hconsulted
  rw [remember_of_isOn hs.on]
  cases (s.memo.find? (c.key i p acts (skips && !c.adjacent))).1 with
  | some step => exact ⟨trivial, hconsulted⟩
  | none =>
    dsimp only
    generalize perform a c i p acts (skips && !c.adjacent) _ = r at hrun ⊢
    cases r with
    | ok step s' => exact ⟨trivial, hrun.2.withMemo (Memo.blank_insert _ _ _)⟩
    | error e s' =>
      -- a halt comes after the miss was counted
      exact hrun

/-- **Attempts keep the relation**, halted ones too. -/
theorem attemptWithin_tied (n : Nat) {c : Context} (hg : c.grammar = g) {i : ExprId} (hi : g.Leads g.root i) (p : Nat)
    (acts skips : Bool) : MatchM.Ties R (attemptWithin n c i p acts skips) := by
  induction n generalizing c i p acts skips with
  | zero => exact Keeps.halt trivial
  | succ n ih =>
    have hperform (b : Bool) : MatchM.Ties R (perform (attemptWithin n) c.deeper i p acts b) :=
      perform_keeps (a := attemptWithin n) (I := fun _ s => s.Tied R) (Grammar.Contexts.all g)
        (g.attemptsWithin_leads g.root) (fun hc hj => ih hc hj _ _ _) (fun hless hs => hs.unattempted hless)
        (fun hback _ _ _ attempts hs => ⟨hs.on, hR.behind hback hs.counts attempts⟩) (fun _ hs => ⟨hs.on, hs.counts⟩)
        (c := c.deeper) hg hi p acts b
    apply Upkeep.attemptWithin_succ_keeps fun _ => trivial
    exact remember_tied hR hperform skips

/-- The match of the root keeps the relation. -/
theorem matchRoot_tied {c : Context} (hg : c.grammar = g) (all : Bool) : MatchM.Ties R (matchRoot c all) := by
  have hmade : Assembled g (·.grammar = g) (g.Leads g.root) (attempt c) (attempt c) c.text (matchRoot c all)
      (matchRoot c all) :=
    Assembled.matchRootBy_assembled (Grammar.Contexts.all g) hg (g.attemptsWithin_leads g.root)
      Relation.ReflTransGen.refl all
  exact hmade.ties hR fun hc hi => attemptWithin_tied hR _ hc hi _ _ _

end Runs

/-! ## Histories -/

/-- **Histories of parses keep the relation**: whatever each of them came to, and with resets in between. -/
theorem Parser.Used.tied {p : Parser} (hp : p.Used) {R : Nat → Nat → Prop} (hR : p.grammar.Ties R)
    {capacity : Option Nat} (hmode : p.config.memoization = .packrat capacity) (hcapacity : capacity ≠ some 0) :
    p.state.Tied R := by
  have hon {p : Parser} (hp : p.Used) (hmode : p.config.memoization = .packrat capacity) :
      p.state.memo.isOn = true := by
    rw [← Memo.isOn_blank, hp.blank, hmode]
    exact Memo.isOn_ofStrategy hcapacity
  refine ⟨hon hp hmode, ?_⟩
  induction hp with
  | new g config watch => exact hR.start
  | @parse p hp t all ih =>
    let view := viewOf p.config t
    let c := Context.top p.grammar p.config p.watch view
    let s : State := { p.state.forget with journal := [] }
    have hs : s.Tied R :=
      ⟨(Memo.isOn_eq_of_blank_eq (Memo.blank_clear _)).trans (hon hp hmode), ih hR hmode⟩
    have hkeeps := matchRoot_tied hR (c := c) rfl all s hs
    show R ((resolve view (matchRoot c all s)).2.metrics.hits + (resolve view (matchRoot c all s)).2.metrics.misses)
      (resolve view (matchRoot c all s)).2.metrics.attempts
    cases hrun : matchRoot c all s with
    | ok step s' =>
      rw [hrun] at hkeeps
      cases step with
      | matched stop r => exact hkeeps.2.counts
      | failed d => exact hkeeps.2.counts
    | error e s' =>
      rw [hrun] at hkeeps
      exact hkeeps.2.counts
  | reset hp ih => exact hR.start

/-- There are never more hits and misses than attempts. -/
theorem hits_add_misses_le {p : Parser} (hp : p.Used) {capacity : Option Nat}
    (hmode : p.config.memoization = .packrat capacity) (hcapacity : capacity ≠ some 0) :
    p.metrics.hits + p.metrics.misses ≤ p.metrics.attempts :=
  (hp.tied p.grammar.ties_le hmode hcapacity).counts

/-- **Hits and misses account for every attempt**, at any point of any history of parses and resets by a parser that
remembers outcomes, if nothing that the root leads to looks back. -/
theorem attempts_eq_hits_add_misses {p : Parser} (hp : p.Used) {capacity : Option Nat}
    (hmode : p.config.memoization = .packrat capacity) (hcapacity : capacity ≠ some 0)
    (hback : ∀ i ∈ p.grammar.walk p.grammar.root, (p.grammar.rule i).kind.looksBack = false) :
    p.metrics.attempts = p.metrics.hits + p.metrics.misses :=
  (hp.tied (Grammar.ties_eq hback) hmode hcapacity).counts.symm

/-- A letter twice, or before another one. -/
def letterPairs : Builder :=
  .ofCalls [.setDefaultWhitespace ⟨[⟨' ', ' '⟩]⟩, .literal "a" false, .literal "b" false, .sequence [0, 0],
    .sequence [0, 1], .orderedChoice [2, 3]]

/-- The first letter of the second pair is found in the table, after a parse that failed as in a new one. -/
theorem attempts_eq_hits_add_misses_letterPairs : ∃ g, letterPairs.build 4 = .ok g ∧
    (∀ i ∈ g.walk g.root, (g.rule i).kind.looksBack = false) ∧
      let p := Parser.new g { memoization := .packrat (some 9) } default
      let q := ((p.parse ['b'] true).2.parse ['a', 'b'] true).2
      0 < q.metrics.hits ∧ q.metrics.attempts = q.metrics.hits + q.metrics.misses := by
  have hback : ∀ i ∈ ((letterPairs.build 4).toOption.getD default).walk
      ((letterPairs.build 4).toOption.getD default).root,
      (((letterPairs.build 4).toOption.getD default).rule i).kind.looksBack = false := by decide +kernel
  refine ⟨_, eq_ok_of_isOk (by decide +kernel), hback, by decide +kernel, ?_⟩
  exact attempts_eq_hits_add_misses (.parse (.parse (.new _ _ _) _ _) _ _) rfl (by simp) hback

/-- A letter, and the end behind it. -/
def letterBehind : Builder :=
  .ofCalls [.setDefaultWhitespace ⟨[⟨' ', ' '⟩]⟩, .literal "a" false, .precededBy 0 none, .sequence [0, 1]]

/-- Of the four attempts that a parse of the letter makes three are missed and none is hit: the one behind the end is
counted as neither. -/
theorem attempts_ne_hits_add_misses_letterBehind : ∃ g, letterBehind.build 2 = .ok g ∧
    let p := ((Parser.new g { memoization := .packrat (some 9) } default).parse ['a'] true).2
    p.Used ∧ p.config.memoization = .packrat (some 9) ∧ p.metrics.attempts ≠ p.metrics.hits + p.metrics.misses := by
  refine ⟨_, eq_ok_of_isOk (by decide +kernel), .parse (.new _ _ _) _ _, rfl, ?_⟩
  show ¬ (Parser.metrics _).attempts = _
  decide +kernel

end Packrat
