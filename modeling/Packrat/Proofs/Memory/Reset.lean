import Packrat.Proofs.Depth.Runs
import Packrat.Proofs.Placement.Safety

/-!
# `Packrat.Proofs.Memory.Reset` — a parser that is reset is as good as new

Parses fill a table and leave it behind, after halts too, but it stays the kind of table that its strategy makes:
without a limit, with the same limit, or none at all. So a reset parser that forgets nothing is the parser that was
made at first.

## Contents

* `Memo.blank`, `State.MadeBy` — what a table is without its contents;
* `attemptWithin_madeBy`, `matchRoot_madeBy` — runs leave tables of the same kind;
* `Parser.Used`, `Parser.Used.reset_eq_new` — **a reset parser is a new one**.
-/

namespace Packrat

/-! ## Kinds of tables -/

namespace Memo

/-- A table as it was made: without outcomes, and never used. -/
def blank : Memo → Memo
  | .off => .off
  | .all _ => .all ∅
  | .limited retention _ _ => .limited retention 0 []

@[simp] theorem blank_ofStrategy (strategy : Memoization) : (ofStrategy strategy).blank = ofStrategy strategy := by
  rcases strategy with _ | ((_ | _ | n)) | _ <;> rfl

@[simp] theorem blank_clear (m : Memo) : m.clear.blank = m.blank := by cases m <;> rfl

@[simp] theorem blank_insert (m : Memo) (key : MemoKey) (step : Step) : (m.insert key step).blank = m.blank := by
  cases m <;> rfl

@[simp] theorem blank_find? (m : Memo) (key : MemoKey) : (m.find? key).2.blank = m.blank := by
  cases m with
  | off | all => rfl
  | limited retention uses entries =>
    simp only [find?]
    cases entries.lookup key <;> rfl

end Memo

/-- A table that a strategy made, in which everything lies at places of the text. -/
structure State.MadeBy (strategy : Memoization) (t : Text) (s : State) : Prop where
  placed : s.Placed .places t
  blank : s.memo.blank = .ofStrategy strategy

namespace State.MadeBy

variable {strategy : Memoization} {t : Text} {s s' : State}

theorem congr (h : s.MadeBy strategy t) (hs : s'.SameTables s) : s'.MadeBy strategy t :=
  ⟨h.placed.congr hs, hs.memo ▸ h.blank⟩

theorem initial (config : Config) (t : Text) : (State.initial config).MadeBy config.memoization t :=
  ⟨State.Placed.initial _ _ _, Memo.blank_ofStrategy _⟩

/-- While a seed grows, the table stays of its kind. -/
theorem growth {keys : SeedKeys} (hp : t.IsBoundary keys.position) (acts : Bool) :
    Growth (State.MadeBy strategy t) (State.MadeBy strategy t) (fun _ => True) (Sites.places.Holds t keys.position) t
      keys acts :=
  have h := Checked.growth_placed hp acts
  { start := h.start
    ends := h.ends
    first := h.first
    answered := fun hs => h.answered hs.placed
    opens := fun hs hget => ⟨h.opens hs.placed hget, hs.blank⟩
    grown := fun hs => ⟨h.grown hs.placed, hs.blank⟩
    put := fun hs hstep hkey => ⟨h.put hs.placed hstep hkey, hs.blank⟩
    held := fun hs => h.held hs.placed
    leaves := id
    closes := fun hs => ⟨h.closes hs.placed, hs.blank⟩ }

end State.MadeBy

/-! ## Runs -/

/-- Attempts that leave a table of the kind that their strategy makes. -/
def KeepsKind (g : Grammar) (a : Attempt) : Prop :=
  ∀ ⦃c i p acts skips⦄, c.grammar = g → c.text.IsBoundary p →
    Keeps (State.MadeBy c.config.memoization c.text) (fun _ => True) (Sites.places.Holds c.text p) (a c i p acts skips)

/-- One run in one context, from tables of the kind that its strategy makes. -/
@[reducible] def kindTwin {g : Grammar} (a : Attempt) (c : Context) (hc : c.grammar = g) : Twin g where
  inv := State.MadeBy c.config.memoization c.text
  halts _ := True
  first := a
  second := a
  c₁ := c
  c₂ := c
  empty _ := true
  grammar := hc
  peers := .refl c
  stable := fun hs ht => hs.congr ht
  ordinary _ _ := trivial
  nullable _ _ := rfl

section Attempts

variable {g : Grammar} {a : Attempt} {c : Context} (ha : KeepsKind g a) (hg : c.grammar = g) {p : Nat}
include ha hg

theorem KeepsKind.meets (acts : Bool) (q : Nat) (j : ExprId) (hq : c.text.IsBoundary q) :
    (kindTwin a c hg).Meets acts j q := by
  intro b skips _
  exact Concur.refl ((ha hg hq).mono (fun _ h => Checked.lands_of_holds h rfl) fun _ => id)

/-- Attempts that are performed leave a table of its kind when those that they make do. -/
theorem KeepsKind.perform (i : ExprId) (hp : c.text.IsBoundary p) (acts skips : Bool) :
    Keeps (State.MadeBy c.config.memoization c.text) (fun _ => True) (fun _ => True)
      (perform a c i p acts skips) := by
  have hserves (q : Nat) (hq : c.text.IsBoundary q) : (kindTwin a c hg).Serves i q acts := by
    apply Twin.Serves.of_everywhere (ha.meets hg) hq fun _ => rfl
    · exact fun child => KeepsKind.meets (c := c.combined) ha hg acts q child hq
    · intro child
      refine ⟨State.MadeBy c.config.memoization (c.behind q).text, ?_, ?_⟩
      · exact fun s hs => (State.MadeBy.initial c.config _).congr hs
      · exact fun q' hq' => Concur.refl ((ha (c := c.behind q) hg hq').mono (fun _ _ => trivial) fun _ => id)
    · intro label target hk
      by_cases hmode : c.config.memoization = .leftRecursion
      · simp only [matchNode, hk, hmode, if_true]
        have hgrowth := @State.MadeBy.growth c.config.memoization c.text ⟨q, i⟩ hq acts
        have hgrow : Concur (State.MadeBy c.config.memoization c.text) (fun _ => True) (Sites.places.Holds c.text q)
            (growSeed a c (g.rule i) i target q acts) (growSeed a c (g.rule i) i target q acts) :=
          growSeed_same hgrowth (fun b _ => Concur.refl (ha hg hq)) rfl rfl (Or.inl fun _ _ => trivial)
        exact hgrow.mono (fun step hstep => Checked.lands_of_holds hstep trivial) fun _ => id
      · rw [matchNode_forward hmode hk]
        exact ha.meets hg acts q target hq acts false id
  have hsame := Twin.perform_same (D := kindTwin a c hg) (fun q _ hq => hserves q hq) hp skips
  exact hsame.keeps.mono (fun _ _ => trivial) fun _ => id

end Attempts

theorem consult_madeBy (strategy : Memoization) (t : Text) (key : MemoKey) :
    Keeps (State.MadeBy strategy t) (fun _ => True) (fun x => ∀ step ∈ x, Sites.places.Holds t key.position step)
      (consult key) := by
  intro s hs
  have hplaced := Upkeep.consult_placed (H := fun _ => True) key s hs.placed
  exact ⟨hplaced.1, hplaced.2, (Memo.blank_find? _ _).trans hs.blank⟩

theorem store_madeBy {strategy : Memoization} {t : Text} {key : MemoKey} {step : Step}
    (hstep : Sites.places.Holds t key.position step) :
    Keeps (State.MadeBy strategy t) (fun _ => True) (fun _ => True) (store key step) := by
  refine Keeps.of_unit fun s hs => ⟨_, rfl, ?_, (Memo.blank_insert _ _ _).trans hs.blank⟩
  exact (Upkeep.store_placed (H := fun _ => True) hstep s hs.placed).2

/-- **Attempts leave a table of its kind**, whatever they end with. -/
theorem attemptWithin_madeBy (g : Grammar) (n : Nat) : KeepsKind g (attemptWithin n) := by
  induction n with
  | zero => exact fun c i p acts skips _ _ => Keeps.halt trivial
  | succ n ih =>
    intro c i p acts skips hg hp
    have hdeep : c.deeper.grammar = g := hg
    have hperform (b : Bool) : Keeps (State.MadeBy c.config.memoization c.text) (fun _ => True)
        (Sites.places.Holds c.text p) (perform (attemptWithin n) c.deeper i p acts b) :=
      (ih.perform hdeep i hp acts b).also (fun _ hs => hs.placed)
        (Upkeep.perform_run (Upkeep.attemptWithin_sound (Upkeep.places g) n) hdeep trivial hp acts b)
    apply Upkeep.attemptWithin_succ_keeps fun _ => trivial
    exact Upkeep.remember_keeps (fun {s} hs => hs.congr s.counted_sameTables) (hperform _) (consult_madeBy _ c.text _)
      fun _ hstep => store_madeBy hstep

/-- The match of the root leaves a table of its kind. -/
theorem matchRoot_madeBy (c : Context) (all : Bool) :
    Keeps (State.MadeBy c.config.memoization c.text) (fun _ => True) (fun _ => True) (matchRoot c all) := by
  have ha : KeepsKind c.grammar (attempt c) := attemptWithin_madeBy c.grammar (attemptFuel c)
  have hmeets {acts : Bool} {q : Nat} (j : ExprId) (hq : c.text.IsBoundary q) :
      (kindTwin (attempt c) c rfl).Meets acts j q := ha.meets rfl acts q j hq
  have hsame := Twin.matchRoot_same (D := kindTwin (attempt c) c rfl) rfl rfl
    (hmeets c.grammar.root c.text.isBoundary_zero) (fun j _ q _ hq => hmeets j hq) all
  exact hsame.keeps

/-! ## Parsers -/

/-- A parser that was made, has parsed, and was reset, any number of times. -/
inductive Parser.Used : Parser → Prop
  | new (g : Grammar) (config : Config) (watch : Watch) : Used (Parser.new g config watch)
  | parse {p : Parser} (h : Used p) (t : Text) (all : Bool) : Used (p.parse t all).2
  | reset {p : Parser} (h : Used p) : Used p.reset

namespace Parser.Used

variable {p : Parser}

/-- Between parses the journal is empty. -/
theorem journal (h : p.Used) : p.state.journal = [] := by
  induction h with
  | new g config watch => rfl
  | parse h t all => rfl
  | reset h ih => exact ih

/-- The table is of the kind that the strategy of the parser makes. -/
theorem blank (h : p.Used) : p.state.memo.blank = .ofStrategy p.config.memoization := by
  induction h with
  | new g config watch => exact Memo.blank_ofStrategy _
  | @parse p h t all ih =>
    let view := viewOf p.config t
    let c := Context.top p.grammar p.config p.watch view
    let s : State := { p.state.forget with journal := [] }
    have hs : s.MadeBy c.config.memoization c.text := ⟨State.Placed.forget _ _ _ _, (Memo.blank_clear _).trans ih⟩
    have hkeeps := matchRoot_madeBy c all s hs
    show (resolve view (matchRoot c all s)).2.memo.blank = _
    cases hrun : matchRoot c all s with
    | ok step s' =>
      rw [hrun] at hkeeps
      cases step with
      | matched stop r => exact hkeeps.2.blank
      | failed d => exact hkeeps.2.blank
    | error e s' =>
      rw [hrun] at hkeeps
      exact hkeeps.2.blank
  | @reset p h ih => exact (Memo.blank_clear _).trans ih

/-- **A parser that forgets nothing is as good as new when it is reset.** -/
theorem reset_eq_new (h : p.Used) (hc : p.config.memoization = .packrat none) :
    p.reset = Parser.new p.grammar p.config p.watch := by
  have hclear : p.state.memo.clear = .ofStrategy p.config.memoization := by
    have hblank := h.blank
    rw [hc] at hblank ⊢
    cases hm : p.state.memo with
    | all entries => rfl
    | off | limited =>
      rw [hm] at hblank
      exact absurd hblank (by simp [Memo.blank, Memo.ofStrategy])
  have hstate : p.reset.state = State.initial p.config := by
    show State.mk p.state.memo.clear .empty {} p.state.journal = State.initial p.config
    rw [hclear, h.journal]
    rfl
  show Parser.mk p.grammar p.config p.watch p.reset.state = _
  rw [hstate]
  rfl

end Parser.Used

end Packrat
