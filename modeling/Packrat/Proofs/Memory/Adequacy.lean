import Packrat.Proofs.Coupling.Runs
import Packrat.Proofs.Memory.Table
import Packrat.Proofs.Placement.Safety
import Packrat.Proofs.Plain.Told

/-!
# `Packrat.Proofs.Memory.Adequacy` — what a run that remembers finds is an answer

A remembered outcome takes no room for nesting, so a run that remembers may come to an outcome where the plain run with
the same room nests too deeply. It finds nothing new all the same: whatever it comes to, unless it nests too deeply
itself, is the answer that the plain attempt has with room enough, and so is everything that it leaves in its table.

## Contents

* `State.Truthful` — tables that hold answers, at places of the text;
* `Grammar.near` — the finitely many nodes that one node can lead to;
* `Coupling.adequate` — a run that remembers, and attempts that are told all answers there are;
* `attemptWithin_adequate` — **what a run that remembers finds is an answer**;
* `exists_told_matchRoot` — and so is what a parse matches.
-/

namespace Packrat

/-! ## Truthful tables -/

/-- The tables of a state hold answers on a text, and at places of it. -/
structure State.Truthful (g : Grammar) (t : Text) (s : State) : Prop where
  sound : s.memo.Sound g t
  placed : s.Placed .places t

namespace State.Truthful

variable {g : Grammar} {t : Text} {s s' : State}

theorem congr (h : s.Truthful g t) (hs : s'.SameTables s) : s'.Truthful g t := ⟨hs.memo ▸ h.sound, h.placed.congr hs⟩

theorem initial (g : Grammar) (t : Text) (config : Config) : (State.initial config).Truthful g t :=
  ⟨Memo.sound_ofStrategy _ _ _, State.Placed.initial _ _ _⟩

/-- A parse begins with truthful tables. -/
theorem forget (g : Grammar) (t : Text) (s : State) (journal : List Event) :
    ({ s.forget with journal } : State).Truthful g t :=
  ⟨Memo.sound_clear _ _ _, State.Placed.forget _ _ _ _⟩

theorem consulted (h : s.Truthful g t) (key : MemoKey) : (s.counted.consulted key).Truthful g t := by
  refine ⟨h.sound.find? key, fun key' step hstep => ?_, h.placed.seeds⟩
  exact h.placed.memo key' step (Memo.holds_of_holds_find? hstep)

/-- An answer may be added. -/
theorem insert (h : s.Truthful g t) {key : MemoKey} {step : Step} (hstep : g.Settles t key (.ok step))
    (hplace : Sites.places.Holds t key.position step) :
    ({ s with memo := s.memo.insert key step } : State).Truthful g t := by
  refine ⟨h.sound.insert hstep, fun key' step' hstep' => ?_, h.placed.seeds⟩
  rcases Memo.holds_insert hstep' with ⟨rfl, rfl⟩ | hold
  · exact hplace
  · exact h.placed.memo key' step' hold

end State.Truthful

/-! ## Nodes -/

/-- A node and everything that the nodes of a grammar refer to. -/
def Grammar.near (g : Grammar) (i : ExprId) : Set ExprId := {j | j = i ∨ ∃ rule ∈ g.rules.toList, j ∈ rule.references}

theorem Grammar.finite_near (g : Grammar) (i : ExprId) : (g.near i).Finite := by
  have hsub : g.near i ⊆ {j | j ∈ i :: g.rules.toList.flatMap fun rule => rule.references} := by
    rintro j (rfl | ⟨rule, hrule, hj⟩)
    · exact List.mem_cons_self
    · exact List.mem_cons_of_mem _ (List.mem_flatMap.mpr ⟨rule, hrule, hj⟩)
  exact (List.finite_toSet _).subset hsub

theorem Grammar.closed_near (g : Grammar) (i : ExprId) : g.Closed (· ∈ g.near i) := by
  intro j k _ hk
  right
  cases hrule : g.rules[j]? with
  | none =>
    -- what is no node refers to nothing
    have hdefault : g.rule j = default := by simp [Grammar.rule, hrule]
    rw [hdefault] at hk
    exact absurd hk List.not_mem_nil
  | some rule =>
    have hj : g.rule j = rule := by simp [Grammar.rule, hrule]
    rw [hj] at hk
    exact ⟨rule, Array.mem_toList_iff.mpr (Array.mem_of_getElem? hrule), hk⟩

/-! ## Attempts at places -/

/-- Attempts that halt anywhere but at a place of the text. -/
def atPlaces (a : Attempt) : Attempt := fun c i p acts skips =>
  if c.text.IsBoundary p then a c i p acts skips else MatchM.halt .endless

theorem atPlaces_same (g : Grammar) (n : Nat) :
    Checked.SameAttempts g (attemptWithin n) (atPlaces (attemptWithin n)) := by
  intro c i p acts skips hg hp
  rw [atPlaces, if_pos hp]
  exact SameOn.self (Upkeep.attemptWithin_sound (Upkeep.places g) n hg trivial hp)

/-- Attempts that are performed at a place make no others. -/
theorem perform_atPlaces {g : Grammar} {c : Context} (hg : c.grammar = g) (n : Nat) (i : ExprId) {p : Nat}
    (hp : c.text.IsBoundary p) (acts skips : Bool) {s : State} (hs : s.Placed .places c.text) :
    perform (attemptWithin n) c i p acts skips s = perform (atPlaces (attemptWithin n)) c i p acts skips s := by
  have hsame : SameOn c.text (Step.Lands c.text p (true = true)) (perform (attemptWithin n) c i p acts skips)
      (perform (atPlaces (attemptWithin n)) c i p acts skips) :=
    Twin.perform_same (D := Checked.placesTwin (attemptWithin n) (atPlaces (attemptWithin n)) c hg)
      (fun q _ hq => Checked.serves_of_same (atPlaces_same g n) hg hq acts) hp skips
  exact hsame.eq s hs

/-- The match of the root makes no attempts but at places. -/
theorem matchRoot_atPlaces {g : Grammar} {c : Context} (hg : c.grammar = g) (all : Bool) {s : State}
    (hs : s.Placed .places c.text) :
    matchRoot c all s = Coupling.matchRootBy (atPlaces (attempt c)) c all s := by
  have hattempts : Checked.SameAttempts g (attempt c) (atPlaces (attempt c)) := atPlaces_same g _
  have hsame : SameOn c.text (fun _ => True) (matchRoot c all) (Coupling.matchRootBy (atPlaces (attempt c)) c all) := by
    unfold matchRoot Coupling.matchRootBy
    simp only [hg]
    refine (hattempts hg c.text.isBoundary_zero).step ?_ fun _ _ => SameOn.pure trivial
    intro stop r hstop
    cases all with
    | false => exact SameOn.pure trivial
    | true =>
      simp only [Bool.not_true, Bool.false_eq_true, if_false]
      have hskip : SameOn c.text (Advance c.text stop True) (skipLeading (attempt c) c (g.rule g.root) stop)
          (skipLeading (atPlaces (attempt c)) c (g.rule g.root) stop) :=
        Twin.skipLeading_same (Checked.serves_of_same hattempts hg hstop.site false).skipped hstop.site
      refine hskip.bind fun q _ => ?_
      split
      · exact SameOn.pure trivial
      · exact SameOn.pure trivial
  exact hsame.eq s hs

theorem Text.before_prefix (t : Text) (p : Nat) : t.before p <+: t := by
  unfold Text.before
  cases h : t.take? p with
  | none => exact List.nil_prefix
  | some u =>
    obtain ⟨v, rfl⟩ := Text.exists_append_of_take? h
    exact List.prefix_append u v

namespace Coupling

/-- One context of attempts on a front of a text, in which forwards grow no seeds. -/
structure AdequatePair (g : Grammar) (whole t : Text) (c₁ c₂ : Context) : Prop where
  same : c₁ = c₂
  grammar : c₁.grammar = g
  text : c₁.text = t
  front : t <+: whole
  seedless : c₁.config.memoization ≠ .leftRecursion

/-- A run that remembers, on a closed set of nodes, and one whose attempts are told their answers. -/
@[reducible] def adequate (g : Grammar) (N : Set ExprId) (hN : g.Closed (· ∈ N)) (whole : Text) : Coupling g where
  World := Text
  exact := true
  state t s₁ _ := s₁.Truthful g t
  contexts t := AdequatePair g whole t
  nodes _ _ i := i ∈ N
  state_congr := fun hs h₁ _ => hs.congr h₁
  alike := fun hc =>
    ⟨hc.grammar, hc.same ▸ hc.grammar, congrArg Context.text hc.same, congrArg Context.adjacent hc.same⟩
  combined := fun hc => ⟨congrArg Context.combined hc.same, hc.grammar, hc.text, hc.front, hc.seedless⟩
  behind := by
    intro t c₁ c₂ hc p
    refine ⟨(c₁.behind p).text, ⟨congrArg (Context.behind · p) hc.same, hc.grammar, rfl, ?_, hc.seedless⟩, ?_⟩
    · exact (Text.before_prefix _ _).trans (hc.text ▸ hc.front)
    · exact State.Truthful.initial _ _ _
  nodes_within := hN.within
  nodes_recovering := hN.recovering
  nodes_combined := hN.combined
  nodes_behind := hN.behind

theorem AdequatePair.deeper {g : Grammar} {whole t : Text} {c₁ c₂ : Context} (h : AdequatePair g whole t c₁ c₂) :
    AdequatePair g whole t c₁.deeper c₂.deeper :=
  ⟨congrArg Context.deeper h.same, h.grammar, h.text, h.front, h.seedless⟩

section Adequate

variable {g : Grammar} {N : Set ExprId} (hN : g.Closed (· ∈ N)) {whole t : Text} {room : Nat}
  (hroom : ∀ x, Universe N whole x → ∀ o, g.Settles x.1 x.2 o → g.answer? x.1 room x.2 = some o)
  {c : Context} (hc : AdequatePair g whole t c c) {r : Bool} {i : ExprId} (hi : i ∈ N) {p : Nat}
  (hp : c.text.IsBoundary p) (acts skips : Bool) {s₁ s₂ : State}

include hc

/-- An outcome that is not remembered yet is performed, and added if there is one. -/
theorem agree_miss {res : EStateM.Result Halt State Step}
    (hplace : ∀ step s, res = .ok step s → Sites.places.Holds t p step)
    (h : (adequate g N hN whole).Agree t r (Step.Alike true) res (told g room c i p acts skips s₂)) :
    (adequate g N hN whole).Agree t r (Step.Alike true)
      (addOutcome (c.key i p acts (skips && !c.adjacent)) res) (told g room c i p acts skips s₂) := by
  rcases h.cases with ⟨e, s, he, rfl⟩ | ⟨e, s, s', rfl, hrun, hstate⟩ | ⟨a, b, s, s', rfl, hrun, hab, hstate⟩
  · exact agree_of_isTooDeep he
  · rw [hrun]
    exact Or.inr (Or.inr ⟨rfl, hstate⟩)
  · obtain rfl : a = b := Step.alike_true hab
    have hanswer := answerOf?_told g room c i p acts skips s₂
    rw [hrun] at hanswer ⊢
    have hsettles : g.Settles t (c.key i p acts (skips && !c.adjacent)) (.ok a) := by
      refine ⟨room, ?_⟩
      rw [Context.key, Grammar.answer?_skips, ← hc.text]
      exact hanswer.symm
    exact ⟨Step.Alike.refl _ _, hstate.insert hsettles (hplace a s rfl)⟩

include hi hp

omit hN in
/-- The keys of attempts at places are in the universe. -/
theorem universe_key (b : Bool) : Universe N whole (t, c.key i p acts b) := by
  refine ⟨hc.front, hi, ?_⟩
  obtain ⟨rest, hrest⟩ := hc.front
  have hle := hp.le_size
  rw [hc.text] at hle
  rw [← hrest, Text.size_append]
  exact hle.trans (Nat.le_add_right _ _)

include hroom

/-- An answer is what the attempt under its key is told. -/
theorem told_of_settles {o : Answer} (h : g.Settles t (c.key i p acts (skips && !c.adjacent)) o) :
    told g room c i p acts skips = tell (some o) := by
  rw [← told_skips, told, hc.text, hroom _ (universe_key hc hi hp acts _) o h]

/-- A run that agrees with the performance by told attempts agrees with the told attempt. -/
theorem agree_told {res : EStateM.Result Halt State Step}
    (h : (adequate g N hN whole).Agree t r (Step.Alike true) res
      (perform (told g room) c i p acts (skips && !c.adjacent) s₂)) :
    (adequate g N hN whole).Agree t r (Step.Alike true) res (told g room c i p acts skips s₂) := by
  have hperform := answerOf?_perform_told hc.grammar hc.seedless room i p acts skips s₂
  have hsettles {o : Answer} (ho : answerOf? (perform (told g room) c i p acts (skips && !c.adjacent) s₂) = some o) :
      g.Settles t (c.key i p acts (skips && !c.adjacent)) o := by
    refine ⟨room + 1, ?_⟩
    rw [Context.key, Grammar.answer?_skips, ← hc.text]
    exact hperform.symm.trans ho
  rcases h.cases with ⟨e, s, he, rfl⟩ | ⟨e, s, s', rfl, hrun, hstate⟩ | ⟨a, b, s, s', rfl, hrun, hab, hstate⟩
  · exact agree_of_isTooDeep he
  · cases he : e.isTooDeep with
    | true => exact agree_of_isTooDeep he
    | false =>
      rw [told_of_settles hroom hc hi hp acts skips (hsettles (by rw [hrun, answerOf?_error he]))]
      exact Or.inr (Or.inr ⟨rfl, hstate⟩)
  · rw [told_of_settles hroom hc hi hp acts skips (hsettles (by rw [hrun]; rfl))]
    exact ⟨hab, hstate⟩

/-- An outcome that is remembered is what the attempt is told. -/
theorem agree_hit {step : Step}
    (hs : s₁.Truthful g t) (hfind : (s₁.memo.find? (c.key i p acts (skips && !c.adjacent))).1 = some step) :
    (adequate g N hN whole).Agree t r (Step.Alike true)
      (.ok step (s₁.counted.consulted (c.key i p acts (skips && !c.adjacent)))) (told g room c i p acts skips s₂) := by
  rw [told_of_settles hroom hc hi hp acts skips (hs.sound _ _ (Memo.holds_of_find? hfind))]
  exact ⟨Step.Alike.refl _ _, hs.consulted _⟩

/-- An attempt agrees with what it is told when its performances do. -/
theorem remember_told {n : Nat} (hs : s₁.Truthful g t)
    (hperform : ∀ s : State, s.Truthful g t → (adequate g N hN whole).Agree t r (Step.Alike true)
      (perform (attemptWithin n) c i p acts (skips && !c.adjacent) s) (told g room c i p acts skips s₂)) :
    (adequate g N hN whole).Agree t r (Step.Alike true) (remember (attemptWithin n) c i p acts skips s₁)
      (told g room c i p acts skips s₂) := by
  cases hon : s₁.memo.isOn with
  | false =>
    rw [remember_off (Memo.eq_off hon)]
    exact hperform _ (hs.congr s₁.counted_sameTables)
  | true =>
    rw [remember_of_isOn hon]
    have hconsulted := hs.consulted (c.key i p acts (skips && !c.adjacent))
    cases hfind : (s₁.memo.find? (c.key i p acts (skips && !c.adjacent))).1 with
    | some step => exact agree_hit hN hroom hc hi hp acts skips hs hfind
    | none =>
      refine agree_miss hN hc acts skips (fun step s h => ?_) (hperform _ hconsulted)
      have hkeeps := Upkeep.perform_run (Upkeep.attemptWithin_sound (Upkeep.places g) n) hc.grammar trivial hp acts
        (skips && !c.adjacent) (i := i) _ (hc.text.symm ▸ hconsulted.placed)
      rw [h] at hkeeps
      exact hc.text ▸ hkeeps.1

omit hc hi hp

/-- What a run that remembers comes to at places of a text is what it is told. -/
theorem adequate_agrees (n : Nat) :
    (adequate g N hN whole).Agrees (atPlaces (attemptWithin n)) (told g room) := by
  induction n with
  | zero =>
    intro w c₁ c₂ r i p acts₁ acts₂ skips hc hi hacts s₁ s₂ hs
    have hhalt : atPlaces (attemptWithin 0) c₁ i p acts₁ skips = MatchM.halt .endless := by
      unfold atPlaces
      split <;> rfl
    rw [hhalt]
    exact agree_of_isTooDeep rfl
  | succ n ih =>
    intro t c₁ c₂ r i p acts₁ acts₂ skips hc hi hacts s₁ s₂ hs
    obtain rfl : acts₁ = acts₂ := hacts rfl
    obtain rfl : c₁ = c₂ := hc.same
    unfold atPlaces
    by_cases hp : c₁.text.IsBoundary p
    · rw [if_pos hp]
      have hdeep : AdequatePair g whole t c₁.deeper c₁.deeper := hc.deeper
      have hp' : c₁.deeper.text.IsBoundary p := hp
      have hremember : (adequate g N hN whole).Agree t r (Step.Alike true)
          (remember (attemptWithin n) c₁.deeper i p acts₁ skips s₁) (told g room c₁.deeper i p acts₁ skips s₂) := by
        refine remember_told hN hroom hdeep hi hp' acts₁ skips hs fun s hs => ?_
        apply agree_told hN hroom hdeep hi hp' acts₁ skips
        rw [perform_atPlaces hdeep.grammar n i hp' acts₁ _ (hdeep.text.symm ▸ hs.placed)]
        exact perform_linked_of_seedless ih hdeep hdeep.seedless hdeep.seedless hi (fun _ => rfl) p _ (by simp)
          (by simp) s s₂ hs
      rcases attemptWithin_succ n c₁ i p acts₁ skips with ⟨limit, -, -, heq⟩ | heq
      · rw [heq]
        exact agree_of_isTooDeep rfl
      · rw [heq]
        exact hremember
    · rw [if_neg hp]
      exact agree_of_isTooDeep rfl

end Adequate
end Coupling

/-- **What a run that remembers finds is an answer.** From truthful tables an attempt at a place of the text comes to
the answer under its key, unless it nests too deeply. It leaves truthful tables, also after a failure that may be
recovered from. -/
theorem attemptWithin_adequate {g : Grammar} {c : Context} (hg : c.grammar = g)
    (hc : c.config.memoization ≠ .leftRecursion) (n : Nat) (i : ExprId) {p : Nat} (hp : c.text.IsBoundary p)
    (acts skips : Bool) {s : State} (hs : s.Truthful g c.text) :
    match attemptWithin n c i p acts skips s with
    | .ok step s' => g.Settles c.text (c.key i p acts skips) (.ok step) ∧ s'.Truthful g c.text
    | .error h s' => (h.isTooDeep = true ∨ g.Settles c.text (c.key i p acts skips) (.error h)) ∧
        (h.isCommitted = true → s'.Truthful g c.text) := by
  obtain ⟨room, hroom⟩ := exists_room g (g.finite_near i) c.text
  have hpair : Coupling.AdequatePair g c.text c.text c c := ⟨rfl, hg, rfl, List.prefix_refl _, hc⟩
  have hlinked : (Coupling.adequate g (g.near i) (g.closed_near i) c.text).Linked c.text true (Step.Alike true)
      (atPlaces (attemptWithin n) c i p acts skips) (told g room c i p acts skips) :=
    Coupling.adequate_agrees (g.closed_near i) hroom n hpair (Or.inl rfl) fun _ => rfl
  have hagree := hlinked s s hs
  rw [atPlaces, if_pos hp] at hagree
  have hanswer := answerOf?_told g room c i p acts skips s
  rcases hagree.cases with ⟨e, u, he, h⟩ | ⟨e, u, u', h, htold, hstate⟩ | ⟨a, b, u, u', h, htold, hab, hstate⟩
  · rw [h]
    refine ⟨Or.inl he, fun hcommitted => ?_⟩
    cases e with
    | committed d => exact absurd he Bool.false_ne_true
    | _ => exact absurd hcommitted Bool.false_ne_true
  · rw [h]
    refine ⟨?_, hstate rfl⟩
    cases he : e.isTooDeep with
    | true => exact Or.inl rfl
    | false =>
      rw [htold, answerOf?_error he] at hanswer
      exact Or.inr ⟨room, hanswer.symm⟩
  · obtain rfl : a = b := Step.alike_true hab
    rw [htold] at hanswer
    rw [h]
    exact ⟨⟨room, hanswer.symm⟩, hstate⟩

/-- The answer of an attempt from truthful tables is the one under its key. -/
theorem settles_of_answerOf? {g : Grammar} {c : Context} (hg : c.grammar = g)
    (hc : c.config.memoization ≠ .leftRecursion) {n : Nat} {i : ExprId} {p : Nat} (hp : c.text.IsBoundary p)
    {acts skips : Bool} {s : State} (hs : s.Truthful g c.text) {o : Answer}
    (ho : answerOf? (attemptWithin n c i p acts skips s) = some o) :
    g.Settles c.text (c.key i p acts skips) o := by
  have h := attemptWithin_adequate hg hc n i hp acts skips hs
  cases o with
  | ok step =>
    obtain ⟨s', hrun⟩ := answerOf?_eq_ok ho
    rw [hrun] at h
    exact h.1
  | error e =>
    obtain ⟨he, s', hrun⟩ := answerOf?_eq_error ho
    rw [hrun] at h
    exact h.1.resolve_left (by simp [he])

/-- What a parse that remembers matches is what it matches when its attempts are told their answers, with room
enough. -/
theorem exists_told_matchRoot {c : Context} (hc : c.config.memoization ≠ .leftRecursion) (all : Bool) {s s' : State}
    (hs : s.Truthful c.grammar c.text) {step : Step} (h : matchRoot c all s = .ok step s') (u : State) :
    ∃ room u', Coupling.matchRootBy (told c.grammar room) c all u = .ok step u' := by
  obtain ⟨room, hroom⟩ := exists_room c.grammar (c.grammar.finite_near c.grammar.root) c.text
  have hpair : Coupling.AdequatePair c.grammar c.text c.text c c := ⟨rfl, rfl, rfl, List.prefix_refl _, hc⟩
  have hagrees := Coupling.adequate_agrees (c.grammar.closed_near c.grammar.root) hroom (attemptFuel c)
  have hagree := Coupling.matchRootBy_linked (r := false) hagrees hpair (Or.inl rfl) all s u hs
  rw [show Coupling.matchRootBy (atPlaces (attemptWithin (attemptFuel c))) c all s = .ok step s' from
    (matchRoot_atPlaces rfl all hs.placed).symm.trans h] at hagree
  rcases hagree.cases with ⟨e, v, -, herror⟩ | ⟨e, v, v', herror, -⟩ | ⟨a, b, v, v', hok, htold, hab, -⟩
  · exact absurd herror (by simp)
  · exact absurd herror (by simp)
  · obtain ⟨rfl, rfl⟩ : step = a ∧ s' = v := by simpa using hok
    obtain rfl : step = b := Step.alike_true hab
    exact ⟨room, v', htold⟩

end Packrat
