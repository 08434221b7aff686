import Packrat.Proofs.Building.Finished
import Packrat.Proofs.Coupling.Runs
import Packrat.Proofs.Hooks.Track
import Packrat.Proofs.Memory.Adequacy
import Packrat.Proofs.Memory.Reset

/-!
# `Packrat.Proofs.Memory.Count` — no outcome is looked for twice

A table without a limit holds the outcome of every attempt that was made once, unless the attempt halted. What is to
be shown is that an attempt is not made again while it is still open. Its answer takes more room than those of the
attempts inside of it, so the keys that are added in the meantime are others: an attempt whose answer takes room
`k + 1` adds keys of room at most `k` before its own.

## Contents

* `HaltFree` — parses in which no attempt halts;
* `State.Tallied` — tables that hold one outcome for each that was missed;
* `Coupling.tallying`, `tallying_agrees` — attempts that are told their answers, and strict ones that remember;
* `MemoKey.range`, `Memo.size_le_card` — how many keys there are;
* `misses_eq_held` — **each key is missed at most once**.
-/

namespace Packrat

/-! ## Parses in which no attempt halts -/

/-- Makes every halt one that nothing recovers from. -/
def MatchM.strict (m : MatchM Step) : MatchM Step := fun s =>
  match m s with
  | .ok step s' => .ok step s'
  | .error _ s' => .error .endless s'

/-- Attempts that nest at most `fuel` deep, and whose halts nothing recovers from. -/
def strictWithin : (fuel : Nat) → Attempt
  | 0, _, _, _, _, _ => MatchM.halt .endless
  | fuel + 1, c, id, position, acts, skips => MatchM.strict <|
    match c.config.recursionLimit with
    | some limit =>
      if limit ≤ c.depth then MatchM.halt (.recursionLimit limit position)
      else remember (strictWithin fuel) c.deeper id position acts skips
    | none => remember (strictWithin fuel) c.deeper id position acts skips

/-- No attempt of a parse halts, not even where its halt would be recovered from: the parse ends with a match or a
failure although every halt is strict. -/
def HaltFree (p : Parser) (t : Text) (all : Bool) : Prop :=
  let c := Context.top p.grammar p.config p.watch (viewOf p.config t)
  ∃ step s, Coupling.matchRootBy (strictWithin (attemptFuel c)) c all { p.state.forget with journal := [] }
    = .ok step s

instance (p : Parser) (t : Text) (all : Bool) : Decidable (HaltFree p t all) :=
  let c := Context.top p.grammar p.config p.watch (viewOf p.config t)
  match h : Coupling.matchRootBy (strictWithin (attemptFuel c)) c all { p.state.forget with journal := [] } with
  | .ok step s => isTrue ⟨step, s, h⟩
  | .error _ _ => isFalse fun ⟨_, _, hok⟩ => nomatch h.symm.trans hok

/-- Halts of strict attempts. -/
def Escape.strict : Escape := ⟨fun h _ => h = .endless, by simp⟩

section Strict

variable {E : Escape} {acts : Bool} {a₁ a₂ : Attempt}

theorem Tracks.strict {m₁ m₂ : MatchM Step} (h : Tracks .strict m₁ m₂) : Tracks .strict m₁.strict m₂ := by
  intro s
  unfold MatchM.strict
  rcases h s with heq | ⟨e, s', herror, -⟩
  · rw [← heq]
    cases m₁ s with
    | ok step s' => exact Or.inl rfl
    | error e s' => exact Or.inr ⟨_, s', rfl, rfl⟩
  · rw [herror]
    exact Or.inr ⟨_, s', rfl, rfl⟩

/-- Attempts that are performed by attempts that track each other do so too. -/
theorem AttemptsTrack.remember (ha : AttemptsTrack E acts a₁ a₂) (c : Context) (i : ExprId) (p : Nat) (skips : Bool) :
    Tracks E (Packrat.remember a₁ c i p acts skips) (Packrat.remember a₂ c i p acts skips) := by
  let idle : Hooks := ⟨fun _ => runAction, id⟩
  have hcall {E : Escape} : acts = true → ∀ c action start stop r,
      Tracks E (runAction c action start stop r) (idle.call [] c action start stop r) :=
    fun _ _ _ _ _ _ => Tracks.refl _
  have htrack {E : Escape} {a₁ a₂ : Attempt} (ha : AttemptsTrack E acts a₁ a₂) :
      Tracks E (Packrat.remember a₁ c i p acts skips) (idle.remember [] a₂ (fun _ => a₂) c i p acts skips) :=
    remember_tracks ha (fun _ => ha.mono fun h => by simp_all) hcall c i p skips
  rw [(htrack (AttemptsTrack.refl a₂)).eq]
  exact htrack ha

/-- Unless they halt, strict attempts are the attempts they are made of. -/
theorem strictWithin_tracks (n : Nat) (acts : Bool) :
    AttemptsTrack .strict acts (strictWithin n) (attemptWithin n) := by
  induction n generalizing acts with
  | zero => exact fun _ _ _ _ _ _ => Tracks.refl _
  | succ n ih =>
    intro c i p b skips _
    have hremember := (ih b).remember c.deeper i p skips
    unfold strictWithin attemptWithin
    apply Tracks.strict
    cases c.config.recursionLimit with
    | none => exact hremember
    | some limit => exact Tracks.ite (fun _ => Tracks.refl _) fun _ => hremember

/-- A strict attempt halts at the limit, and otherwise goes on one level deeper. -/
theorem strictWithin_succ (n : Nat) (c : Context) (i : ExprId) (p : Nat) (acts skips : Bool) :
    ((∃ limit ∈ c.config.recursionLimit, limit ≤ c.depth) ∧
        strictWithin (n + 1) c i p acts skips = MatchM.halt .endless) ∨
      strictWithin (n + 1) c i p acts skips = (remember (strictWithin n) c.deeper i p acts skips).strict := by
  rw [strictWithin]
  cases c.config.recursionLimit with
  | none => exact Or.inr rfl
  | some limit =>
    by_cases h : limit ≤ c.depth
    · left
      refine ⟨⟨limit, rfl, h⟩, ?_⟩
      simp only [if_pos h]
      rfl
    · right
      simp only [if_neg h]

/-- A parse in which no attempt halts is the one by strict attempts. -/
theorem HaltFree.matchRoot_eq {p : Parser} {t : Text} {all : Bool} (h : HaltFree p t all) :
    let c := Context.top p.grammar p.config p.watch (viewOf p.config t)
    let s := { p.state.forget with journal := [] }
    ∃ step s', Coupling.matchRootBy (strictWithin (attemptFuel c)) c all s = .ok step s' ∧
      matchRoot c all s = .ok step s' := by
  intro c s
  obtain ⟨step, s', hstrict⟩ := h
  have ha := strictWithin_tracks (attemptFuel c)
  have htracks : Tracks .strict (Coupling.matchRootBy (strictWithin (attemptFuel c)) c all) (matchRoot c all) := by
    refine ((ha true).attempt c c.grammar.root 0 true).step ?_ fun _ => Tracks.refl _
    intro stop r
    apply Tracks.ite fun _ => Tracks.refl _
    intro _
    exact (skipLeading_tracks (ha false) c _ stop).bind fun _ => Tracks.refl _
  rcases htracks s with heq | ⟨e, u, herror, -⟩
  · exact ⟨step, s', hstrict, heq.symm.trans hstrict⟩
  · rw [herror] at hstrict
    exact absurd hstrict (by simp)

end Strict

/-! ## Tables that count -/

/-- A table has some outcome under a key. -/
def Memo.Has (m : Memo) (key : MemoKey) : Prop := ∃ step, m.Holds key step

/-- Keys that attempts of some nodes can have: inside a combined region nothing skips. -/
structure MemoKey.Proper (N : ExprId → Prop) (key : MemoKey) : Prop where
  node : N key.id
  apart : (key.skips && key.adjacent) = false

/-- Where the count starts: on a text, with some keys in the table already, and with misses whose attempts are still
open. -/
structure Tally where
  text : Text
  known : MemoKey → Prop
  pending : Nat

/-- A table without a limit that holds answers, one for each attempt that was missed and is over. The keys that are
new since the count started have answers with room `k`. -/
structure State.Tallied (g : Grammar) (N : ExprId → Prop) (k : Nat) (w : Tally) (s : State) : Prop where
  all : ∃ entries, s.memo = .all entries
  seeds : s.seeds = .empty
  sound : s.memo.Sound g w.text
  count : s.metrics.misses = s.memo.size + w.pending
  proper : ∀ key, s.memo.Has key → key.Proper N
  fresh : ∀ key, s.memo.Has key → w.known key ∨ ∃ o, g.answer? w.text k key = some o

namespace State.Tallied

variable {g : Grammar} {N : ExprId → Prop} {k k' : Nat} {w : Tally} {s s' : State} {key : MemoKey}

theorem congr (h : s.Tallied g N k w) (hs : s'.SameTables s) : s'.Tallied g N k w :=
  ⟨hs.memo ▸ h.all, hs.seeds.trans h.seeds, hs.memo ▸ h.sound, by rw [hs.misses, hs.memo, h.count], hs.memo ▸ h.proper,
    hs.memo ▸ h.fresh⟩

/-- The count starts with an empty table and no misses. -/
theorem empty (hmemo : s.memo = .all ∅) (hseeds : s.seeds = .empty) (hmisses : s.metrics.misses = 0) (t : Text)
    (known : MemoKey → Prop) : s.Tallied g N k ⟨t, known, 0⟩ := by
  have hnone (key : MemoKey) : ¬ s.memo.Has key := by
    rintro ⟨step, h⟩
    rw [hmemo] at h
    exact Memo.not_holds_clear (.all ∅) key step h
  refine ⟨⟨∅, hmemo⟩, hseeds, ?_, ?_, fun key h => absurd h (hnone key), fun key h => absurd h (hnone key)⟩
  · rw [hmemo]
    exact Memo.sound_clear g t (.all ∅)
  · rw [hmemo, hmisses]
    show 0 = (∅ : Std.HashMap MemoKey Step).size + 0
    rw [Std.HashMap.size_empty]

theorem isOn (h : s.Tallied g N k w) : s.memo.isOn = true := by
  obtain ⟨entries, he⟩ := h.all
  rw [he]
  rfl

/-- What is not found is not there. -/
theorem not_has (h : s.Tallied g N k w) (hfind : (s.memo.find? key).1 = none) : ¬ s.memo.Has key := by
  rintro ⟨step, hstep⟩
  obtain ⟨entries, he⟩ := h.all
  rw [he] at hfind hstep
  have hnone : entries[key]? = none := hfind
  exact absurd (hnone.symm.trans hstep) (by simp)

/-- A hit counts nothing. -/
theorem hit (h : s.Tallied g N k w) {step : Step} (hfind : (s.memo.find? key).1 = some step) :
    (s.counted.consulted key).Tallied g N k w := by
  refine h.congr ?_
  obtain ⟨entries, he⟩ := h.all
  rw [he] at hfind
  have hentry : entries[key]? = some step := hfind
  have hconsulted : s.counted.consulted key
      = { s.counted with metrics := { s.counted.metrics with hits := s.counted.metrics.hits + 1 } } := by
    simp only [State.consulted, State.counted, he, Memo.find?, hentry, Option.isSome_some, if_true]
  rw [hconsulted]
  exact ⟨rfl, rfl, rfl, rfl⟩

/-- A miss is pending. The count starts again there. -/
theorem miss (h : s.Tallied g N k w) (hfind : (s.memo.find? key).1 = none) :
    (s.counted.consulted key).Tallied g N k' ⟨w.text, s.memo.Has, w.pending + 1⟩ := by
  obtain ⟨entries, he⟩ := h.all
  rw [he] at hfind
  have hentry : entries[key]? = none := hfind
  have hconsulted : s.counted.consulted key
      = { s.counted with metrics := { s.counted.metrics with misses := s.counted.metrics.misses + 1 } } := by
    simp only [State.consulted, State.counted, he, Memo.find?, hentry, Option.isSome_none, Bool.false_eq_true, if_false]
  rw [hconsulted]
  refine ⟨h.all, h.seeds, h.sound, ?_, h.proper, fun key hkey => Or.inl hkey⟩
  show s.metrics.misses + 1 = s.memo.size + (w.pending + 1)
  rw [h.count]
  omega

/-- The count may start again at any point. -/
theorem restart (h : s.Tallied g N k w) : s.Tallied g N k' ⟨w.text, s.memo.Has, w.pending⟩ :=
  ⟨h.all, h.seeds, h.sound, h.count, h.proper, fun _ hkey => Or.inl hkey⟩

/-- What was counted since some later point counts from the beginning. -/
theorem since (h : s.Tallied g N k w) {k' : Nat} (hk : k' ≤ k) {pending : Nat}
    (h' : s'.Tallied g N k' ⟨w.text, s.memo.Has, pending⟩) : s'.Tallied g N k ⟨w.text, w.known, pending⟩ := by
  refine ⟨h'.all, h'.seeds, h'.sound, h'.count, h'.proper, fun key hkey => ?_⟩
  rcases h'.fresh key hkey with hknown | ⟨o, ho⟩
  · exact h.fresh key hknown
  · exact Or.inr ⟨o, Grammar.answer?_of_le hk ho⟩

/-- When the outcome of a miss is added, under a key that is new, nothing is pending of it. -/
theorem insert {step : Step} (h : s.Tallied g N k ⟨w.text, w.known, w.pending + 1⟩) (hnew : ¬ s.memo.Has key)
    (hproper : key.Proper N) (hstep : g.answer? w.text k key = some (.ok step)) :
    ({ s with memo := s.memo.insert key step } : State).Tallied g N k w := by
  have hhas {key' : MemoKey} (h' : (s.memo.insert key step).Has key') : key' = key ∨ s.memo.Has key' := by
    obtain ⟨step', h'⟩ := h'
    rcases Memo.holds_insert h' with ⟨rfl, -⟩ | hold
    · exact Or.inl rfl
    · exact Or.inr ⟨step', hold⟩
  refine ⟨?_, h.seeds, h.sound.insert ⟨k, hstep⟩, ?_, fun key' h' => ?_, fun key' h' => ?_⟩
  · obtain ⟨entries, he⟩ := h.all
    exact ⟨entries.insert key step, by rw [he]; rfl⟩
  · obtain ⟨entries, he⟩ := h.all
    have hcount := h.count
    rw [he] at hcount hnew
    have hmem : key ∉ entries := by
      intro hmem
      exact hnew ⟨entries[key], Std.HashMap.getElem?_eq_some_getElem hmem⟩
    show s.metrics.misses = (s.memo.insert key step).size + w.pending
    rw [he, hcount]
    show entries.size + (w.pending + 1) = (entries.insert key step).size + w.pending
    rw [Std.HashMap.size_insert, if_neg hmem]
    omega
  · rcases hhas h' with rfl | hold
    · exact hproper
    · exact h.proper key' hold
  · rcases hhas h' with rfl | hold
    · exact Or.inr ⟨_, hstep⟩
    · exact h.fresh key' hold

end State.Tallied

namespace Coupling

/-- One context of attempts on a text, where nothing that is remembered is forgotten. -/
structure TallyPair (g : Grammar) (t : Text) (c₁ c₂ : Context) : Prop where
  same : c₁ = c₂
  grammar : c₁.grammar = g
  text : c₁.text = t
  memoization : c₁.config.memoization = .packrat none

theorem TallyPair.deeper {g : Grammar} {t : Text} {c₁ c₂ : Context} (h : TallyPair g t c₁ c₂) :
    TallyPair g t c₁.deeper c₂.deeper :=
  ⟨congrArg Context.deeper h.same, h.grammar, h.text, h.memoization⟩

theorem TallyPair.seedless {g : Grammar} {t : Text} {c₁ c₂ : Context} (h : TallyPair g t c₁ c₂) :
    c₁.config.memoization ≠ .leftRecursion := by
  simp [h.memoization]

/-- A run by attempts that are told their answers, with room `k`, and a strict one that remembers. Either is excused
when it nests too deeply. -/
@[reducible] def tallying (g : Grammar) (N : ExprId → Prop) (hN : g.Closed N) (k : Nat) : Coupling g where
  World := Tally
  exact := true
  deep₂ := true
  state w _ s₂ := s₂.Tallied g N k w
  contexts w := TallyPair g w.text
  nodes _ _ i := N i
  state_congr := fun hs _ h₂ => hs.congr h₂
  alike := fun hc =>
    ⟨hc.grammar, hc.same ▸ hc.grammar, congrArg Context.text hc.same, congrArg Context.adjacent hc.same⟩
  combined := fun hc => ⟨congrArg Context.combined hc.same, hc.grammar, hc.text, hc.memoization⟩
  behind := by
    intro w c₁ c₂ hc p
    obtain rfl := hc.same
    refine ⟨⟨(c₁.behind p).text, fun _ => False, 0⟩, ⟨rfl, hc.grammar, rfl, hc.memoization⟩, ?_⟩
    apply State.Tallied.empty
    · rw [State.initial, hc.memoization, Memo.ofStrategy]
    · rfl
    · rfl
  nodes_within := hN.within
  nodes_recovering := hN.recovering
  nodes_combined := hN.combined
  nodes_behind := hN.behind

section Tallying

variable {g : Grammar} {N : ExprId → Prop} (hN : g.Closed N) {k n : Nat} {w : Tally} {r : Bool} {s₁ s₂ : State}

/-- Strict runs that halt are excused. -/
theorem agree_strict {V : Step → Step → Prop} {x : EStateM.Result Halt State Step} {m : MatchM Step}
    (h : ∀ step s', m s₂ = .ok step s' → (tallying g N hN k).Agree w r V x (.ok step s')) :
    (tallying g N hN k).Agree w r V x (m.strict s₂) := by
  unfold MatchM.strict
  cases hm : m s₂ with
  | ok step s' => exact h step s' hm
  | error e s' => exact agree_of_deep₂ ⟨rfl, rfl⟩

/-- Runs that agree since some later point agree from the beginning. -/
theorem agree_since {V : Step → Step → Prop} {x y : EStateM.Result Halt State Step} (hs : s₂.Tallied g N k w)
    {k' : Nat} (hk : k' ≤ k)
    (h : (tallying g N hN k').Agree ⟨w.text, s₂.memo.Has, w.pending⟩ r V x y) :
    (tallying g N hN k).Agree w r V x y := by
  rcases h.cases_all with ⟨e, u, he, rfl⟩ | ⟨e, u, he, rfl⟩ | ⟨e, u, u', rfl, rfl, hstate⟩ |
    ⟨a, b, u, u', rfl, rfl, hab, hstate⟩
  · exact agree_of_deep₁ he
  · exact agree_of_deep₂ he
  · exact Or.inr (Or.inr ⟨rfl, fun hr he => hs.since hk (hstate hr he)⟩)
  · exact ⟨hab, hs.since hk hstate⟩

variable {c : Context} (hc : TallyPair g w.text c c) {i : ExprId} (hi : N i) (p : Nat) (acts skips : Bool)
include hc hi

/-- An attempt that is not answered with room `k`, but may be with more, misses its outcome once: the attempts in it
do not add its key. -/
theorem agree_missed (ih : (tallying g N hN k).Agrees (told g k) (strictWithin n)) (hs : s₂.Tallied g N (k + 1) w)
    (hlate : g.answer? w.text k (c.key i p acts (skips && !c.adjacent)) = none)
    (hfind : (s₂.memo.find? (c.key i p acts (skips && !c.adjacent))).1 = none) {step : Step} {s' : State}
    (hrun : perform (strictWithin n) c i p acts (skips && !c.adjacent)
      (s₂.counted.consulted (c.key i p acts (skips && !c.adjacent))) = .ok step s') :
    (tallying g N hN (k + 1)).Agree w r (Step.Alike true) (told g (k + 1) c i p acts skips s₁)
      (.ok step { s' with memo := s'.memo.insert (c.key i p acts (skips && !c.adjacent)) step }) := by
  have hanswer := answerOf?_perform_told hc.grammar hc.seedless k i p acts skips s₁
  have htold : told g (k + 1) c i p acts skips s₁
      = tell (answerOf? (perform (told g k) c i p acts (skips && !c.adjacent) s₁)) s₁ := by
    rw [hanswer]
    rfl
  let w' : Tally := ⟨w.text, s₂.memo.Has, w.pending + 1⟩
  have hc' : TallyPair g w'.text c c := hc
  have hperform : (tallying g N hN k).Linked w' r (Step.Alike true)
      (perform (told g k) c i p acts (skips && !c.adjacent))
      (perform (strictWithin n) c i p acts (skips && !c.adjacent)) :=
    perform_linked_of_seedless ih hc' hc.seedless hc.seedless hi (fun _ => rfl) p _ (by simp) (by simp)
  have hagree := hperform s₁ _ (hs.miss hfind)
  rw [hrun] at hagree
  rcases hagree.cases_all with ⟨e, u, he, h⟩ | ⟨e, u, -, h⟩ | ⟨e, u, u', -, h, -⟩ | ⟨a, b, u, u', h, hb, hab, hstate⟩
  · rw [htold, h, answerOf?_tooDeep he.2]
    exact agree_of_isTooDeep rfl
  · exact absurd h (by simp)
  · exact absurd h (by simp)
  · obtain ⟨rfl, rfl⟩ : step = b ∧ s' = u' := by simpa using hb
    obtain rfl : a = step := Step.alike_true hab
    rw [h] at htold hanswer
    rw [htold]
    have hstep : g.answer? w.text (k + 1) (c.key i p acts (skips && !c.adjacent)) = some (.ok a) := by
      rw [Context.key, Grammar.answer?_skips, ← hc.text]
      exact hanswer.symm
    have hnew : ¬ s'.memo.Has (c.key i p acts (skips && !c.adjacent)) := by
      intro hhas
      rcases hstate.fresh _ hhas with hknown | ⟨o, ho⟩
      · exact hs.not_has hfind hknown
      · exact absurd (hlate.symm.trans ho) (by simp)
    have hproper : (c.key i p acts (skips && !c.adjacent)).Proper N :=
      ⟨hi, by simp [Context.key, Bool.and_assoc]⟩
    exact ⟨Step.Alike.refl _ _, (hs.since (Nat.le_succ k) hstate).insert hnew hproper hstep⟩

omit hi in
/-- An outcome that is found is what the attempt is told. -/
theorem agree_found (hs : s₂.Tallied g N k w) {step : Step}
    (hfind : (s₂.memo.find? (c.key i p acts (skips && !c.adjacent))).1 = some step) :
    (tallying g N hN k).Agree w r (Step.Alike true) (told g k c i p acts skips s₁)
      (.ok step (s₂.counted.consulted (c.key i p acts (skips && !c.adjacent)))) := by
  rw [← told_skips, told, hc.text]
  cases hanswer : g.answer? w.text k (c.key i p acts (skips && !c.adjacent)) with
  | none => exact agree_of_isTooDeep rfl
  | some o =>
    obtain rfl := hs.sound.find?_eq hfind ⟨k, hanswer⟩
    exact ⟨Step.Alike.refl _ _, hs.hit hfind⟩

omit hc hi

/-- **Attempts that are told their answers and strict ones that remember agree**, and each miss of these adds a key.
The induction is on the room that the answers take: by the time that an attempt is over, all attempts inside of it
have been answered with less. -/
theorem tallying_agrees (k n : Nat) : (tallying g N hN k).Agrees (told g k) (strictWithin n) := by
  induction k generalizing n with
  | zero =>
    intro w c₁ c₂ r i p acts₁ acts₂ skips hc hi hacts s₁ s₂ hs
    show (tallying g N hN 0).Agree w r _ (tell (g.answer? c₁.text 0 (c₁.key i p acts₁ skips)) s₁) _
    rw [Grammar.answer?_zero]
    exact agree_of_isTooDeep rfl
  | succ k ih =>
    intro w c₁ c₂ r i p acts₁ acts₂ skips hc hi hacts s₁ s₂ hs
    obtain rfl : acts₁ = acts₂ := hacts rfl
    obtain rfl : c₁ = c₂ := hc.same
    cases hearly : g.answer? w.text k (c₁.key i p acts₁ (skips && !c₁.adjacent)) with
    | some o =>
      -- answered with less room: the attempt is one of those that were counted before
      have hc' : TallyPair g (Tally.mk w.text s₂.memo.Has w.pending).text c₁ c₁ := hc
      have hagree : (tallying g N hN k).Agree ⟨w.text, s₂.memo.Has, w.pending⟩ r (Step.Alike true)
          (told g k c₁ i p acts₁ skips s₁) (strictWithin n c₁ i p acts₁ skips s₂) :=
        ih n hc' hi (fun _ => rfl) s₁ s₂ hs.restart
      have htold : told g k c₁ i p acts₁ skips = told g (k + 1) c₁ i p acts₁ skips := by
        rw [← told_skips, ← told_skips g (k + 1), told, told, hc.text, hearly,
          Grammar.answer?_of_le (Nat.le_succ k) hearly]
      rw [← htold]
      exact agree_since hN hs (Nat.le_succ k) hagree
    | none =>
      cases n with
      | zero => exact agree_of_deep₂ ⟨rfl, rfl⟩
      | succ n =>
        have hdeep : TallyPair g w.text c₁.deeper c₁.deeper := hc.deeper
        have hremember (step : Step) (s' : State)
            (hrun : remember (strictWithin n) c₁.deeper i p acts₁ skips s₂ = .ok step s') :
            (tallying g N hN (k + 1)).Agree w r (Step.Alike true) (told g (k + 1) c₁ i p acts₁ skips s₁)
              (.ok step s') := by
          rw [remember_of_isOn hs.isOn] at hrun
          cases hfind : (s₂.memo.find? (c₁.deeper.key i p acts₁ (skips && !c₁.deeper.adjacent))).1 with
          | some found =>
            rw [hfind] at hrun
            obtain ⟨rfl, rfl⟩ : found = step ∧ _ = s' := by simpa using hrun
            exact agree_found hN hdeep p acts₁ skips hs hfind
          | none =>
            rw [hfind] at hrun
            cases hperform : perform (strictWithin n) c₁.deeper i p acts₁ (skips && !c₁.deeper.adjacent)
                (s₂.counted.consulted (c₁.deeper.key i p acts₁ (skips && !c₁.deeper.adjacent))) with
            | error e u =>
              rw [hperform] at hrun
              exact absurd hrun (by simp [addOutcome])
            | ok a u =>
              rw [hperform] at hrun
              obtain ⟨rfl, rfl⟩ : a = step ∧ _ = s' := by simpa [addOutcome] using hrun
              exact agree_missed hN hdeep hi p acts₁ skips (ih n) hs hearly hfind hperform
        rcases strictWithin_succ n c₁ i p acts₁ skips with ⟨-, h⟩ | h
        · rw [h]
          exact agree_of_deep₂ ⟨rfl, rfl⟩
        · rw [h]
          exact agree_strict hN hremember

end Tallying
end Coupling

/-! ## How many keys there are -/

/-- The keys of a number of nodes at the positions of a text: actions may run or not, and an attempt may skip, or be
inside a combined region, or neither. -/
def MemoKey.range (nodes size : Nat) : Finset MemoKey :=
  let flags := (Finset.univ : Finset (Bool × Bool × Bool)).filter fun f => (f.2.1 && f.2.2) = false
  (Finset.range nodes ×ˢ Finset.range (size + 1) ×ˢ flags).image
    fun x => ⟨x.1, x.2.1, x.2.2.1, x.2.2.2.1, x.2.2.2.2⟩

theorem MemoKey.card_range_le (nodes size : Nat) : (MemoKey.range nodes size).card ≤ 6 * nodes * (size + 1) := by
  refine Finset.card_image_le.trans (le_of_eq ?_)
  have hflags : ((Finset.univ : Finset (Bool × Bool × Bool)).filter fun f => (f.2.1 && f.2.2) = false).card = 6 := by
    decide
  rw [Finset.card_product, Finset.card_product, Finset.card_range, Finset.card_range, hflags]
  ring

theorem MemoKey.mem_range {nodes size : Nat} {key : MemoKey} (h : key.Proper (· < nodes)) (hp : key.position ≤ size) :
    key ∈ MemoKey.range nodes size := by
  refine Finset.mem_image.mpr ⟨(key.id, key.position, key.acts, key.skips, key.adjacent), ?_, rfl⟩
  simp only [Finset.mem_product, Finset.mem_range, Finset.mem_filter, Finset.mem_univ, true_and]
  exact ⟨h.node, Nat.lt_succ_of_le hp, h.apart⟩

/-- A table without a limit holds at most one outcome for each key. -/
theorem Memo.size_le_card {m : Memo} (hm : ∃ entries, m = .all entries) {keys : Finset MemoKey}
    (h : ∀ key, m.Has key → key ∈ keys) : m.size ≤ keys.card := by
  obtain ⟨entries, rfl⟩ := hm
  show entries.size ≤ keys.card
  rw [← Std.HashMap.length_keys, ← List.toFinset_card_of_nodup Std.HashMap.nodup_keys]
  refine Finset.card_le_card fun key hkey => h key ?_
  have hmem : key ∈ entries := Std.HashMap.mem_keys.mp (List.mem_toFinset.mp hkey)
  exact ⟨entries[key], Std.HashMap.getElem?_eq_some_getElem hmem⟩

/-! ## Parses -/

/-- The keys of a table in which everything lies at places are at positions of the text. -/
theorem State.Placed.position_le {t : Text} {s : State} (h : s.Placed .places t) {key : MemoKey}
    (hkey : s.memo.Has key) : key.position ≤ t.size := by
  obtain ⟨step, hstep⟩ := hkey
  have hplace := h.memo key step hstep
  exact hplace.le.trans hplace.site.le_size

/-- A parse by a new parser in which no attempt halts leaves a table that counts, at places of the text. -/
theorem HaltFree.exists_tallied {g : Grammar} {N : ExprId → Prop} (hN : g.Closed N) (hroot : N g.root) {config : Config}
    (hc : config.memoization = .packrat none) {watch : Watch} {t : Text} {all : Bool}
    (hfree : HaltFree (Parser.new g config watch) t all) :
    let s := ((Parser.new g config watch).parse t all).2.state
    s.Placed .places (viewOf config t) ∧ ∃ k known, s.Tallied g N k ⟨viewOf config t, known, 0⟩ := by
  obtain ⟨step, s', hstrict, hrun⟩ := hfree.matchRoot_eq
  let c := Context.top g config watch (viewOf config t)
  let s : State := { (State.initial config).forget with journal := [] }
  have hrun : matchRoot c all s = .ok step s' := hrun
  have hstrict : Coupling.matchRootBy (strictWithin (attemptFuel c)) c all s = .ok step s' := hstrict
  have hpair : Coupling.TallyPair g (viewOf config t) c c := ⟨rfl, rfl, rfl, hc⟩
  have hmemo : s.memo = .all ∅ := by
    show (Memo.ofStrategy config.memoization).clear = .all ∅
    rw [hc]
    rfl
  -- told their answers, the attempts match the same
  obtain ⟨room, u, htold⟩ := exists_told_matchRoot (c := c) hpair.seedless all (State.Truthful.forget _ _ _ _) hrun s
  let w : Tally := ⟨viewOf config t, fun _ => False, 0⟩
  have hpair : Coupling.TallyPair g w.text c c := hpair
  have hlinked := Coupling.matchRootBy_linked (K := Coupling.tallying g N hN room) (r := false)
    (Coupling.tallying_agrees hN room (attemptFuel c)) hpair hroot all s s (State.Tallied.empty hmemo rfl rfl _ _)
  have htold : Coupling.matchRootBy (told g room) c all s = .ok step u := htold
  rw [htold, hstrict] at hlinked
  have htallied : s'.Tallied g N room w := hlinked.2
  have hplaced := Upkeep.matchRoot_run (U := Upkeep.places g) trivial (c := c) rfl all s (State.Placed.forget _ _ _ _)
  rw [hrun] at hplaced
  have hstate : ((Parser.new g config watch).parse t all).2.state = { s' with journal := [] } := by
    show ({ (resolve (viewOf config t) (matchRoot c all s)).2 with journal := [] } : State) = _
    rw [hrun]
    cases step with
    | matched stop r => rfl
    | failed d => rfl
  have hsame : ({ s' with journal := [] } : State).SameTables s' := ⟨rfl, rfl, rfl, rfl⟩
  rw [hstate]
  exact ⟨hplaced.2.congr hsame, room, fun _ => False, htallied.congr hsame⟩

/-- **No outcome is looked for twice.** A parser that forgets nothing and was just reset has, after a parse in which no
attempt halts, missed as many outcomes as it holds: each of them was missed once, and then there. There are at most six
for each node at each position of the text. -/
theorem misses_eq_held {b : Builder} {root : ExprId} {g : Grammar} (hbuild : b.build root = .ok g) {p : Parser}
    (hp : p.Used) (hg : p.grammar = g) (hc : p.config.memoization = .packrat none) (t : Text) (all : Bool)
    (hfree : HaltFree p.reset t all) :
    let q := (p.reset.parse t all).2
    q.metrics.misses = q.held ∧ q.held ≤ 6 * g.size * ((viewOf p.config t).size + 1) := by
  subst hg
  have hbuilds := Builder.builds_of_ok hbuild
  have hclosed : p.grammar.Closed (· < p.grammar.size) := fun i j hi hj => hbuilds.references_lt hi hj
  have hroot : p.grammar.root < p.grammar.size := by
    rw [hbuilds.root_eq, hbuilds.size]
    exact hbuilds.root_lt
  rw [hp.reset_eq_new hc] at hfree ⊢
  obtain ⟨hplaced, k, known, htallied⟩ := hfree.exists_tallied hclosed hroot hc
  intro q
  have hheld : q.held = q.state.memo.size := by
    show q.state.memo.size + q.state.seeds.size = q.state.memo.size
    rw [htallied.seeds]
    rfl
  refine ⟨htallied.count.trans hheld.symm, ?_⟩
  calc q.held = q.state.memo.size := hheld
    _ ≤ (MemoKey.range p.grammar.size (viewOf p.config t).size).card :=
      Memo.size_le_card htallied.all fun key hkey =>
        MemoKey.mem_range (htallied.proper key hkey) (hplaced.position_le hkey)
    _ ≤ 6 * p.grammar.size * ((viewOf p.config t).size + 1) := MemoKey.card_range_le _ _

/-! ## A parse in which no attempt halts -/

/-- A computation that does not halt. -/
def MatchM.Ends {α : Type} (m : MatchM α) : Prop := ∀ s, ∃ a s', m s = .ok a s'

theorem MatchM.Ends.bind {α β : Type} {m : MatchM α} {f : α → MatchM β} (hm : m.Ends) (hf : ∀ a, (f a).Ends) :
    (m >>= f).Ends := by
  intro s
  obtain ⟨a, s', h⟩ := hm s
  show ∃ b s', EStateM.bind m f s = .ok b s'
  unfold EStateM.bind
  rw [h]
  exact hf a s'

theorem MatchM.Ends.strict {m : MatchM Step} (hm : m.Ends) : m.strict.Ends := by
  intro s
  obtain ⟨step, s', h⟩ := hm s
  exact ⟨step, s', by rw [MatchM.strict, h]⟩

/-- What is remembered ends when it does where it is performed. -/
theorem remember_ends {a : Attempt} {c : Context} {i : ExprId} {p : Nat} {acts : Bool}
    (h : ∀ skips, (perform a c i p acts skips).Ends) (skips : Bool) : (remember a c i p acts skips).Ends := by
  unfold remember
  refine MatchM.Ends.bind (fun s => ⟨(), _, rfl⟩) fun _ => MatchM.Ends.bind (fun s => ⟨_, s, rfl⟩) fun on => ?_
  cases on with
  | false => exact h _
  | true =>
    refine MatchM.Ends.bind (fun s => ⟨_, _, rfl⟩) fun found => ?_
    cases found with
    | some step => exact fun s => ⟨step, s, rfl⟩
    | none => exact (h _).bind fun step => MatchM.Ends.bind (fun s => ⟨(), _, rfl⟩) fun _ s => ⟨step, s, rfl⟩

/-- A literal that ignores nothing makes no attempts. -/
theorem perform_literal_ends {g : Grammar} {i : ExprId} {text : String} {caseless : Bool}
    (hkind : (g.rule i).kind = .literal text caseless) (hignores : (g.rule i).ignores = []) (a : Attempt) {c : Context}
    (hg : c.grammar = g) (p : Nat) (acts skips : Bool) : (perform a c i p acts skips).Ends := by
  have hrule : c.rule i = g.rule i := congrArg (Grammar.rule · i) hg
  have hunit {m : MatchM Unit} (h : ∀ s, ∃ s', m s = .ok () s' ∧ s'.SameTables s) : m.Ends :=
    fun s => ⟨(), (h s).imp fun _ => And.left⟩
  simp only [perform, hrule, matchNode, hkind, skipLeading, skipIgnorables, hignores, List.isEmpty_nil, if_true]
  refine (hunit (reportTry_sameTables _ _ _ _)).bind fun _ => ?_
  cases skips with
  | true => exact (hunit (reportStep_sameTables _ _ _ _)).bind fun _ s => ⟨_, s, rfl⟩
  | false => exact (hunit (reportStep_sameTables _ _ _ _)).bind fun _ s => ⟨_, s, rfl⟩

/-- In the parse of the front of a text by a literal that ignores nothing there is one attempt, and it does not
halt. -/
theorem HaltFree.of_literal {g : Grammar} {text : String} {caseless : Bool}
    (hkind : (g.rule g.root).kind = .literal text caseless) (hignores : (g.rule g.root).ignores = []) (watch : Watch)
    (t : Text) : HaltFree (Parser.new g .packrat watch) t false := by
  let c := Context.top g .packrat watch (viewOf .packrat t)
  have hattempt : (strictWithin (1000 + 1) c g.root 0 true true).Ends := by
    rcases strictWithin_succ 1000 c g.root 0 true true with ⟨⟨limit, hlimit, hle⟩, -⟩ | h
    · obtain rfl : 1000 = limit := Option.some.inj hlimit
      exact absurd (show 1000 ≤ 0 from hle) (by decide)
    · rw [h]
      exact (remember_ends (perform_literal_ends hkind hignores _ rfl 0 true) true).strict
  refine hattempt.bind (fun step => ?_) _
  cases step with
  | matched stop r => exact fun s => ⟨_, s, rfl⟩
  | failed d => exact fun s => ⟨_, s, rfl⟩

/-- A letter. -/
def oneLetter : Builder := .ofCalls [.literal "a" false]

theorem misses_eq_held_oneLetter : ∃ g, oneLetter.build 0 = .ok g ∧
    let q := ((Parser.new g .packrat default).reset.parse ['a'] false).2
    q.metrics.misses = q.held ∧ q.held ≤ 6 * g.size * (1 + 1) := by
  have hok : (oneLetter.build 0).isOk = true := by decide +kernel
  cases hbuild : oneLetter.build 0 with
  | error e =>
    rw [hbuild] at hok
    exact absurd hok Bool.false_ne_true
  | ok g =>
    have hkind : ((oneLetter.build 0).toOption.map fun g => (g.rule g.root).kind) = some (.literal "a" false) := rfl
    have hignores : ((oneLetter.build 0).toOption.map fun g => (g.rule g.root).ignores) = some [] := rfl
    rw [hbuild] at hkind hignores
    refine ⟨g, rfl, misses_eq_held hbuild (.new g .packrat default) rfl rfl ['a'] false ?_⟩
    exact .of_literal (Option.some.inj hkind) (Option.some.inj hignores) default ['a']

end Packrat
