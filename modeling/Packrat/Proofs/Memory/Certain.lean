import Packrat.Proofs.Memory.Table
import Packrat.Proofs.Plain.Yields

/-!
# `Packrat.Proofs.Memory.Certain` — attempts that come to one outcome whatever is remembered

Where an attempt comes to the same outcome in every context that has room for it, with whatever is rightly remembered of
the text, this outcome is the answer under its key. So a table that gives an outcome gives this one, and remembering it
keeps the table right.

## Contents

* `State.Sound` — states in which outcomes are rightly remembered;
* `Context.Offers` — contexts with room for attempts;
* `Grammar.Certain` — attempts that come to one outcome;
* `Grammar.certain_of_perform` — **an attempt is certain if its performance is**.
-/

namespace Packrat

/-- Every outcome that is remembered of a text is the answer under its key. -/
def State.Sound (g : Grammar) (t : Text) (s : State) : Prop := s.memo.Sound g t

theorem State.Sound.congr {g : Grammar} {t : Text} ⦃s s' : State⦄ (h : s'.SameTables s) (hs : s.Sound g t) :
    s'.Sound g t := by
  unfold Sound
  rw [h.memo]
  exact hs

theorem State.sound_initial (g : Grammar) (t : Text) (config : Config) : (State.initial config).Sound g t :=
  Memo.sound_ofStrategy g t config.memoization

/-- A context of a grammar on a text, in or outside of a combined region, has room for so many attempts. -/
structure Context.Offers (c : Context) (m : Nat) (g : Grammar) (t : Text) (adjacent : Bool) (n : Nat) : Prop where
  grammar : c.grammar = g
  text : c.text = t
  adjacent : c.adjacent = adjacent
  room : n ≤ c.room m

theorem Context.Offers.rule {c : Context} {m : Nat} {g : Grammar} {t : Text} {adjacent : Bool} {n : Nat}
    (h : c.Offers m g t adjacent n) (i : ExprId) : c.rule i = g.rule i := congrArg (Grammar.rule · i) h.grammar

/-- With room for one attempt more there is room one level deeper, and the limit is not reached. -/
theorem Context.room_deeper_of_lt {c : Context} {m n : Nat} (h : n < c.room (m + 1)) :
    n ≤ c.deeper.room m ∧ ∀ limit ∈ c.config.recursionLimit, c.depth < limit := by
  cases hlimit : c.config.recursionLimit with
  | none =>
    have hdeeper : c.deeper.room m = m := by rw [room, show c.deeper.config.recursionLimit = none from hlimit]
    rw [room, hlimit] at h
    rw [hdeeper]
    exact ⟨Nat.le_of_lt_succ h, by simp⟩
  | some limit =>
    rw [room, hlimit] at h
    rw [c.room_deeper m hlimit]
    simp only [Option.mem_some_iff, forall_eq'] at h ⊢
    omega

namespace Grammar

variable {g : Grammar} {t : Text} {n : Nat} {key : MemoKey} {step : Step}

/-- The attempt under a key comes to an outcome in every context with room for so many attempts, whatever is rightly
remembered. -/
def Certain (g : Grammar) (t : Text) (n : Nat) (key : MemoKey) (step : Step) : Prop :=
  ∀ ⦃c : Context⦄ ⦃m : Nat⦄, c.Offers m g t key.adjacent n →
    Yields (State.Sound g t) (attemptWithin m c key.id key.position key.acts key.skips) step

/-- The performance of an attempt comes to an outcome in every context with room for so many attempts in it. -/
def CertainlyPerforms (g : Grammar) (t : Text) (n : Nat) (key : MemoKey) (step : Step) : Prop :=
  ∀ ⦃c : Context⦄ ⦃m : Nat⦄, c.Offers m g t key.adjacent n →
    Yields (State.Sound g t) (perform (attemptWithin m) c key.id key.position key.acts (key.skips && !key.adjacent)) step

/-- What a performance certainly comes to is the answer. -/
theorem CertainlyPerforms.settles (h : g.CertainlyPerforms t n key step) :
    g.Settles t { key with skips := key.skips && !key.adjacent } (.ok step) := by
  refine ⟨n + 1, ?_⟩
  rw [answer?_skips]
  let c := plainContext g t key.adjacent
  obtain ⟨s', hrun, -⟩ := h (c := c.deeper) (m := n) ⟨rfl, rfl, rfl, le_rfl⟩ (State.initial {}).counted
    (Memo.sound_ofStrategy g t .disabled)
  have hremember := remember_off (s := State.initial {}) rfl (attemptWithin n) c.deeper key.id key.position key.acts
    key.skips
  have hanswer : g.answer? t (n + 1) key
      = answerOf? (perform (attemptWithin n) c.deeper key.id key.position key.acts (key.skips && !key.adjacent)
        (State.initial {}).counted) := congrArg answerOf? hremember
  exact hanswer.trans (congrArg answerOf? hrun)

/-- What is rightly remembered answers as the performance does. -/
theorem CertainlyPerforms.remember (h : g.CertainlyPerforms t n key step) {c : Context} {m : Nat}
    (hc : c.Offers m g t key.adjacent n) :
    Yields (State.Sound g t) (Packrat.remember (attemptWithin m) c key.id key.position key.acts key.skips) step := by
  intro s hs
  have hperform := h hc
  rw [← hc.adjacent] at hperform
  cases hon : s.memo.isOn with
  | false =>
    rw [remember_off (Memo.eq_off hon)]
    exact hperform s.counted hs
  | true =>
    have hsettles := h.settles
    have hkey : { key with skips := key.skips && !key.adjacent }
        = c.key key.id key.position key.acts (key.skips && !c.adjacent) := by rw [Context.key, hc.adjacent]
    rw [hkey] at hsettles
    rw [remember_of_isOn hon]
    generalize c.key key.id key.position key.acts (key.skips && !c.adjacent) = key' at hsettles ⊢
    have hconsulted : (s.counted.consulted key').Sound g t := Memo.Sound.find? hs key'
    cases hfind : (s.memo.find? key').1 with
    | some step' =>
      obtain rfl : step = step' := Except.ok.inj (Memo.Sound.find?_eq hs hfind hsettles)
      exact ⟨_, rfl, hconsulted⟩
    | none =>
      obtain ⟨s', hrun, hs'⟩ := hperform _ hconsulted
      dsimp only
      rw [hrun]
      exact ⟨_, rfl, Memo.Sound.insert hs' hsettles⟩

end Grammar

/-- **An attempt is certain if its performance is**: a table can only give the outcome that it would come to. -/
theorem Grammar.certain_of_perform {g : Grammar} {t : Text} {n : Nat} {key : MemoKey} {step : Step}
    (h : g.CertainlyPerforms t n key step) : g.Certain t (n + 1) key step := by
  intro c m hc
  cases m with
  | zero =>
    have hzero : c.room 0 = 0 := by
      unfold Context.room
      split <;> simp
    have hroom := hc.room
    omega
  | succ m =>
    obtain ⟨hdeeper, hlimit⟩ := Context.room_deeper_of_lt hc.room
    rcases attemptWithin_succ m c key.id key.position key.acts key.skips with ⟨limit, hmem, hle, -⟩ | heq
    · exact absurd (hlimit limit hmem) (Nat.not_lt_of_le hle)
    · rw [heq]
      exact h.remember (c := c.deeper) ⟨hc.grammar, hc.text, hc.adjacent, hdeeper⟩

end Packrat
