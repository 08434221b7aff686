import Mathlib.Tactic
import Packrat.Pattern.Reader

/-!
# `Packrat.Proofs.Reading.Basic` — what reading makes of a parenthesis behind the text

Put behind a text, a closing parenthesis and whatever follows it change little for what reads the front of the text. As
long as it does not come to the end, it reads the same and leaves the parenthesis alone. Where it comes to the end, be it
in a comment or in the middle of something that is not complete, it fails on the text, or leaves nothing of it; and with
the parenthesis behind, it fails too, or takes the parenthesis for its own.

## Contents

* `Unread` — states with text left to read;
* `ReadsAt` — readings of which this is so, with `bind` for one after the other and `onHead` for a choice between two;
* `takeWhile_stop`, `upTo_cases` — runs of characters up to one that may be the parenthesis;
* `upTo?`, `readsAt_upTo?` — what stands before a character, and means nothing with a parenthesis in it.
-/

namespace Packrat.Pattern

/-- What has text left to read, and can have more of it. -/
class Unread (σ : Type) where
  left : σ → Text
  /-- The same with further text behind what is left. -/
  followedBy : σ → Text → σ
  left_followedBy : ∀ s w, left (followedBy s w) = left s ++ w

open Unread

instance : Unread Text := ⟨id, fun t w => t ++ w, fun _ _ => rfl⟩

instance : Unread Reader := ⟨Reader.rest, fun r w => r.at (r.rest ++ w), fun _ _ => rfl⟩

instance {α σ : Type} [Unread σ] : Unread (α × σ) :=
  ⟨fun x => left x.2, fun x w => (x.1, followedBy x.2 w), fun x w => left_followedBy x.2 w⟩

@[simp] theorem Reader.at_rest (r : Reader) (t : Text) : (r.at t).rest = t := rfl

@[simp] theorem left_text (t : Text) : left t = t := rfl

@[simp] theorem followedBy_text (t w : Text) : followedBy t w = t ++ w := rfl

@[simp] theorem left_reader (r : Reader) : left r = r.rest := rfl

@[simp] theorem followedBy_reader (r : Reader) (w : Text) : followedBy r w = r.at (r.rest ++ w) := rfl

@[simp] theorem left_pair {α σ : Type} [Unread σ] (x : α × σ) : left x = left x.2 := rfl

@[simp] theorem followedBy_pair {α σ : Type} [Unread σ] (x : α × σ) (w : Text) :
    followedBy x w = (x.1, followedBy x.2 w) := rfl

/-! ## Readings -/

section

variable {σ τ β γ : Type} [Unread σ] [Unread τ] [Unread β] [Unread γ]

/-- A reading comes to the end of a text: it fails or leaves nothing, and with a parenthesis behind the text it fails or
leaves less than what follows the parenthesis. With only the parenthesis there it reads the same, if it reads at all. -/
structure Exhausts (f : σ → Option β) (s : σ) : Prop where
  nothing : ∀ x, f s = some x → left x = []
  beyond : ∀ v x, f (followedBy s (')' :: v)) = some x → (left x).length ≤ v.length
  same : ∀ x, f s = some x → f (followedBy s [')']) = some x

/-- A reading leaves an end of the text; and either it reads the same with a parenthesis behind the text, and leaves that
too, or it comes to the end of the text. -/
structure ReadsAt (f : σ → Option β) (s : σ) : Prop where
  shrinks : ∀ x, f s = some x → left x <:+ left s
  cases : (∃ x, f s = some x ∧ ∀ v, f (followedBy s (')' :: v)) = some (followedBy x (')' :: v))) ∨ Exhausts f s

/-- What follows a character, taken one way, and a text that does not begin with it, taken another way. -/
def onHead {ρ : Type} (c : Char) (f g : Text → ρ) (t : Text) : ρ :=
  if t.head? = some c then f t.tail else g t

theorem onHead_cons {ρ : Type} (c : Char) (f g : Text → ρ) (t : Text) : onHead c f g (c :: t) = f t := if_pos rfl

theorem onHead_other {ρ : Type} {c : Char} {t : Text} (h : ∀ r, t = c :: r → False) (f g : Text → ρ) :
    onHead c f g t = g t :=
  if_neg fun hc => (List.head?_eq_some_iff.mp hc).elim h

namespace ReadsAt

/-- Something is read before the end of the text. -/
theorem within {f : σ → Option β} {s : σ} (x : β) (h : f s = some x) (hleft : left x <:+ left s)
    (hw : ∀ v, f (followedBy s (')' :: v)) = some (followedBy x (')' :: v))) : ReadsAt f s :=
  ⟨fun _ hy => Option.some.inj (h.symm.trans hy) ▸ hleft, .inl ⟨x, h, hw⟩⟩

/-- Something fails at the end of the text. -/
theorem fails {f : σ → Option β} {s : σ} (h : f s = none)
    (hw : ∀ v x, f (followedBy s (')' :: v)) = some x → (left x).length ≤ v.length) : ReadsAt f s := by
  have hnone {x : β} (hx : f s = some x) : False := by
    rw [h] at hx
    exact absurd hx (by simp)
  exact ⟨fun x hx => (hnone hx).elim, .inr ⟨fun x hx => (hnone hx).elim, hw, fun x hx => (hnone hx).elim⟩⟩

/-- Something is not understood, whatever follows. -/
theorem refuses {f : σ → Option β} {s : σ} (h : f s = none) (hw : ∀ v, f (followedBy s (')' :: v)) = none) :
    ReadsAt f s :=
  fails h fun v x hx => absurd hx (by simp [hw v])

theorem refused (s : σ) : ReadsAt (fun _ => (none : Option β)) s := refuses rfl fun _ => rfl

/-- What is read of a text, if anything, is decided, and leaves what is left of it. -/
theorem decided {f : σ → Option β} {s : σ} (e : Option β) (h : f s = e) (hleft : ∀ x ∈ e, left x <:+ left s)
    (hw : ∀ v, f (followedBy s (')' :: v)) = e.map fun x => followedBy x (')' :: v)) : ReadsAt f s := by
  cases e with
  | none => exact refuses h hw
  | some x => exact within x h (hleft x rfl) hw

/-- A reading that is another one, of what is left after some characters. -/
theorem of_eq {f : σ → Option β} {g : τ → Option β} {s : σ} {t : τ} (h : ReadsAt g t) (hs : f s = g t)
    (hw : ∀ v, f (followedBy s (')' :: v)) = g (followedBy t (')' :: v))) (hleft : left t <:+ left s) :
    ReadsAt f s := by
  refine ⟨fun x hx => (h.shrinks x (hs ▸ hx)).trans hleft, ?_⟩
  rcases h.cases with ⟨x, hx, hxw⟩ | h
  · exact .inl ⟨x, hs.trans hx, fun v => (hw v).trans (hxw v)⟩
  · exact .inr ⟨fun x hx => h.nothing x (hs ▸ hx), fun v x hx => h.beyond v x (hw v ▸ hx),
      fun x hx => (hw []).trans (h.same x (hs ▸ hx))⟩

/-- The same reading, of what is left of something else. -/
theorem same {f : σ → Option β} {g : τ → Option β} {s : σ} {t : τ} (h : ReadsAt g t) (hs : f s = g t)
    (hw : ∀ v, f (followedBy s (')' :: v)) = g (followedBy t (')' :: v))) (hleft : left t = left s) : ReadsAt f s :=
  h.of_eq hs hw (hleft ▸ List.suffix_rfl)

theorem congr {f g : σ → Option β} {s : σ} (h : ReadsAt g s) (heq : ∀ s, f s = g s) : ReadsAt f s :=
  h.of_eq (heq s) (fun _ => heq _) List.suffix_rfl

/-- One reading after another, of which it is enough to know how it reads on from where the first one leads. -/
theorem bindOf {f : σ → Option β} {g : β → Option γ} {s : σ} (hf : ReadsAt f s)
    (hg : ∀ x, f s = some x → ReadsAt g x) (hshrinks : ∀ x y, g x = some y → left y <:+ left x) :
    ReadsAt (fun s => (f s).bind g) s := by
  refine ⟨?_, ?_⟩
  · intro y hy
    obtain ⟨x, hx, hy⟩ := Option.bind_eq_some_iff.mp hy
    exact (hshrinks x y hy).trans (hf.shrinks x hx)
  · rcases hf.cases with ⟨x, hx, hxw⟩ | hf
    · rcases (hg x hx).cases with ⟨y, hy, hyw⟩ | hy
      · exact .inl ⟨y, by rw [hx, Option.bind_some, hy], fun v => by rw [hxw v, Option.bind_some, hyw v]⟩
      · refine .inr ⟨fun y h => hy.nothing y ?_, fun v y h => hy.beyond v y ?_, fun y h => ?_⟩
        · rwa [hx] at h
        · rwa [hxw v] at h
        · rw [hx] at h
          rw [hxw []]
          exact hy.same y h
    · refine .inr ⟨?_, ?_, ?_⟩
      · intro y h
        obtain ⟨x, hx, hy⟩ := Option.bind_eq_some_iff.mp h
        have hsuffix := hshrinks x y hy
        rw [hf.nothing x hx] at hsuffix
        exact List.suffix_nil.mp hsuffix
      · intro v y h
        obtain ⟨x, hx, hy⟩ := Option.bind_eq_some_iff.mp h
        exact (hshrinks x y hy).length_le.trans (hf.beyond v x hx)
      · intro y h
        obtain ⟨x, hx, hy⟩ := Option.bind_eq_some_iff.mp h
        exact Option.bind_eq_some_iff.mpr ⟨x, hf.same x hx, hy⟩

/-- One reading after another. -/
theorem bind {f : σ → Option β} {g : β → Option γ} {s : σ} (hf : ReadsAt f s) (hg : ∀ x, ReadsAt g x) :
    ReadsAt (fun s => (f s).bind g) s :=
  hf.bindOf (fun x _ => hg x) fun x y hy => (hg x).shrinks y hy

/-- What is made of what is read, nothing more being read. -/
theorem map {f : σ → Option β} {g : β → γ} {s : σ} (hf : ReadsAt f s) (hleft : ∀ x, left (g x) = left x)
    (hg : ∀ x w, g (followedBy x w) = followedBy (g x) w) : ReadsAt (fun s => (f s).map g) s := by
  have hmap := hf.bind (g := fun x => some (g x)) fun x =>
    within (g x) rfl (hleft x ▸ List.suffix_rfl) fun v => congrArg some (hg x _)
  exact hmap.congr fun _ => Option.map_eq_bind

/-- What a text is read as when it begins with a character, and what otherwise. -/
theorem headOf {f g h : Text → Option β} (c : Char) (hc : c ≠ ')') {t : Text} (hf : ∀ r, t = c :: r → ReadsAt f r)
    (hg : t.head? ≠ some c → ReadsAt g t) (hcons : ∀ r, h (c :: r) = f r)
    (hother : ∀ t, t.head? ≠ some c → h t = g t) : ReadsAt h t := by
  cases t with
  | nil =>
    exact (hg (by simp)).of_eq (hother _ (by simp)) (fun v => hother _ (by simpa using hc.symm)) List.suffix_rfl
  | cons d r =>
    by_cases hd : d = c
    · subst hd
      exact (hf r rfl).of_eq (hcons r) (fun v => hcons _) (List.suffix_cons _ _)
    · exact (hg (by simpa using hd)).of_eq (hother _ (by simpa using hd)) (fun v => hother _ (by simpa using hd))
        List.suffix_rfl

theorem head {f g h : Text → Option β} (c : Char) (hc : c ≠ ')') (hf : ∀ t, ReadsAt f t) (hg : ∀ t, ReadsAt g t)
    (hcons : ∀ r, h (c :: r) = f r) (hother : ∀ t, t.head? ≠ some c → h t = g t) (t : Text) : ReadsAt h t :=
  headOf c hc (fun r _ => hf r) (fun _ => hg t) hcons hother

theorem onHead {f g : Text → Option β} {c : Char} (hc : c ≠ ')') (hf : ∀ t, ReadsAt f t) (hg : ∀ t, ReadsAt g t)
    (t : Text) : ReadsAt (Pattern.onHead c f g) t :=
  head c hc hf hg (onHead_cons c f g) (fun _ ht => if_neg ht) t

/-- A test of something else than the text. -/
theorem ite {p : Prop} [Decidable p] {f g : σ → Option β} {s : σ} (hf : ReadsAt f s) (hg : ReadsAt g s) :
    ReadsAt (fun s => if p then f s else g s) s := by
  by_cases hp : p
  · exact hf.of_eq (if_pos hp) (fun _ => if_pos hp) List.suffix_rfl
  · exact hg.of_eq (if_neg hp) (fun _ => if_neg hp) List.suffix_rfl

/-- What leaves less than what follows the parenthesis cannot be what leaves the parenthesis too. -/
theorem of_followedBy {f : σ → Option β} {s : σ} (h : ReadsAt f s) {v : Text} {y : β}
    (hy : f (followedBy s (')' :: v)) = some y) (hlong : v.length < (left y).length) :
    ∃ x, f s = some x ∧ ∀ v, f (followedBy s (')' :: v)) = some (followedBy x (')' :: v)) := by
  rcases h.cases with h | h
  · exact h
  · have hle := h.beyond v y hy
    omega

end ReadsAt

end

/-! ## Runs of characters -/

/-- A run that a parenthesis ends is the same with one behind it. -/
theorem takeWhile_stop {p : Char → Bool} (hp : p ')' = false) (t v : Text) :
    (t ++ ')' :: v).takeWhile p = t.takeWhile p := by
  induction t with
  | nil => simp [hp]
  | cons c t ih => simp [List.takeWhile_cons, ih]

theorem dropWhile_stop {p : Char → Bool} (hp : p ')' = false) (t v : Text) :
    (t ++ ')' :: v).dropWhile p = t.dropWhile p ++ ')' :: v := by
  induction t with
  | nil => simp [hp]
  | cons c t ih =>
    simp only [List.cons_append, List.dropWhile_cons, ih]
    split
    · rfl
    · rfl

/-- A run that a parenthesis does not end either ends in the text, or goes on behind it with the parenthesis. -/
theorem upTo_cases {p : Char → Bool} (hp : p ')' = true) (t : Text) :
    (∃ c r, t.dropWhile p = c :: r ∧ ∀ w, (t ++ w).takeWhile p = t.takeWhile p ∧ (t ++ w).dropWhile p = c :: (r ++ w)) ∨
      (t.dropWhile p = [] ∧ ∀ v, ')' ∈ (t ++ ')' :: v).takeWhile p) := by
  induction t with
  | nil => exact .inr ⟨rfl, fun v => by simp [hp]⟩
  | cons c t ih =>
    cases hc : p c with
    | false => exact .inl ⟨c, t, by simp [hc], fun w => by simp [hc]⟩
    | true =>
      rcases ih with ⟨d, r, hr, hw⟩ | ⟨hr, hw⟩
      · exact .inl ⟨d, r, by simp [hc, hr], fun w => by simp [hc, hw w]⟩
      · exact .inr ⟨by simp [hc, hr], fun v => by simp [hc, hw v]⟩

/-- Reads up to a character and over it: what stands before it, if that means anything. -/
def upTo? {β : Type} (stop : Char) (value? : Text → Option β) (t : Text) : Option (β × Text) :=
  match t.dropWhile (· != stop) with
  | _ :: after => (value? (t.takeWhile (· != stop))).map (·, after)
  | [] => none

/-- What has the parenthesis in it means nothing. -/
theorem readsAt_upTo? {β : Type} {stop : Char} {value? : Text → Option β} (hstop : stop ≠ ')')
    (hvalue : ∀ t, ')' ∈ t → value? t = none) (t : Text) : ReadsAt (upTo? stop value?) t := by
  have hparen : (')' != stop) = true := by simpa using hstop.symm
  rcases upTo_cases (p := (· != stop)) hparen t with ⟨c, after, hafter, hw⟩ | ⟨hnil, hw⟩
  · refine .decided ((value? (t.takeWhile (· != stop))).map (·, after)) (by rw [upTo?, hafter]) (fun x hx => ?_) fun v => ?_
    · obtain ⟨y, -, rfl⟩ := Option.map_eq_some_iff.mp hx
      have hsuffix : c :: after <:+ t := hafter ▸ List.dropWhile_suffix _
      exact (List.suffix_cons c after).trans hsuffix
    · rw [followedBy_text, upTo?, (hw _).1, (hw _).2, Option.map_map]
      rfl
  · refine .refuses (by rw [upTo?, hnil]) fun v => ?_
    rw [followedBy_text, upTo?, hvalue _ (hw v)]
    split
    · rfl
    · rfl

end Packrat.Pattern
