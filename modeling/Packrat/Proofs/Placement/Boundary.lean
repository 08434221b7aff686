import Mathlib.Tactic
import Mathlib.Data.List.TakeWhile
import Packrat.Matching.Token

/-!
# `Packrat.Proofs.Placement.Boundary` — the places of a text

A match starts at a place of the text, a boundary between two characters, and takes some front of what is left
there. So it ends at a place too.

## Contents

* `Text.IsBoundary` — splitting the text at a place, and moving past a front of the rest;
* `IsBoundary.slice?`, `IsBoundary.in_slice` — cutting between places, and places seen from a slice;
* `skip`, `next`, `before`, `starts` — places that the matcher computes;
* `isBoundary_matchToken`, `isBoundary_testPosition` — terminals end at places;
* `Sites` — sets of positions that the matcher does not leave.
-/

namespace Packrat
namespace Text

variable {t : Text} {p q : Nat}

/-! ## Splitting -/

theorem isBoundary_zero (t : Text) : t.IsBoundary 0 := by simp [IsBoundary]

theorem IsBoundary.le_size (h : t.IsBoundary p) : p ≤ t.size := by
  obtain ⟨a, b, rfl, rfl⟩ := isBoundary_iff.mp h
  simp

@[simp] theorem rest_append (a b : Text) : rest (a ++ b) a.size = b := by rw [rest, drop?_append]; rfl

@[simp] theorem before_append (a b : Text) : before (a ++ b) a.size = a := by rw [before, take?_append]; rfl

@[simp] theorem rest_zero (t : Text) : t.rest 0 = t := by rw [rest, drop?_zero]; rfl

theorem IsBoundary.append (h : t.IsBoundary p) : t.before p ++ t.rest p = t := by
  obtain ⟨a, b, rfl, rfl⟩ := isBoundary_iff.mp h
  rw [before_append, rest_append]

theorem IsBoundary.size_before (h : t.IsBoundary p) : (t.before p).size = p := by
  obtain ⟨a, b, rfl, rfl⟩ := isBoundary_iff.mp h
  rw [before_append]

theorem IsBoundary.size_rest (h : t.IsBoundary p) : p + (t.rest p).size = t.size := by
  obtain ⟨a, b, rfl, rfl⟩ := isBoundary_iff.mp h
  rw [rest_append, size_append]

/-- A cut gives a front of the text. -/
theorem exists_append_of_take? {u : Text} (h : t.take? p = some u) : ∃ b, t = u ++ b := by
  induction t generalizing p u with
  | nil =>
    cases p with
    | zero => exact ⟨[], by simpa [take?] using h⟩
    | succ n => exact absurd h (by simp [take?])
  | cons c r ih =>
    cases p with
    | zero => exact ⟨c :: r, by simpa [take?] using h⟩
    | succ n =>
      simp only [take?] at h
      split at h
      · obtain ⟨u', hu', rfl⟩ := Option.map_eq_some_iff.mp h
        obtain ⟨b, rfl⟩ := ih hu'
        exact ⟨b, rfl⟩
      · exact absurd h (by simp)

/-- Moving past a front of the rest leads from place to place. -/
theorem IsBoundary.add {x y : Text} (h : t.IsBoundary p) (hr : t.rest p = x ++ y) : t.IsBoundary (p + x.size) := by
  refine isBoundary_iff.mpr ⟨t.before p ++ x, y, ?_, by rw [size_append, h.size_before]⟩
  rw [List.append_assoc, ← hr, h.append]

theorem IsBoundary.rest_add {x y : Text} (h : t.IsBoundary p) (hr : t.rest p = x ++ y) :
    t.rest (p + x.size) = y := by
  have ht : t = (t.before p ++ x) ++ y := by rw [List.append_assoc, ← hr, h.append]
  have hs : p + x.size = (t.before p ++ x).size := by rw [size_append, h.size_before]
  rw [hs]
  nth_rewrite 1 [ht]
  exact rest_append _ _

/-- A place of the rest is a place of the text. -/
theorem IsBoundary.of_rest (h : t.IsBoundary p) (hq : (t.rest p).IsBoundary q) : t.IsBoundary (p + q) := by
  obtain ⟨a, b, hab, rfl⟩ := isBoundary_iff.mp hq
  exact h.add hab

/-! ## Cuts at places -/

theorem isBoundary_size (t : Text) : t.IsBoundary t.size := isBoundary_iff.mpr ⟨t, [], by simp, rfl⟩

/-- Of two splits of a text the longer first part begins with the shorter one. -/
theorem exists_append_of_size_le {a b x y : Text} (h : a ++ b = x ++ y) (hle : a.size ≤ x.size) :
    ∃ m, x = a ++ m ∧ b = m ++ y := by
  rcases List.append_eq_append_iff.mp h with ⟨m, hx, hb⟩ | ⟨m, ha, hy⟩
  · exact ⟨m, hx, hb⟩
  · -- the parts have one size, so nothing lies between them
    have hm : m = [] := by
      cases m with
      | nil => rfl
      | cons c m =>
        have hc := Char.utf8Size_pos c
        rw [ha, size_append, size_cons] at hle
        omega
    subst hm
    exact ⟨[], by simpa using ha.symm, by simpa using hy.symm⟩

/-- A place of the text, seen from one before it. -/
theorem IsBoundary.in_rest (hp : t.IsBoundary p) (hq : t.IsBoundary q) (hle : p ≤ q) :
    (t.rest p).IsBoundary (q - p) := by
  obtain ⟨a, b, rfl, rfl⟩ := isBoundary_iff.mp hp
  obtain ⟨x, y, h, rfl⟩ := isBoundary_iff.mp hq
  obtain ⟨m, rfl, rfl⟩ := exists_append_of_size_le h hle
  rw [rest_append, size_append, Nat.add_sub_cancel_left]
  exact isBoundary_iff.mpr ⟨m, y, rfl, rfl⟩

/-- A place of the text that lies in a first part of it is a place of that part. -/
theorem IsBoundary.in_append {a b : Text} (h : (a ++ b).IsBoundary p) (hle : p ≤ a.size) : a.IsBoundary p := by
  obtain ⟨x, y, hxy, rfl⟩ := isBoundary_iff.mp h
  obtain ⟨m, rfl, -⟩ := exists_append_of_size_le hxy.symm hle
  exact isBoundary_iff.mpr ⟨x, m, rfl, rfl⟩

/-- A place of what comes before another place is a place of the text. -/
theorem IsBoundary.of_before (hq : t.IsBoundary q) (hp : (t.before q).IsBoundary p) : t.IsBoundary p := by
  obtain ⟨a, b, rfl, rfl⟩ := isBoundary_iff.mp hq
  rw [before_append] at hp
  obtain ⟨x, y, rfl, rfl⟩ := isBoundary_iff.mp hp
  exact isBoundary_iff.mpr ⟨x, y ++ b, List.append_assoc x y b, rfl⟩

theorem IsBoundary.drop? (h : t.IsBoundary p) : t.drop? p = some (t.rest p) := by
  obtain ⟨a, b, rfl, rfl⟩ := isBoundary_iff.mp h
  rw [drop?_append, rest_append]

theorem IsBoundary.take? (h : t.IsBoundary p) : t.take? p = some (t.before p) := by
  obtain ⟨a, b, rfl, rfl⟩ := isBoundary_iff.mp h
  rw [take?_append, before_append]

/-- The part between two places in their order can be cut out. -/
theorem IsBoundary.slice? (hp : t.IsBoundary p) (hq : t.IsBoundary q) (hle : p ≤ q) :
    t.slice? p q = some (t.slice p q) := by
  have hsome : t.slice? p q = some ((t.rest p).before (q - p)) := by
    rw [Text.slice?, if_pos hle, hp.drop?, Option.bind_some, (hp.in_rest hq hle).take?]
  rw [slice, hsome, Option.getD_some]

/-- What is cut out of a text lies between what comes before and what comes after it. -/
theorem exists_append_of_slice? {u : Text} (h : t.slice? p q = some u) : ∃ a b, t = a ++ (u ++ b) ∧ a.size = p := by
  unfold slice? at h
  split at h
  · obtain ⟨r, hr, hu⟩ := Option.bind_eq_some_iff.mp h
    obtain ⟨a, rfl, rfl⟩ := exists_append_of_drop? hr
    obtain ⟨b, rfl⟩ := exists_append_of_take? hu
    exact ⟨a, b, rfl, rfl⟩
  · exact absurd h (by simp)

/-- A place of the text, seen from the start of a slice, is a place of the slice or lies past its end. -/
theorem IsBoundary.in_slice (h : t.IsBoundary p) (start stop : Nat) :
    (t.slice start stop).IsBoundary (min (p - start) (t.slice start stop).size) := by
  rcases Nat.le_total (t.slice start stop).size (p - start) with hpast | hin
  · rw [min_eq_right hpast]
    exact isBoundary_size _
  rw [min_eq_left hin]
  rcases Nat.le_total p start with hbefore | hafter
  · rw [Nat.sub_eq_zero_of_le hbefore]
    exact isBoundary_zero _
  cases hu : t.slice? start stop with
  | none =>
    rw [slice, hu] at hin ⊢
    have hzero : p - start = 0 := Nat.le_zero.mp hin
    rw [hzero]
    exact isBoundary_zero _
  | some u =>
    rw [slice, hu] at hin ⊢
    obtain ⟨a, b, rfl, rfl⟩ := exists_append_of_slice? hu
    have hstart : (a ++ (u ++ b)).IsBoundary a.size := isBoundary_iff.mpr ⟨a, u ++ b, rfl, rfl⟩
    have hrest := hstart.in_rest h hafter
    rw [rest_append] at hrest
    exact hrest.in_append hin

/-! ## Places that the matcher computes -/

theorem IsBoundary.skip (h : t.IsBoundary p) (set : Char → Bool) : t.IsBoundary (t.skip set p) :=
  h.add (List.takeWhile_append_dropWhile (p := set)).symm

/-- Skipping twice is skipping once. -/
theorem IsBoundary.skip_skip (h : t.IsBoundary p) (set : Char → Bool) :
    t.skip set (t.skip set p) = t.skip set p := by
  have hrest : t.rest (t.skip set p) = (t.rest p).dropWhile set :=
    h.rest_add (List.takeWhile_append_dropWhile (p := set)).symm
  have hnone : ((t.rest p).dropWhile set).takeWhile set = [] := by
    refine List.takeWhile_eq_nil_iff.mpr ?_
    intro hlt
    exact List.dropWhile_get_zero_not set _ hlt
  rw [Text.skip, hrest, hnone]
  rfl

theorem le_skip (set : Char → Bool) (t : Text) (p : Nat) : p ≤ t.skip set p := Nat.le_add_right _ _

theorem IsBoundary.char (h : t.IsBoundary p) {c : Char} (hc : t.charAt? p = some c) :
    t.IsBoundary (p + c.utf8Size) := by
  obtain ⟨r, hr⟩ : ∃ r, t.rest p = c :: r := by
    unfold charAt? at hc
    cases hr : t.rest p with
    | nil => rw [hr] at hc; exact absurd hc (by simp)
    | cons d r =>
      rw [hr] at hc
      exact ⟨r, by rw [Option.some.inj hc]⟩
  exact h.add (x := [c]) hr

theorem lt_next (t : Text) (p : Nat) : p < t.next p := by
  unfold next
  split
  · next c _ => have := Char.utf8Size_pos c; omega
  · omega

/-- The position after a place is a place, or lies past the end. -/
theorem IsBoundary.next (h : t.IsBoundary p) : t.IsBoundary (t.next p) ∨ t.size < t.next p := by
  unfold Text.next
  cases hc : t.charAt? p with
  | some c => exact Or.inl (h.char hc)
  | none =>
    have hr : t.rest p = [] := by simpa [charAt?] using hc
    have hs := h.size_rest
    rw [hr] at hs
    exact Or.inr (by simp at hs; simp; omega)

theorem isBoundary_of_mem_startsFrom {a b : Text} {q : Nat} (hq : q ∈ startsFrom a.size b) :
    (a ++ b).IsBoundary q := by
  induction b generalizing a with
  | nil => simp [startsFrom] at hq
  | cons c b ih =>
    rcases List.mem_cons.mp hq with rfl | hq
    · exact isBoundary_iff.mpr ⟨a, c :: b, rfl, rfl⟩
    · have h := ih (a := a ++ [c]) (by simpa using hq)
      simpa using h

theorem isBoundary_of_mem_starts (hq : q ∈ t.starts) : t.IsBoundary q :=
  isBoundary_of_mem_startsFrom (a := []) hq

end Text

/-! ## Where outcomes lie -/

/-- Where an outcome lies: the end of a match, or the position of a failure. -/
def Step.place : Step → Nat
  | .matched stop _ => stop
  | .failed d => d.position

@[simp] theorem Step.place_failAt (start : Nat) (rule : Rule) : (Step.failAt start rule).place = start := rfl

@[simp] theorem Step.place_mapResults (f : Results → Results) (step : Step) :
    (step.mapResults f).place = step.place := by
  cases step <;> rfl

/-! ## Terminals -/

theorem matchLiteral?_eq_some {caseless : Bool} {literal rest : Text} {n : Nat}
    (h : matchLiteral? caseless literal rest = some n) : ∃ x y, rest = x ++ y ∧ x.size = n := by
  induction literal generalizing rest n with
  | nil => exact ⟨[], rest, rfl, by simpa [matchLiteral?] using h⟩
  | cons c cs ih =>
    cases rest with
    | nil => simp [matchLiteral?] at h
    | cons d ds =>
      rw [matchLiteral?] at h
      split at h
      · obtain ⟨m, hm, rfl⟩ := Option.map_eq_some_iff.mp h
        obtain ⟨x, y, rfl, rfl⟩ := ih hm
        exact ⟨d :: x, y, rfl, rfl⟩
      · exact absurd h (by simp)

theorem takeRun_prefix (set : Char → Bool) (max : Option Nat) (t : Text) : ∃ y, t = takeRun set max t ++ y := by
  cases max with
  | none => exact ⟨t.dropWhile set, (List.takeWhile_append_dropWhile (p := set)).symm⟩
  | some n =>
    obtain ⟨y, hy⟩ : takeRun set (some n) t <+: t := (List.takeWhile_prefix set).trans (List.take_prefix n t)
    exact ⟨y, hy.symm⟩

theorem wordAt?_prefix {init body : CharSet} {min : Nat} {max : Option Nat} {t token : Text}
    (h : wordAt? init body min max t = some token) : ∃ y, t = token ++ y := by
  cases t with
  | nil => simp [wordAt?] at h
  | cons c r =>
    obtain ⟨y, hy⟩ := takeRun_prefix body.contains (max.map (· - 1)) r
    rw [wordAt?] at h
    split at h
    · exact absurd h (by simp)
    · dsimp only at h
      split at h
      · exact absurd h (by simp)
      · obtain rfl := Option.some.inj h
        exact ⟨y, congrArg (c :: ·) hy⟩

theorem excludedAt?_prefix {excluded : CharSet} {min : Nat} {max : Option Nat} {t token : Text}
    (h : excludedAt? excluded min max t = some token) : ∃ y, t = token ++ y := by
  rw [excludedAt?] at h
  split at h
  · exact absurd h (by simp)
  · obtain rfl := Option.some.inj h
    exact takeRun_prefix _ max t

/-! ## Patterns -/

namespace Pattern

/-- A cursor is at a place of a text, with the rest of the text before it. -/
structure Cursor.At (t : Text) (k : Cursor) : Prop where
  place : t.IsBoundary k.offset
  rest : t.rest k.offset = k.rest

variable {t : Text}

theorem Cursor.At.step {k k' : Cursor} (h : k.At t) {c : CharClass} (hk : k.step? c = some k') : k'.At t := by
  rw [Cursor.step?] at hk
  cases hr : k.rest with
  | nil => rw [hr] at hk; exact absurd hk (by simp)
  | cons d r =>
    rw [hr] at hk
    dsimp only at hk
    split at hk
    · obtain rfl := Option.some.inj hk
      have hsplit : t.rest k.offset = [d] ++ r := h.rest.trans hr
      exact ⟨h.place.add hsplit, h.place.rest_add hsplit⟩
    · exact absurd hk (by simp)

theorem Cursor.At.follow {k : Cursor} (h : k.At t) {instr : Instr} {ways : List (Nat × Cursor)}
    (hways : instr.follow k = some ways) : ∀ x ∈ ways, x.2.At t := by
  cases instr with
  | one c next =>
    obtain rfl := Option.some.inj hways
    intro x hx
    simp only [Option.mem_toList, Option.map_eq_some_iff] at hx
    obtain ⟨k', hk', rfl⟩ := hx
    exact h.step hk'
  | assertion a next =>
    obtain rfl := Option.some.inj hways
    intro x hx
    split at hx
    · obtain rfl := List.mem_singleton.mp hx
      exact h
    · exact absurd hx (by simp)
  | split preferred other =>
    obtain rfl := Option.some.inj hways
    intro x hx
    simp only [List.mem_cons, List.not_mem_nil, or_false] at hx
    rcases hx with rfl | rfl <;> exact h
  | enter i next =>
    obtain rfl := Option.some.inj hways
    intro x hx
    obtain rfl := List.mem_singleton.mp hx
    exact ⟨h.place, h.rest⟩
  | leave i next =>
    obtain rfl := Option.some.inj hways
    intro x hx
    obtain rfl := List.mem_singleton.mp hx
    exact ⟨h.place, h.rest⟩
  | accept => exact absurd hways (by simp [Instr.follow])

theorem explore_at {code : List Instr} {fuel : Nat} {pending : List (Nat × Cursor)}
    {tried : Std.HashSet (Nat × Nat)} {k : Cursor} (h : explore code fuel pending tried = some k)
    (hpending : ∀ x ∈ pending, x.2.At t) : k.At t := by
  induction fuel generalizing pending tried with
  | zero => simp [explore] at h
  | succ fuel ih =>
    cases pending with
    | nil => simp [explore] at h
    | cons x pending =>
      obtain ⟨i, k₀⟩ := x
      have htail : ∀ x ∈ pending, x.2.At t := fun x hx => hpending x (List.mem_cons_of_mem _ hx)
      rw [explore] at h
      split at h
      · exact ih h htail
      · split at h
        · obtain rfl := Option.some.inj h
          exact hpending (i, k₀) List.mem_cons_self
        · next ways hways =>
          refine ih h ?_
          intro x hx
          rcases List.mem_append.mp hx with hx | hx
          · exact (hpending (i, k₀) List.mem_cons_self).follow hways x hx
          · exact htail x hx

theorem findFrom_stop {p : Pattern} {previous : Option Char} {offset : Nat} {rest : Text} {m : Match}
    (h : p.findFrom previous offset rest = some m) (hplace : t.IsBoundary offset) (hrest : t.rest offset = rest) :
    t.IsBoundary m.stop := by
  induction rest generalizing previous offset with
  | nil =>
    rw [findFrom] at h
    split at h
    · next k hk =>
      obtain rfl := Option.some.inj h
      exact (explore_at hk fun x hx => by obtain rfl := List.mem_singleton.mp hx; exact ⟨hplace, hrest⟩).place
    · exact absurd h (by simp)
  | cons c r ih =>
    rw [findFrom] at h
    split at h
    · next k hk =>
      obtain rfl := Option.some.inj h
      exact (explore_at hk fun x hx => by obtain rfl := List.mem_singleton.mp hx; exact ⟨hplace, hrest⟩).place
    · have hsplit : t.rest offset = [c] ++ r := hrest
      exact ih h (hplace.add hsplit) (hplace.rest_add hsplit)

theorem find?_stop {p : Pattern} {m : Match} (h : p.find? t = some m) : t.IsBoundary m.stop :=
  findFrom_stop h t.isBoundary_zero t.rest_zero

end Pattern

/-! ## Terminals end at places -/

variable {t : Text} {start : Nat}

/-- A terminal that matches takes a front of the rest, up to a place of it. -/
theorem matchToken_cases (rule : Rule) (t : Text) (start : Nat) :
    matchToken rule t start = Step.failAt start rule ∨
      ∃ n r, matchToken rule t start = .matched (start + n) r ∧ (t.rest start).IsBoundary n := by
  have hfront {x y : Text} (h : t.rest start = x ++ y) : (t.rest start).IsBoundary x.size :=
    Text.isBoundary_iff.mpr ⟨x, y, h, rfl⟩
  unfold matchToken
  cases rule.kind with
  | literal text caseless =>
    dsimp only
    split
    · next n hn =>
      obtain ⟨x, y, hr, rfl⟩ := matchLiteral?_eq_some hn
      exact Or.inr ⟨_, _, rfl, hfront hr⟩
    · exact Or.inl rfl
  | keyword text caseless identChars =>
    dsimp only
    split
    · next n hn =>
      obtain ⟨x, y, hr, rfl⟩ := matchLiteral?_eq_some hn
      split
      · exact Or.inl rfl
      · exact Or.inr ⟨_, _, rfl, hfront hr⟩
    · exact Or.inl rfl
  | word init body min max =>
    dsimp only
    cases hw : wordAt? init body min max (t.rest start) with
    | none => exact Or.inl rfl
    | some token =>
      obtain ⟨y, hy⟩ := wordAt?_prefix hw
      exact Or.inr ⟨_, _, rfl, hfront hy⟩
  | charsNotIn excluded min max =>
    dsimp only
    cases hw : excludedAt? excluded min max (t.rest start) with
    | none => exact Or.inl rfl
    | some token =>
      obtain ⟨y, hy⟩ := excludedAt?_prefix hw
      exact Or.inr ⟨_, _, rfl, hfront hy⟩
  | pattern source p =>
    dsimp only
    split
    · next m hm => exact Or.inr ⟨_, _, rfl, Pattern.find?_stop hm⟩
    · exact Or.inl rfl
  | _ => exact Or.inl rfl

theorem le_place_matchToken (rule : Rule) (t : Text) (start : Nat) : start ≤ (matchToken rule t start).place := by
  rcases matchToken_cases rule t start with h | ⟨n, r, h, -⟩
  · rw [h, Step.place_failAt]
  · rw [h]
    exact Nat.le_add_right _ _

theorem isBoundary_matchToken (h : t.IsBoundary start) (rule : Rule) :
    t.IsBoundary (matchToken rule t start).place := by
  rcases matchToken_cases rule t start with hr | ⟨n, r, hr, hn⟩
  · rw [hr]
    exact h
  · rw [hr]
    exact h.of_rest hn

/-- A test of a place consumes nothing, but for the end of a line. -/
theorem testPosition_cases (rule : Rule) (t : Text) (start : Nat) :
    (testPosition rule t start).place = start ∨
      (testPosition rule t start).place = start + 1 ∧ t.charAt? start = some '\n' := by
  have hanswer (b : Bool) (r : Results) :
      (if b = true then Step.matched start r else Step.failAt start rule).place = start := by
    cases b <;> rfl
  unfold testPosition
  cases rule.kind with
  | lineEnd =>
    dsimp only
    split
    · next hc => exact Or.inr ⟨rfl, eq_of_beq hc⟩
    · exact Or.inl (hanswer _ _)
  | stringEnd | lineStart | wordStart | wordEnd => exact Or.inl (hanswer _ _)
  | _ => exact Or.inl rfl

theorem le_place_testPosition (rule : Rule) (t : Text) (start : Nat) :
    start ≤ (testPosition rule t start).place := by
  rcases testPosition_cases rule t start with h | ⟨h, -⟩
  · rw [h]
  · rw [h]
    exact Nat.le_add_right _ _

theorem isBoundary_testPosition (h : t.IsBoundary start) (rule : Rule) :
    t.IsBoundary (testPosition rule t start).place := by
  rcases testPosition_cases rule t start with hr | ⟨hr, hc⟩
  · rw [hr]
    exact h
  · rw [hr]
    exact h.char hc

/-! ## Sites -/

/-- The positions of a text that attempts are made at, closed under what the matcher computes from them. -/
structure Sites where
  At : Text → Nat → Prop
  zero : ∀ t, At t 0
  skip : ∀ {t p}, At t p → ∀ set, At t (t.skip set p)
  next : ∀ {t p}, At t p → At t (t.next p) ∨ t.size < t.next p
  token : ∀ {t p}, At t p → ∀ rule, At t (matchToken rule t p).place
  test : ∀ {t p}, At t p → ∀ rule, At t (testPosition rule t p).place
  starts : ∀ {t p q}, At t p → q ∈ (t.before p).starts → At (t.before p) q

namespace Sites

/-- The places of a text. -/
def places : Sites where
  At := Text.IsBoundary
  zero := Text.isBoundary_zero
  skip h set := h.skip set
  next h := h.next
  token h rule := isBoundary_matchToken h rule
  test h rule := isBoundary_testPosition h rule
  starts _ hq := Text.isBoundary_of_mem_starts hq

/-- All positions. -/
def all : Sites where
  At _ _ := True
  zero _ := trivial
  skip _ _ := trivial
  next _ := Or.inl trivial
  token _ _ := trivial
  test _ _ := trivial
  starts _ _ := trivial

variable (S : Sites)

/-- A site at or after a position. -/
structure From (t : Text) (p q : Nat) : Prop where
  site : S.At t q
  le : p ≤ q

/-- An outcome lies at a site at or after a position. -/
def Holds (t : Text) (p : Nat) (step : Step) : Prop := S.From t p step.place

variable {S} {p p' q : Nat} {step : Step}

theorem From.self (h : S.At t p) : S.From t p p := ⟨h, le_refl p⟩

theorem From.mono (h : S.From t p' q) (hp : p ≤ p') : S.From t p q := ⟨h.site, hp.trans h.le⟩

theorem Holds.mono (h : S.Holds t p' step) (hp : p ≤ p') : S.Holds t p step := From.mono h hp

theorem Holds.mapResults (h : S.Holds t p step) (f : Results → Results) : S.Holds t p (step.mapResults f) := by
  unfold Holds
  rw [Step.place_mapResults]
  exact h

theorem Holds.failAt (h : S.At t p) (rule : Rule) : S.Holds t p (Step.failAt p rule) := From.self h

end Sites
end Packrat
