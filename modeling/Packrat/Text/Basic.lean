/-!
# `Packrat.Text` — text addressed by byte offset

A text is its list of characters; a *position* in it is the number of bytes that the characters before it
take in UTF-8. Positions inside a character exist as numbers but name no place: the cuts below answer `none`
there, and `IsBoundary` says which positions are places.

## Contents

* `size`, `drop?`, `take?`, `slice?` — length in bytes, and the cuts at a position;
* `rest`, `charAt?`, `charBefore?`, `next`, `skip` — what a matcher asks about a position;
* `starts` — the positions at which the characters of a text start.
-/

namespace Packrat

/-- A text, as the list of its characters. -/
abbrev Text := List Char

namespace Text

/-! ## Length and cuts -/

/-- The number of bytes a text takes in UTF-8. -/
def size : Text → Nat
  | [] => 0
  | c :: r => c.utf8Size + size r

/-- The text from byte `n` on; `none` when byte `n` lies inside a character or past the end. -/
def drop? : Text → Nat → Option Text
  | cs, 0 => some cs
  | [], _ + 1 => none
  | c :: r, n + 1 => if c.utf8Size ≤ n + 1 then drop? r (n + 1 - c.utf8Size) else none

/-- The first `n` bytes of a text; `none` when byte `n` lies inside a character or past the end. -/
def take? : Text → Nat → Option Text
  | _, 0 => some []
  | [], _ + 1 => none
  | c :: r, n + 1 => if c.utf8Size ≤ n + 1 then (take? r (n + 1 - c.utf8Size)).map (c :: ·) else none

/-- The bytes from `start` up to `stop`; `none` unless both are places in this order. -/
def slice? (t : Text) (start stop : Nat) : Option Text :=
  if start ≤ stop then (t.drop? start).bind (take? · (stop - start)) else none

/-- A position at which the text can be cut. -/
def IsBoundary (t : Text) (p : Nat) : Prop := (t.drop? p).isSome = true

instance (t : Text) (p : Nat) : Decidable (t.IsBoundary p) :=
  inferInstanceAs (Decidable ((t.drop? p).isSome = true))

/-! ## What a matcher asks about a position -/

/-- The text from a position on; nothing at a position that is no place. -/
def rest (t : Text) (p : Nat) : Text := (t.drop? p).getD []

/-- The text before a position; nothing at a position that is no place. -/
def before (t : Text) (p : Nat) : Text := (t.take? p).getD []

/-- The slice between two positions; nothing when it cannot be cut. -/
def slice (t : Text) (start stop : Nat) : Text := (t.slice? start stop).getD []

/-- The character that starts at a position. -/
def charAt? (t : Text) (p : Nat) : Option Char := (t.rest p).head?

/-- The character that ends at a position. -/
def charBefore? (t : Text) (p : Nat) : Option Char := (t.before p).getLast?

/-- The position just past the character at `p`, and `p + 1` at the end of the text. -/
def next (t : Text) (p : Nat) : Nat :=
  match t.charAt? p with
  | some c => p + c.utf8Size
  | none => p + 1

/-- The first position at or after `p` whose character is not in `set`. -/
def skip (set : Char → Bool) (t : Text) (p : Nat) : Nat :=
  p + size ((t.rest p).takeWhile set)

/-- The positions at which the characters of a text start, in order, counted from `base`. -/
def startsFrom (base : Nat) : Text → List Nat
  | [] => []
  | c :: r => base :: startsFrom (base + c.utf8Size) r

/-- The positions at which the characters of a text start, in order. -/
def starts (t : Text) : List Nat := startsFrom 0 t

/-! ## Laws of the cuts -/

@[simp] theorem size_nil : size [] = 0 := rfl

@[simp] theorem size_cons (c : Char) (r : Text) : size (c :: r) = c.utf8Size + size r := rfl

@[simp] theorem size_append (a b : Text) : size (a ++ b) = size a + size b := by
  induction a with
  | nil => simp
  | cons c r ih => simp [ih, Nat.add_assoc]

@[simp] theorem drop?_zero (t : Text) : t.drop? 0 = some t := by cases t <;> rfl

@[simp] theorem take?_zero (t : Text) : t.take? 0 = some [] := by cases t <;> rfl

theorem drop?_cons_add (c : Char) (t : Text) (p : Nat) : drop? (c :: t) (c.utf8Size + p) = t.drop? p := by
  obtain ⟨n, hn⟩ : ∃ n, c.utf8Size + p = n + 1 := Nat.exists_eq_add_one.mpr (Nat.add_pos_left (Char.utf8Size_pos c) p)
  rw [hn, drop?, if_pos (hn ▸ Nat.le_add_right _ _), ← hn, Nat.add_sub_cancel_left]

theorem take?_cons_add (c : Char) (t : Text) (p : Nat) :
    take? (c :: t) (c.utf8Size + p) = (t.take? p).map (c :: ·) := by
  obtain ⟨n, hn⟩ : ∃ n, c.utf8Size + p = n + 1 := Nat.exists_eq_add_one.mpr (Nat.add_pos_left (Char.utf8Size_pos c) p)
  rw [hn, take?, if_pos (hn ▸ Nat.le_add_right _ _), ← hn, Nat.add_sub_cancel_left]

/-- A cut past the end of a first part is a cut of the second. -/
theorem drop?_append_add (a b : Text) (p : Nat) : (a ++ b).drop? (a.size + p) = b.drop? p := by
  induction a with
  | nil => rw [List.nil_append, size_nil, Nat.zero_add]
  | cons c r ih => rw [List.cons_append, size_cons, Nat.add_assoc, drop?_cons_add, ih]

/-- A cut at the end of a first part gives back the second. -/
theorem drop?_append (a b : Text) : (a ++ b).drop? a.size = some b :=
  (drop?_append_add a b 0).trans (drop?_zero b)

/-- A cut at the end of a first part gives that part. -/
theorem take?_append (a b : Text) : (a ++ b).take? a.size = some a := by
  induction a with
  | nil => exact take?_zero b
  | cons c r ih => rw [List.cons_append, size_cons, take?_cons_add, ih, Option.map_some]

/-- Every cut splits the text in two parts, of which the first has the length asked for. -/
theorem exists_append_of_drop? {t r : Text} {p : Nat} (h : t.drop? p = some r) :
    ∃ a, t = a ++ r ∧ size a = p := by
  induction t generalizing p with
  | nil =>
    cases p with
    | zero => exact ⟨[], by simpa [drop?] using h, rfl⟩
    | succ n => simp [drop?] at h
  | cons c s ih =>
    cases p with
    | zero => exact ⟨[], by simpa [drop?] using h, rfl⟩
    | succ n =>
      simp only [drop?] at h
      split at h
      · obtain ⟨a, ha, hs⟩ := ih h
        exact ⟨c :: a, by simp [ha], by simp [hs]; omega⟩
      · simp at h

/-- A position is a place exactly when the text splits there. -/
theorem isBoundary_iff {t : Text} {p : Nat} : t.IsBoundary p ↔ ∃ a b, t = a ++ b ∧ size a = p := by
  constructor
  · intro h
    obtain ⟨r, hr⟩ := Option.isSome_iff_exists.1 h
    obtain ⟨a, ha, hs⟩ := exists_append_of_drop? hr
    exact ⟨a, r, ha, hs⟩
  · rintro ⟨a, b, rfl, rfl⟩
    simp [IsBoundary, drop?_append]

end Text
end Packrat
