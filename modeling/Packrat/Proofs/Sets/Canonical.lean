import Packrat.Proofs.Sets.Membership

/-!
# `Packrat.Proofs.Sets.Canonical` — when two sets are the same value

Sets are compared by their ranges. Ranges that go upwards and are apart are determined by the code points they cover: the
first of them begins at the least code point and ends where the code points are interrupted, and so do the others behind
it.

But a set of characters may have two such forms. Between the characters U+D7FF and U+E000, which follow each other, lie
the code points of the surrogates, which are no characters. A range with characters on both sides covers them all, while
ranges that end and begin next to them stay apart.

## Contents

* `CharRange.InGap`, `CharRange.Bridges` — the surrogates, and ranges across them;
* `CharSet.eq_of_covers` — sets in normal form are equal if they have the same code points;
* `CharSet.ofPairs_eq_iff` — **when two sets are equal**: they have the same characters, and both or none of them were
  given a range across the surrogates;
* `CharSet.not_ofPairs_eq_iff_gap` — two sets with the same two characters that are not equal.
-/

namespace Packrat

/-! ## The gap of the surrogates -/

theorem isValidChar_toNat (c : Char) : c.toNat.isValidChar := c.valid

namespace CharRange

theorem char_le_iff {a b : Char} : a ≤ b ↔ a.toNat ≤ b.toNat := Iff.rfl

theorem toNat_beforeGap : '\ud7ff'.toNat = 0xD7FF := rfl

theorem toNat_afterGap : '\ue000'.toNat = 0xE000 := rfl

/-- The code points of the surrogates, which are no characters. -/
def InGap (n : Nat) : Prop := 0xD7FF < n ∧ n < 0xE000

/-- Two characters, in either order, with the surrogates between them. -/
def Bridges (a b : Char) : Prop := (a ≤ '\ud7ff' ∧ '\ue000' ≤ b) ∨ (b ≤ '\ud7ff' ∧ '\ue000' ≤ a)

instance (a b : Char) : Decidable (Bridges a b) :=
  inferInstanceAs (Decidable ((a ≤ '\ud7ff' ∧ '\ue000' ≤ b) ∨ (b ≤ '\ud7ff' ∧ '\ue000' ≤ a)))

/-- A range covers the surrogates, all of them, if it has characters on both sides. -/
theorem covers_gap_iff {r : CharRange} {n : Nat} (hn : InGap n) :
    r.Covers n ↔ r.first ≤ '\ud7ff' ∧ '\ue000' ≤ r.last := by
  have hfirst : r.first.toNat.isValidChar := isValidChar_toNat r.first
  have hlast : r.last.toNat.isValidChar := isValidChar_toNat r.last
  rw [char_le_iff, char_le_iff, toNat_beforeGap, toNat_afterGap, Covers]
  unfold InGap at hn
  unfold Nat.isValidChar at hfirst hlast
  omega

theorem covers_between_gap_iff {a b : Char} {n : Nat} (hn : InGap n) : (between a b).Covers n ↔ Bridges a b := by
  rw [covers_gap_iff hn, Bridges, between]
  by_cases hab : a ≤ b
  · rw [if_pos hab]
    simp only [char_le_iff, toNat_beforeGap, toNat_afterGap] at hab ⊢
    omega
  · rw [if_neg hab]
    simp only [char_le_iff, toNat_beforeGap, toNat_afterGap] at hab ⊢
    omega

end CharRange

/-! ## Code points determine the ranges -/

namespace CharSet

/-- The code points in the ranges of a set. -/
def Covers (s : CharSet) (n : Nat) : Prop := ∃ r ∈ s.ranges, r.Covers n

theorem covers_cons {r : CharRange} {rs : List CharRange} {n : Nat} :
    Covers ⟨r :: rs⟩ n ↔ r.Covers n ∨ Covers ⟨rs⟩ n := List.exists_mem_cons_iff ..

namespace Normal

variable {r r' : CharRange} {rs rs' : List CharRange} (h : Normal ⟨r :: rs⟩) (h' : Normal ⟨r' :: rs'⟩)
include h

theorem tail : Normal ⟨rs⟩ := ⟨fun x hx => h.ordered x (.tail _ hx), h.apart.of_cons⟩

theorem covers_first : Covers ⟨r :: rs⟩ r.first.toNat :=
  covers_cons.mpr (.inl ⟨Nat.le_refl _, h.ordered r List.mem_cons_self⟩)

/-- Behind the first range at least one code point is missing. -/
theorem past_of_covers_tail {n : Nat} (hn : Covers ⟨rs⟩ n) : r.last.toNat + 1 < n := by
  obtain ⟨later, hlater, hn⟩ := hn
  have hbefore : r.last.toNat + 1 < later.first.toNat := List.rel_of_pairwise_cons h.apart hlater
  exact Nat.lt_of_lt_of_le hbefore hn.1

theorem first_le {n : Nat} (hn : Covers ⟨r :: rs⟩ n) : r.first.toNat ≤ n := by
  rcases covers_cons.mp hn with hn | hn
  · exact hn.1
  · have hpast := h.past_of_covers_tail hn
    have hordered : r.first.toNat ≤ r.last.toNat := h.ordered r List.mem_cons_self
    omega

theorem not_covers_past : ¬ Covers ⟨r :: rs⟩ (r.last.toNat + 1) := by
  intro hn
  rcases covers_cons.mp hn with hn | hn
  · exact absurd hn.2 (by omega)
  · exact absurd (h.past_of_covers_tail hn) (by omega)

theorem covers_tail_iff {n : Nat} : Covers ⟨rs⟩ n ↔ Covers ⟨r :: rs⟩ n ∧ r.last.toNat < n := by
  constructor
  · intro hn
    have hpast := h.past_of_covers_tail hn
    exact ⟨covers_cons.mpr (.inr hn), by omega⟩
  · rintro ⟨hn, hlt⟩
    exact (covers_cons.mp hn).resolve_left fun hr => absurd hr.2 (by omega)

variable (hsame : ∀ n, Covers ⟨r :: rs⟩ n ↔ Covers ⟨r' :: rs'⟩ n)
include h' hsame

theorem first_eq : r.first.toNat = r'.first.toNat :=
  Nat.le_antisymm (h.first_le ((hsame _).mpr h'.covers_first)) (h'.first_le ((hsame _).mp h.covers_first))

/-- A longer first range would cover the code point that is missing behind the other one. -/
theorem last_le : r'.last.toNat ≤ r.last.toNat := by
  by_contra hlt
  have hordered : r.first.toNat ≤ r.last.toNat := h.ordered r List.mem_cons_self
  have hfirst := h.first_eq h' hsame
  have hpast : r'.Covers (r.last.toNat + 1) := ⟨by omega, by omega⟩
  exact h.not_covers_past ((hsame _).mpr (covers_cons.mpr (.inl hpast)))

theorem head_eq : r = r' := by
  have hfirst : r.first = r'.first := Char.toNat_inj.mp (h.first_eq h' hsame)
  have hlast : r.last = r'.last :=
    Char.toNat_inj.mp (Nat.le_antisymm (h'.last_le h fun n => (hsame n).symm) (h.last_le h' hsame))
  cases r
  cases r'
  exact congrArg₂ CharRange.mk hfirst hlast

end Normal

/-- Sets in normal form are equal if they have the same code points. -/
theorem eq_of_covers {s s' : CharSet} (h : s.Normal) (h' : s'.Normal) (hsame : ∀ n, s.Covers n ↔ s'.Covers n) :
    s = s' := by
  obtain ⟨ranges⟩ := s
  obtain ⟨ranges'⟩ := s'
  induction ranges generalizing ranges' with
  | nil =>
    cases ranges' with
    | nil => rfl
    | cons r' rs' => exact absurd ((hsame _).mpr h'.covers_first) (by simp [Covers])
  | cons r rs ih =>
    cases ranges' with
    | nil => exact absurd ((hsame _).mp h.covers_first) (by simp [Covers])
    | cons r' rs' =>
      obtain rfl := h.head_eq h' hsame
      have hrest : ∀ n, Covers ⟨rs⟩ n ↔ Covers ⟨rs'⟩ n := fun n => by
        rw [h.covers_tail_iff, h'.covers_tail_iff, hsame]
      have hranges : rs = rs' := congrArg ranges (ih h.tail rs' h'.tail hrest)
      rw [hranges]

/-! ## Sets of ranges -/

/-- A character is in a set in normal form if its code point is covered. -/
theorem contains_iff_covers {s : CharSet} (h : s.Normal) {c : Char} : s.contains c = true ↔ s.Covers c.toNat := by
  rw [contains_iff h, Covers]
  simp only [CharRange.contains_iff]
  rfl

theorem covers_ofPairs_gap_iff (pairs : List (Char × Char)) {n : Nat} (hn : CharRange.InGap n) :
    (ofPairs pairs).Covers n ↔ ∃ p ∈ pairs, CharRange.Bridges p.1 p.2 := by
  rw [Covers, ofPairs, covers_ofRanges (ordered_ofPairs pairs)]
  simp only [List.mem_map, exists_exists_and_eq_and, CharRange.covers_between_gap_iff hn]

/-- A set covers no code point past the last character. -/
theorem lt_of_covers {s : CharSet} {n : Nat} (hn : s.Covers n) : n < 0x110000 := by
  obtain ⟨r, -, hn⟩ := hn
  have hlast : r.last.toNat.isValidChar := isValidChar_toNat r.last
  unfold Nat.isValidChar at hlast
  have hle := hn.2
  omega

/-- **When two sets are equal.** The sets of two lists of ranges, given in any order and each in either direction, are
equal exactly if they have the same characters, and a range with characters on both sides of the surrogates is given for
both of them or for none. -/
theorem ofPairs_eq_iff (pairs pairs' : List (Char × Char)) : ofPairs pairs = ofPairs pairs' ↔
    (∀ c, (ofPairs pairs).contains c = (ofPairs pairs').contains c) ∧
      ((∃ p ∈ pairs, CharRange.Bridges p.1 p.2) ↔ ∃ p ∈ pairs', CharRange.Bridges p.1 p.2) := by
  constructor
  · intro h
    have hgap : CharRange.InGap 0xD800 := ⟨by decide, by decide⟩
    rw [← covers_ofPairs_gap_iff pairs hgap, ← covers_ofPairs_gap_iff pairs' hgap, h]
    exact ⟨fun c => rfl, Iff.rfl⟩
  · rintro ⟨hcontains, hbridges⟩
    have hnormal := normal_ofPairs pairs
    have hnormal' := normal_ofPairs pairs'
    refine eq_of_covers hnormal hnormal' fun n => ?_
    -- a code point is a character, a surrogate, or past all characters
    by_cases hchar : n.isValidChar
    · obtain ⟨c, -, rfl⟩ := charOfCode?_eq hchar
      rw [← contains_iff_covers hnormal, ← contains_iff_covers hnormal', hcontains]
    · by_cases hgap : CharRange.InGap n
      · rw [covers_ofPairs_gap_iff pairs hgap, covers_ofPairs_gap_iff pairs' hgap, hbridges]
      · have hpast : ¬ n < 0x110000 := by
          unfold Nat.isValidChar at hchar
          unfold CharRange.InGap at hgap
          omega
        exact iff_of_false (mt lt_of_covers hpast) (mt lt_of_covers hpast)

/-- The characters U+D7FF and U+E000 follow each other. As one range and as two they are the same characters, and not the
same set. -/
theorem not_ofPairs_eq_iff_gap : ¬ (ofPairs [('\ud7ff', '\ue000')] = ofPairs [('\ud7ff', '\ud7ff'), ('\ue000', '\ue000')] ↔
    ∀ c, (ofPairs [('\ud7ff', '\ue000')]).contains c
      = (ofPairs [('\ud7ff', '\ud7ff'), ('\ue000', '\ue000')]).contains c) := by
  have hne : ofPairs [('\ud7ff', '\ue000')] ≠ ofPairs [('\ud7ff', '\ud7ff'), ('\ue000', '\ue000')] := by
    intro heq
    have hgap : CharRange.InGap 0xD800 := ⟨by decide, by decide⟩
    have hiff := covers_ofPairs_gap_iff [('\ud7ff', '\ue000')] hgap
    rw [heq, covers_ofPairs_gap_iff _ hgap] at hiff
    exact absurd hiff (by decide)
  refine fun hiff => hne (hiff.mpr fun c => ?_)
  rw [Bool.eq_iff_iff, contains_ofPairs, contains_ofPairs]
  have hvalid : c.toNat.isValidChar := isValidChar_toNat c
  unfold Nat.isValidChar at hvalid
  simp only [List.exists_mem_cons_iff, List.not_mem_nil, false_and, exists_false, or_false, CharRange.char_le_iff,
    CharRange.toNat_beforeGap, CharRange.toNat_afterGap]
  omega

/-- Ranges that meet anywhere else become one. -/
example : ofPairs [('b', 'c'), ('m', 'd'), ('a', 'a')] = ofPairs [('a', 'm')] := by
  cbv

end CharSet
end Packrat
