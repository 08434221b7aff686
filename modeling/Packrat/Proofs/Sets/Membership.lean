import Mathlib.Tactic
import Packrat.Grammar.Builder

/-!
# `Packrat.Proofs.Sets.Membership` — the characters of a set

A set is looked up by halving its list of ranges, which can only be right if the ranges are sorted and apart from each
other. Making a set sorts the ranges it is given and joins those that touch, and that is what puts them in this form
without a character lost or gained. Here it is shown of every way to make a set, each time together with the characters
that the set has; that halving finds them is shown once, of sets in this form.

All comparisons are made between code points, where the gap of the surrogates plays no role: ranges that touch across it
stay apart, and no code point in the gap is a character.

## Contents

* `CharSet.Normal` — sorted ranges with at least one code point between any two;
* `contains_iff` — halving such ranges finds the range of a character if there is one;
* `normal_ofRanges`, `covers_ofRanges`, `contains_ofRanges` — joining the sorted ranges, on the way to
* `CharSet.contains_exactly` — **the characters of a set** given by ranges, of a union, and of what is skipped before the
  end of a line.
-/

namespace Packrat

/-! ## Ranges -/

namespace CharRange

/-- A range that goes upwards. -/
def Ordered (r : CharRange) : Prop := r.first.toNat ≤ r.last.toNat

/-- A range that ends at least two code points before another one begins. -/
def Before (r r' : CharRange) : Prop := r.last.toNat + 1 < r'.first.toNat

/-- The code points of a range, whether or not they are characters. -/
def Covers (r : CharRange) (n : Nat) : Prop := r.first.toNat ≤ n ∧ n ≤ r.last.toNat

theorem lt_iff {a b : Char} : a < b ↔ a.toNat < b.toNat := Iff.rfl

theorem contains_iff {r : CharRange} {c : Char} :
    r.contains c = true ↔ r.first.toNat ≤ c.toNat ∧ c.toNat ≤ r.last.toNat := by
  simp only [contains, Bool.and_eq_true, decide_eq_true_eq]
  exact Iff.rfl

theorem touches_iff {r r' : CharRange} : r.touches r' = true ↔ r'.first.toNat ≤ r.last.toNat + 1 :=
  decide_eq_true_iff

theorem le_iff {r r' : CharRange} : r.le r' = true ↔
    r.first.toNat < r'.first.toNat ∨ (r.first.toNat = r'.first.toNat ∧ r.last.toNat ≤ r'.last.toNat) := by
  simp only [le, Bool.or_eq_true, Bool.and_eq_true, decide_eq_true_eq, beq_iff_eq, Char.toNat_inj]
  exact Iff.rfl

theorem le_trans (a b c : CharRange) (hab : a.le b = true) (hbc : b.le c = true) : a.le c = true := by
  rw [le_iff] at *
  omega

theorem le_total (a b : CharRange) : (a.le b || b.le a) = true := by
  rw [Bool.or_eq_true, le_iff, le_iff]
  omega

@[simp] theorem first_join (r r' : CharRange) : (r.join r').first = r.first := rfl

theorem last_join (r r' : CharRange) : (r.join r').last.toNat = max r.last.toNat r'.last.toNat := by
  unfold join
  by_cases h : r.last < r'.last
  · rw [if_pos h, Nat.max_eq_right (Nat.le_of_lt (lt_iff.mp h))]
  · rw [if_neg h, Nat.max_eq_left (Nat.not_lt.mp (lt_iff.not.mp h))]

theorem ordered_between (a b : Char) : (between a b).Ordered := by
  unfold between
  by_cases h : a ≤ b
  · rw [if_pos h]
    exact h
  · rw [if_neg h]
    exact Nat.le_of_not_le h

theorem contains_between {a b c : Char} : (between a b).contains c = true ↔ (a ≤ c ∧ c ≤ b) ∨ (b ≤ c ∧ c ≤ a) := by
  have hle {x y : Char} : x ≤ y ↔ x.toNat ≤ y.toNat := Iff.rfl
  rw [contains_iff, hle, hle, hle, hle]
  unfold between
  by_cases h : a ≤ b
  · rw [if_pos h]
    rw [hle] at h
    simp only
    omega
  · rw [if_neg h]
    rw [hle] at h
    simp only
    omega

/-- A range joined with one that begins in it or just past it has the code points of both. -/
theorem covers_join {r r' : CharRange} {n : Nat} (hfirst : r.first.toNat ≤ r'.first.toNat)
    (htouches : r.touches r' = true) : (r.join r').Covers n ↔ r.Covers n ∨ r'.Covers n := by
  rw [touches_iff] at htouches
  rw [Covers, Covers, Covers, first_join, last_join]
  omega

end CharRange

/-! ## Halving -/

namespace CharSet

/-- A set in the one form it is kept in: its ranges go upwards and are sorted, with at least one code point between any
two of them. -/
structure Normal (s : CharSet) : Prop where
  ordered : ∀ r ∈ s.ranges, r.Ordered
  apart : s.ranges.Pairwise CharRange.Before

/-- Halving ends at one of the ranges. -/
theorem mem_of_nearest? {c : Char} {ranges : List CharRange} {r : CharRange} (h : nearest? c ranges = some r) :
    r ∈ ranges := by
  fun_induction nearest? c ranges with
  | case1 ranges half hhalf => exact List.mem_of_head? h
  | case2 ranges half hhalf hpast ih => exact List.mem_of_mem_take (ih h)
  | case3 ranges half hhalf hreached ih => exact List.mem_of_mem_drop (ih h)

section Half

variable {ranges : List CharRange} (hapart : ranges.Pairwise CharRange.Before) {half : Nat} {middle r : CharRange}
  (hmiddle : (ranges.drop half).head? = some middle) (hr : r ∈ ranges) {c : Char} (hc : r.contains c = true)
include hapart hmiddle hr hc

/-- The range of a character is in front of one that begins past it: from there on all ranges do. -/
theorem mem_take_of_lt (hordered : ∀ r ∈ ranges, r.Ordered) (hlt : c.toNat < middle.first.toNat) :
    r ∈ ranges.take half := by
  rw [CharRange.contains_iff] at hc
  rw [← List.take_append_drop half ranges, List.mem_append] at hr
  refine hr.resolve_right ?_
  intro hr
  obtain ⟨later, hlater⟩ := List.head?_eq_some_iff.mp hmiddle
  have hpairs := List.Pairwise.drop hapart (i := half)
  rw [hlater] at hr hpairs
  have hfirst : middle.first.toNat ≤ r.first.toNat := by
    rcases List.mem_cons.mp hr with rfl | hr
    · exact Nat.le_refl _
    · have hbefore : middle.last.toNat + 1 < r.first.toNat := List.rel_of_pairwise_cons hpairs hr
      have hmiddle' : middle.first.toNat ≤ middle.last.toNat :=
        hordered middle (List.mem_of_mem_drop (List.mem_of_head? hmiddle))
      omega
  omega

/-- The range of a character is not in front of one that does not begin past it: all ranges there end too early. -/
theorem mem_drop_of_le (hle : middle.first.toNat ≤ c.toNat) : r ∈ ranges.drop half := by
  rw [CharRange.contains_iff] at hc
  rw [← List.take_append_drop half ranges, List.mem_append] at hr
  rw [← List.take_append_drop half ranges, List.pairwise_append] at hapart
  refine hr.resolve_left ?_
  intro hr
  have hbefore : r.last.toNat + 1 < middle.first.toNat := hapart.2.2 r hr middle (List.mem_of_head? hmiddle)
  omega

end Half

/-- Of ranges that are apart, halving ends at the one with the character: it is in the half that is kept. -/
theorem nearest?_of_mem {c : Char} {ranges : List CharRange} (hordered : ∀ r ∈ ranges, r.Ordered)
    (hapart : ranges.Pairwise CharRange.Before) {r : CharRange} (hr : r ∈ ranges) (hc : r.contains c = true) :
    nearest? c ranges = some r := by
  fun_induction nearest? c ranges with
  | case1 ranges half hhalf =>
    have hlen : ranges.length ≤ 1 := by omega
    match ranges, hlen with
    | [r'], _ => rw [List.head?_cons, List.mem_singleton.mp hr]
  | case2 ranges half hhalf hpast ih =>
    refine ih (fun r' h => hordered r' (List.mem_of_mem_take h)) hapart.take ?_
    obtain ⟨middle, hmiddle, hlt⟩ := (Option.any_eq_true _ _).mp hpast
    have hfront := mem_take_of_lt hapart hmiddle hr hc hordered (of_decide_eq_true hlt)
    exact List.take_subset_take_left ranges (by omega) hfront
  | case3 ranges half hhalf hreached ih =>
    refine ih (fun r' h => hordered r' (List.mem_of_mem_drop h)) hapart.drop ?_
    have hlen : half < ranges.length := by omega
    have hmiddle : (ranges.drop half).head? = some ranges[half] := by
      rw [List.head?_drop, List.getElem?_eq_getElem hlen]
    rw [hmiddle] at hreached
    exact mem_drop_of_le hapart hmiddle hr hc (Nat.le_of_not_lt fun h => hreached (decide_eq_true h))

/-- A set in normal form has the characters of its ranges. -/
theorem contains_iff {s : CharSet} (hs : s.Normal) {c : Char} :
    s.contains c = true ↔ ∃ r ∈ s.ranges, r.contains c = true := by
  rw [contains, Option.any_eq_true]
  constructor
  · rintro ⟨r, hr, hc⟩
    exact ⟨r, mem_of_nearest? hr, hc⟩
  · rintro ⟨r, hr, hc⟩
    exact ⟨r, nearest?_of_mem hs.ordered hs.apart hr hc, hc⟩

/-! ## Joining -/

/-- What joining makes of sorted ranges: they go upwards, begin with the first of them, are apart, and have the same
code points. -/
structure Joined (current : CharRange) (given joined : List CharRange) : Prop where
  ordered : ∀ r ∈ joined, r.Ordered
  starts : ∀ r ∈ joined, current.first.toNat ≤ r.first.toNat
  apart : joined.Pairwise CharRange.Before
  same : ∀ n, (∃ r ∈ joined, r.Covers n) ↔ ∃ r ∈ current :: given, r.Covers n

theorem joined_merge {current : CharRange} {given : List CharRange} (hordered : ∀ r ∈ current :: given, r.Ordered)
    (hsorted : (current :: given).Pairwise fun r r' => r.first.toNat ≤ r'.first.toNat) :
    Joined current given (merge.go current given) := by
  induction given generalizing current with
  | nil =>
    exact ⟨hordered, fun r hr => by rw [List.mem_singleton.mp hr], List.pairwise_singleton _ _, fun n => Iff.rfl⟩
  | cons next given ih =>
    obtain ⟨hcurrent, hsorted'⟩ := List.pairwise_cons.mp hsorted
    have hnext := hcurrent next List.mem_cons_self
    have hgiven : ∀ r ∈ given, r.Ordered := fun r hr => hordered r (.tail _ (.tail _ hr))
    have hcurrent' : current.Ordered := hordered current List.mem_cons_self
    have hnext' : next.Ordered := hordered next (.tail _ List.mem_cons_self)
    rw [merge.go]
    by_cases htouches : current.touches next = true
    · rw [if_pos htouches]
      have hjoin : (current.join next).Ordered := by
        have hle : current.first.toNat ≤ current.last.toNat := hcurrent'
        rw [CharRange.Ordered, CharRange.first_join, CharRange.last_join]
        omega
      have hjoined : Joined (current.join next) given (merge.go (current.join next) given) :=
        ih (List.forall_mem_cons.mpr ⟨hjoin, hgiven⟩)
          (List.pairwise_cons.mpr ⟨fun r hr => hcurrent r (.tail _ hr), (List.pairwise_cons.mp hsorted').2⟩)
      refine ⟨hjoined.ordered, hjoined.starts, hjoined.apart, fun n => ?_⟩
      rw [hjoined.same, List.exists_mem_cons_iff, List.exists_mem_cons_iff, List.exists_mem_cons_iff,
        CharRange.covers_join hnext htouches, or_assoc]
    · rw [if_neg htouches]
      have hjoined : Joined next given (merge.go next given) := ih (List.forall_mem_cons.mpr ⟨hnext', hgiven⟩) hsorted'
      have hgap : current.last.toNat + 1 < next.first.toNat := by
        rw [CharRange.touches_iff] at htouches
        omega
      refine ⟨List.forall_mem_cons.mpr ⟨hcurrent', hjoined.ordered⟩, ?_, ?_, fun n => ?_⟩
      · intro r hr
        rcases List.mem_cons.mp hr with rfl | hr
        · exact Nat.le_refl _
        · exact Nat.le_trans hnext (hjoined.starts r hr)
      · exact List.pairwise_cons.mpr ⟨fun r hr => Nat.lt_of_lt_of_le hgap (hjoined.starts r hr), hjoined.apart⟩
      · rw [List.exists_mem_cons_iff, List.exists_mem_cons_iff, hjoined.same]

section Ranges

variable {ranges : List CharRange} (h : ∀ r ∈ ranges, r.Ordered)
include h

/-- Sorted ranges as joining takes them. -/
theorem joined_ofRanges : ((ofRanges ranges).ranges = [] ∧ ranges = []) ∨
    ∃ current given, ranges.Perm (current :: given) ∧ Joined current given (ofRanges ranges).ranges := by
  have hperm := List.mergeSort_perm ranges CharRange.le
  have hsorted := List.pairwise_mergeSort CharRange.le_trans CharRange.le_total ranges
  unfold ofRanges
  cases hsort : ranges.mergeSort CharRange.le with
  | nil => exact Or.inl ⟨rfl, List.nil_perm.mp (hsort ▸ hperm)⟩
  | cons current given =>
    rw [hsort] at hperm hsorted
    refine Or.inr ⟨current, given, hperm.symm, joined_merge (fun r hr => h r (hperm.mem_iff.mp hr)) ?_⟩
    refine hsorted.imp fun hle => ?_
    rw [CharRange.le_iff] at hle
    omega

/-- The set of some ranges is in normal form. -/
theorem normal_ofRanges : (ofRanges ranges).Normal := by
  rcases joined_ofRanges h with ⟨hnil, -⟩ | ⟨current, given, -, hjoined⟩
  · exact ⟨by simp [hnil], by simp [hnil]⟩
  · exact ⟨hjoined.ordered, hjoined.apart⟩

/-- The set of some ranges has the code points of these ranges. -/
theorem covers_ofRanges {n : Nat} : (∃ r ∈ (ofRanges ranges).ranges, r.Covers n) ↔ ∃ r ∈ ranges, r.Covers n := by
  rcases joined_ofRanges h with ⟨hnil, rfl⟩ | ⟨current, given, hperm, hjoined⟩
  · rw [hnil]
  · rw [hjoined.same]
    exact exists_congr fun r => and_congr_left fun _ => hperm.mem_iff.symm

/-- The set of some ranges has the characters of these ranges. -/
theorem contains_ofRanges {c : Char} : (ofRanges ranges).contains c = true ↔ ∃ r ∈ ranges, r.contains c = true := by
  rw [contains_iff (normal_ofRanges h)]
  simp only [CharRange.contains_iff]
  exact covers_ofRanges h

end Ranges

/-! ## Ways to make a set -/

theorem ordered_ofPairs (pairs : List (Char × Char)) :
    ∀ r ∈ pairs.map fun p => CharRange.between p.1 p.2, r.Ordered :=
  List.forall_mem_map.mpr fun p _ => CharRange.ordered_between p.1 p.2

theorem normal_ofPairs (pairs : List (Char × Char)) : (ofPairs pairs).Normal := normal_ofRanges (ordered_ofPairs pairs)

theorem contains_ofPairs (pairs : List (Char × Char)) {c : Char} : (ofPairs pairs).contains c = true ↔
    ∃ p ∈ pairs, (p.1 ≤ c ∧ c ≤ p.2) ∨ (p.2 ≤ c ∧ c ≤ p.1) := by
  rw [ofPairs, contains_ofRanges (ordered_ofPairs pairs)]
  simp only [List.mem_map, exists_exists_and_eq_and, CharRange.contains_between]

section Union

variable {a b : CharSet} (ha : a.Normal) (hb : b.Normal)
include ha hb

theorem ordered_union : ∀ r ∈ a.ranges ++ b.ranges, r.Ordered :=
  List.forall_mem_append.mpr ⟨ha.ordered, hb.ordered⟩

theorem normal_union : (a.union b).Normal := normal_ofRanges (ordered_union ha hb)

theorem contains_union {c : Char} : (a.union b).contains c = true ↔ a.contains c = true ∨ b.contains c = true := by
  rw [union, contains_ofRanges (ordered_union ha hb), contains_iff ha, contains_iff hb]
  simp only [List.mem_append, or_and_right, exists_or]

end Union

/-! ## A set less one character -/

theorem charOfCode?_eq {n : Nat} (hn : n.isValidChar) :
    ∃ c : Char, splitAround.charOfCode? n = some c ∧ c.toNat = n := by
  have hchar : Char.ofNat n = Char.ofNatAux n hn := dif_pos hn
  exact ⟨Char.ofNat n, if_pos hn, by rw [hchar]; rfl⟩

section Without

variable {hole : Char} (hbefore : (hole.toNat - 1).isValidChar) (hafter : (hole.toNat + 1).isValidChar)
include hbefore hafter

/-- A range around a hole is split in what comes before the hole and what comes after it. -/
theorem exists_splitAround_eq : ∃ before after : Char, before.toNat = hole.toNat - 1 ∧ after.toNat = hole.toNat + 1 ∧
    ∀ r, splitAround hole r = if hole < r.first ∨ r.last < hole then [r] else
      (if r.first < hole then [⟨r.first, before⟩] else []) ++ (if hole < r.last then [⟨after, r.last⟩] else []) := by
  obtain ⟨before, hcode, hbefore⟩ := charOfCode?_eq hbefore
  obtain ⟨after, hcode', hafter⟩ := charOfCode?_eq hafter
  refine ⟨before, after, hbefore, hafter, fun r => ?_⟩
  simp only [splitAround, hcode, hcode', Bool.or_eq_true, decide_eq_true_eq]
  by_cases h : r.first < hole <;> by_cases h' : hole < r.last <;> simp [h, h']

theorem ordered_splitAround {r : CharRange} (hr : r.Ordered) : ∀ r' ∈ splitAround hole r, r'.Ordered := by
  obtain ⟨before, after, hbefore, hafter, hsplit⟩ := exists_splitAround_eq hbefore hafter
  intro r' hr'
  rw [hsplit] at hr'
  split at hr'
  next hout => rwa [List.mem_singleton.mp hr']
  next hin =>
    rcases List.mem_append.mp hr' with hr' | hr'
    · obtain ⟨hlt, rfl⟩ := List.mem_ite_nil_right.mp hr' |>.imp_right List.mem_singleton.mp
      rw [CharRange.Ordered, hbefore]
      exact Nat.le_sub_one_of_lt hlt
    · obtain ⟨hlt, rfl⟩ := List.mem_ite_nil_right.mp hr' |>.imp_right List.mem_singleton.mp
      rw [CharRange.Ordered, hafter]
      exact hlt

theorem contains_splitAround {r : CharRange} {c : Char} :
    (∃ r' ∈ splitAround hole r, r'.contains c = true) ↔ r.contains c = true ∧ c ≠ hole := by
  obtain ⟨before, after, hbefore, hafter, hsplit⟩ := exists_splitAround_eq hbefore hafter
  have hne : c ≠ hole ↔ c.toNat ≠ hole.toNat := not_congr Char.toNat_inj.symm
  rw [hsplit, hne, CharRange.contains_iff]
  split
  next hout =>
    simp only [List.mem_singleton, exists_eq_left, CharRange.contains_iff]
    rw [CharRange.lt_iff, CharRange.lt_iff] at hout
    omega
  next hin =>
    simp only [List.mem_append, List.mem_ite_nil_right, List.mem_singleton, or_and_right, exists_or, and_assoc,
      exists_and_left, exists_eq_left, CharRange.contains_iff, CharRange.lt_iff, hbefore, hafter] at hin ⊢
    omega

variable {s : CharSet} (hs : s.Normal)
include hs

theorem ordered_without : ∀ r ∈ s.ranges.flatMap (splitAround hole), r.Ordered := by
  intro r hr
  obtain ⟨r', hr', hr⟩ := List.mem_flatMap.mp hr
  exact ordered_splitAround hbefore hafter (hs.ordered r' hr') r hr

theorem normal_without : (s.without hole).Normal := normal_ofRanges (ordered_without hbefore hafter hs)

theorem contains_without {c : Char} : (s.without hole).contains c = true ↔ s.contains c = true ∧ c ≠ hole := by
  rw [without, contains_ofRanges (ordered_without hbefore hafter hs), contains_iff hs]
  constructor
  · rintro ⟨r', hr', hc⟩
    obtain ⟨r, hr, hr'⟩ := List.mem_flatMap.mp hr'
    obtain ⟨hc, hne⟩ := (contains_splitAround hbefore hafter).mp ⟨r', hr', hc⟩
    exact ⟨⟨r, hr, hc⟩, hne⟩
  · rintro ⟨⟨r, hr, hc⟩, hne⟩
    obtain ⟨r', hr', hc⟩ := (contains_splitAround hbefore hafter).mpr ⟨hc, hne⟩
    exact ⟨r', List.mem_flatMap.mpr ⟨r, hr, hr'⟩, hc⟩

end Without

/-! ## What a set has -/

/-- **The characters of a set.** The set of some ranges, given in any order and each in either direction, has the
characters between their ends; a union has the characters of either set; and before the end of a line the characters of
the default set are skipped but for the line feed. All these sets are in normal form. -/
theorem contains_exactly (pairs : List (Char × Char)) {a b : CharSet} (ha : a.Normal) (hb : b.Normal) {w : Builder}
    (hw : w.defaultWhitespace.Normal) (c : Char) :
    ((ofPairs pairs).Normal ∧
      ((ofPairs pairs).contains c = true ↔ ∃ p ∈ pairs, (p.1 ≤ c ∧ c ≤ p.2) ∨ (p.2 ≤ c ∧ c ≤ p.1))) ∧
    ((a.union b).Normal ∧ ((a.union b).contains c = true ↔ a.contains c = true ∨ b.contains c = true)) ∧
    ∃ n, w.lineEnd.2.nodes[w.lineEnd.1]? = some n ∧ n.skipsWhitespace = true ∧ n.whitespace.Normal ∧
      (n.whitespace.contains c = true ↔ w.defaultWhitespace.contains c = true ∧ c ≠ '\n') := by
  have hbefore : ('\n'.toNat - 1).isValidChar := by decide
  have hafter : ('\n'.toNat + 1).isValidChar := by decide
  refine ⟨⟨normal_ofPairs pairs, contains_ofPairs pairs⟩, ⟨normal_union ha hb, contains_union ha hb⟩, ?_⟩
  exact ⟨_, Array.getElem?_push_size, rfl, normal_without hbefore hafter hw, contains_without hbefore hafter hw⟩

/-- Ranges that overlap, touch and repeat, the letters with the digits, and blanks of which the line feed is cut out. -/
theorem contains_exactly_overlapping :
    let pairs := [('m', 'a'), ('k', 'p'), ('q', 'z'), ('k', 'p')]
    let w := Builder.setDefaultWhitespace {} (ofPairs [('\r', '\t'), (' ', ' ')])
    (digits.Normal ∧ alphas.Normal ∧ w.defaultWhitespace.Normal) ∧
    ((ofPairs pairs).Normal ∧
      ((ofPairs pairs).contains '\n' = true ↔ ∃ p ∈ pairs, (p.1 ≤ '\n' ∧ '\n' ≤ p.2) ∨ (p.2 ≤ '\n' ∧ '\n' ≤ p.1))) ∧
    ((digits.union alphas).Normal ∧
      ((digits.union alphas).contains '\n' = true ↔ digits.contains '\n' = true ∨ alphas.contains '\n' = true)) ∧
    ∃ n, w.lineEnd.2.nodes[w.lineEnd.1]? = some n ∧ n.skipsWhitespace = true ∧ n.whitespace.Normal ∧
      (n.whitespace.contains '\n' = true ↔ w.defaultWhitespace.contains '\n' = true ∧ '\n' ≠ '\n') := by
  intro pairs w
  have hdigits : digits.Normal := normal_ofPairs _
  have halphas : alphas.Normal := normal_ofPairs _
  have hw : w.defaultWhitespace.Normal := normal_ofPairs _
  exact ⟨⟨hdigits, halphas, hw⟩, contains_exactly pairs hdigits halphas hw '\n'⟩

/-- The ranges of the letters from `a` to `z` become one, and the blanks around the line feed two. -/
example : (ofPairs [('m', 'a'), ('k', 'p'), ('q', 'z'), ('k', 'p')]).ranges = [⟨'a', 'z'⟩] ∧
    ((ofPairs [('\r', '\t')]).without '\n').ranges = [⟨'\t', '\t'⟩, ⟨'\x0b', '\r'⟩] := by
  cbv

end CharSet
end Packrat
