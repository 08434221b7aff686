import Packrat.Scan
import Packrat.Proofs.Placement.Boundary
import Packrat.Proofs.Plain.Answer
import Packrat.Proofs.Seeds.Ledger

/-!
# `Packrat.Proofs.Scanning.Naive` — the scan one place after the other

What a scan should yield is said without jumps and without a state that attempts share: at each place of the text, one
after the other, the root is attempted on its own, and the first place at which there is something to yield counts.

## Contents

* `Text.places` — the places of a text in their order, and `filter_places` — those from one of them on;
* `Text.IsBoundary.skip_of_between` — skipping from inside what is skipped;
* `Scan.rootFrom`, `Scan.itemAt?` — what the root comes to on its own, and what that yields;
* `Scan.firstItem?`, `Scan.naive` — the first item from a position on, and a number of items.
-/

namespace Packrat
namespace Text

/-! ## Places in their order -/

/-- The places of a text, in their order. -/
def places (t : Text) : List Nat := t.starts ++ [t.size]

theorem startsFrom_append (base : Nat) (a b : Text) :
    startsFrom base (a ++ b) = startsFrom base a ++ startsFrom (base + a.size) b := by
  induction a generalizing base with
  | nil => rfl
  | cons c a ih =>
    rw [List.cons_append, startsFrom, startsFrom, ih, List.cons_append, size_cons, Nat.add_assoc]

theorem lt_of_mem_startsFrom {base q : Nat} {t : Text} (h : q ∈ startsFrom base t) : q < base + t.size := by
  induction t generalizing base with
  | nil => exact absurd h (by simp [startsFrom])
  | cons c t ih =>
    have hc := Char.utf8Size_pos c
    rw [size_cons]
    rcases List.mem_cons.mp h with rfl | h
    · omega
    · have := ih h
      omega

theorem le_of_mem_startsFrom {base q : Nat} {t : Text} (h : q ∈ startsFrom base t) : base ≤ q := by
  induction t generalizing base with
  | nil => exact absurd h (by simp [startsFrom])
  | cons c t ih =>
    rcases List.mem_cons.mp h with rfl | h
    · exact le_rfl
    · exact (Nat.le_add_right _ _).trans (ih h)

/-- The places from the end of a first part on are those of the second. -/
theorem filter_places_append (a b : Text) {p : Nat} (hp : a.size ≤ p) :
    (a ++ b).places.filter (p ≤ ·) = (startsFrom a.size b ++ [a.size + b.size]).filter (p ≤ ·) := by
  have hbefore : (startsFrom 0 a).filter (p ≤ ·) = [] := by
    refine List.filter_eq_nil_iff.mpr fun q hq => ?_
    have hlt := lt_of_mem_startsFrom hq
    rw [decide_eq_true_eq]
    omega
  rw [places, starts, startsFrom_append, Nat.zero_add, size_append, List.append_assoc, List.filter_append, hbefore,
    List.nil_append]

variable {t : Text} {p q : Nat}

/-- The places from a place on are this one and those from the next on. -/
theorem IsBoundary.filter_places (h : t.IsBoundary p) :
    t.places.filter (p ≤ ·) = p :: t.places.filter (t.next p ≤ ·) := by
  obtain ⟨a, b, rfl, rfl⟩ := isBoundary_iff.mp h
  have hall {base : Nat} {u : Text} : (startsFrom base u ++ [base + u.size]).filter (base ≤ ·)
      = startsFrom base u ++ [base + u.size] := by
    refine List.filter_eq_self.mpr fun q hq => ?_
    rw [decide_eq_true_eq]
    rcases List.mem_append.mp hq with hq | hq
    · exact le_of_mem_startsFrom hq
    · rw [List.mem_singleton.mp hq]
      exact Nat.le_add_right _ _
  rw [filter_places_append a b le_rfl, hall]
  cases b with
  | nil =>
    have hnext : Text.next (a ++ []) a.size = a.size + 1 := by rw [Text.next, charAt?, rest_append]; rfl
    rw [hnext, filter_places_append a [] (Nat.le_succ _)]
    simp [startsFrom]
  | cons c b =>
    have hnext : Text.next (a ++ c :: b) a.size = (a ++ [c]).size := by
      rw [Text.next, charAt?, rest_append, size_append]
      rfl
    have hsplit : a ++ c :: b = (a ++ [c]) ++ b := by simp
    rw [hnext, hsplit, filter_places_append (a ++ [c]) b le_rfl, hall]
    simp [startsFrom, Nat.add_assoc]

/-- Past the end there are no places. -/
theorem filter_places_of_lt (h : t.size < p) : t.places.filter (p ≤ ·) = [] := by
  refine List.filter_eq_nil_iff.mpr fun q hq => ?_
  rw [decide_eq_true_eq]
  rcases List.mem_append.mp hq with hq | hq
  · have hlt := lt_of_mem_startsFrom hq
    omega
  · have heq := List.mem_singleton.mp hq
    omega

theorem mem_places (h : t.IsBoundary p) : p ∈ t.places := by
  have hmem : p ∈ t.places.filter (p ≤ ·) := by
    rw [h.filter_places]
    exact List.mem_cons_self
  exact List.mem_of_mem_filter hmem

/-- There is no place between a place and the next one. -/
theorem IsBoundary.next_le (hp : t.IsBoundary p) (hq : t.IsBoundary q) (hlt : p < q) : t.next p ≤ q := by
  have hmem : q ∈ t.places.filter (p ≤ ·) := List.mem_filter.mpr ⟨mem_places hq, decide_eq_true hlt.le⟩
  rw [hp.filter_places] at hmem
  have htail := (List.mem_cons.mp hmem).resolve_left hlt.ne'
  exact of_decide_eq_true (List.mem_filter.mp htail).2

/-- Skipping does not go past a character that is not skipped. -/
theorem takeWhile_prefix_of_not {set : Char → Bool} {c : Char} (hc : set c = false) (u w : Text) :
    (u ++ c :: w).takeWhile set <+: u := by
  induction u with
  | nil => simp [hc]
  | cons d u ih =>
    rw [List.cons_append, List.takeWhile_cons]
    split
    · exact List.prefix_cons_inj d |>.mpr ih
    · exact List.nil_prefix

/-- From inside of what is skipped, skipping leads to the same place. -/
theorem IsBoundary.skip_of_between {set : Char → Bool} (hp : t.IsBoundary p) (hq : t.IsBoundary q) (hle : p ≤ q)
    (hlast : q ≤ t.skip set p) : t.skip set q = t.skip set p := by
  obtain ⟨a, b, rfl, rfl⟩ := isBoundary_iff.mp hp
  obtain ⟨x, y, hsplit, rfl⟩ := isBoundary_iff.mp hq
  obtain ⟨m, rfl, rfl⟩ := exists_append_of_size_le hsplit hle
  rw [Text.skip, rest_append, size_append] at hlast
  have hskip : Text.skip set (a ++ (m ++ y)) (a ++ m).size = (a ++ m).size + size (y.takeWhile set) := by
    rw [← List.append_assoc, Text.skip, rest_append]
  rw [hskip, Text.skip, rest_append]
  by_cases hall : ∀ c ∈ m, set c = true
  · rw [List.takeWhile_append_of_pos hall, size_append, size_append, Nat.add_assoc]
  · -- a character that is not skipped would end the skipping inside of `m`
    exfalso
    push Not at hall
    obtain ⟨c, hc, hset⟩ := hall
    obtain ⟨u, v, rfl⟩ := List.append_of_mem hc
    obtain ⟨w, hw⟩ := takeWhile_prefix_of_not (Bool.eq_false_iff.mpr hset) u (v ++ y)
    have hpos := Char.utf8Size_pos c
    have hsize := congrArg size hw
    simp only [size_append, size_cons, List.append_assoc, List.cons_append] at hlast hsize
    omega

end Text

/-! ## Where the root starts -/

namespace Rule

variable (rule : Rule) {t : Text} {p q : Nat}

theorem le_lead (t : Text) (skips : Bool) (p : Nat) : p ≤ rule.lead t skips p := by
  unfold lead
  split
  · exact Text.le_skip _ _ _
  · exact le_rfl

theorem isBoundary_lead (h : t.IsBoundary p) (skips : Bool) : t.IsBoundary (rule.lead t skips p) := by
  unfold lead
  split
  · exact h.skip _
  · exact h

/-- From a position up to where a node starts, it starts at the same place. -/
theorem lead_of_between (hp : t.IsBoundary p) (hq : t.IsBoundary q) (hle : p ≤ q) (hlast : q ≤ rule.lead t true p) :
    rule.lead t true q = rule.lead t true p := by
  unfold lead at hlast ⊢
  split
  · next hskips =>
    rw [if_pos hskips] at hlast
    exact hp.skip_of_between hq hle hlast
  · next hskips =>
    rw [if_neg hskips] at hlast
    exact Nat.le_antisymm hlast hle

end Rule

/-! ## The reference -/

namespace Scan

/-- What a run comes to. -/
def outcomeOf : EStateM.Result Halt State Step → Answer
  | .ok step _ => .ok step
  | .error h _ => .error h

/-- What the root comes to at a place, attempted on its own: with skipping first, and nothing remembered. -/
def rootFrom (c : Context) (q : Nat) : Answer :=
  outcomeOf (attempt c c c.grammar.root q true true (State.initial c.config))

/-- What there is to yield when the root comes to an answer at a place: an error, or a match if it ends past the place.
The match of a root without ignorables starts past its whitespace. -/
def itemOf? (c : Context) (q : Nat) : Answer → Option Item
  | .error h => some (.error (h.toError c.text))
  | .ok (.failed _) => none
  | .ok (.matched stop results) =>
    if q < stop then some (.ok ⟨results, (c.grammar.rule c.grammar.root).lead c.text true q, stop⟩) else none

/-- What there is to yield at a place. -/
def itemAt? (c : Context) (q : Nat) : Option Item := itemOf? c q (rootFrom c q)

/-- The first item from a position on. -/
def firstItem? (c : Context) (p : Nat) : Option Item := (c.text.places.filter (p ≤ ·)).findSome? (itemAt? c)

/-- Up to `n` items from a position on: after each match the next is looked for at its end, and an error is the
last. -/
def naive (c : Context) : (n p : Nat) → List Item
  | 0, _ => []
  | n + 1, p =>
    match firstItem? c p with
    | none => []
    | some (.error e) => [.error e]
    | some (.ok f) => .ok f :: naive c n f.stop

variable {c : Context} {p q : Nat}

/-- Past the end there is nothing to yield. -/
theorem firstItem?_of_lt (h : c.text.size < p) : firstItem? c p = none := by
  rw [firstItem?, Text.filter_places_of_lt h]
  rfl

/-- The first item is at the place itself, or from the next place on. -/
theorem firstItem?_eq (h : c.text.IsBoundary p) :
    firstItem? c p = (itemAt? c p).or (firstItem? c (c.text.next p)) := by
  rw [firstItem?, h.filter_places, List.findSome?_cons]
  cases itemAt? c p <;> rfl

/-- Where there is something to yield at the place itself, it is the first item. -/
theorem firstItem?_of_itemAt? (h : c.text.IsBoundary p) {item : Item} (hitem : itemAt? c p = some item) :
    firstItem? c p = some item := by
  rw [firstItem?_eq h, hitem]
  rfl

/-- Where there is nothing to yield up to a place, the first item is from the next place on. Errors of a kind may come
in between. -/
theorem firstItem?_of_misses {E : ParseError → Prop} (hp : c.text.IsBoundary p) (hq : c.text.IsBoundary q) (hle : p ≤ q)
    (hmiss : ∀ q', c.text.IsBoundary q' → p ≤ q' → q' ≤ q →
      itemAt? c q' = none ∨ ∃ e, E e ∧ itemAt? c q' = some (.error e)) :
    firstItem? c p = firstItem? c (c.text.next q) ∨ ∃ e, E e ∧ firstItem? c p = some (.error e) := by
  obtain ⟨n, hn⟩ : ∃ n, n = q - p := ⟨_, rfl⟩
  induction n using Nat.strong_induction_on generalizing p with
  | _ n ih =>
    rcases hmiss p hp le_rfl hle with hnone | ⟨e, he, herror⟩
    · rw [firstItem?_eq hp, hnone, Option.none_or]
      rcases hle.eq_or_lt with rfl | hlt
      · exact Or.inl rfl
      · have hnext : c.text.next p ≤ q := hp.next_le hq hlt
        have hplace : c.text.IsBoundary (c.text.next p) := by
          rcases hp.next with h | h
          · exact h
          · exact absurd (hnext.trans hq.le_size) (Nat.not_le.mpr h)
        have hlt' := c.text.lt_next p
        exact ih (q - c.text.next p) (by omega) hplace hnext
          (fun q' hq' hle' => hmiss q' hq' (hlt'.le.trans hle')) rfl
    · exact Or.inr ⟨e, he, firstItem?_of_itemAt? hp herror⟩

end Scan
end Packrat
