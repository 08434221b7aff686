import Mathlib.Tactic
import Packrat.Proofs.Placement.Boundary
import Packrat.Text.Lines

/-!
# `Packrat.Proofs.Layout.Lines` — the lines of an index

An index holds the positions behind the newlines of a text, in their order. A front of the text accounts for a front of
these positions, one for each newline in it, and all others lie behind it; so halving finds as many lines before a place
as there are newlines, and the text of a line is what stands between two newlines.

## Contents

* `nearest_eq` — halving finds the last position that is not too far;
* `starts_append`, `lineOf_append` — the positions that a front of the text accounts for;
* `StartsLine`, `start?_line`, `text_line` — the start and the text of a line;
* `texts_eq_splitOn` — the texts of all lines are the text cut at its newlines.
-/

namespace Packrat

/-- What stands between two parts of a text is cut out where the parts end and begin. -/
theorem Text.slice?_append_append (a u b : Text) : (a ++ (u ++ b)).slice? a.size (a.size + u.size) = some u := by
  rw [slice?, if_pos (Nat.le_add_right _ _), drop?_append, Option.bind_some, Nat.add_sub_cancel_left, take?_append]

namespace Lines

/-! ## Halving -/

/-- Of positions of which a front is not past `p` and the others are, halving finds the last of the front. -/
theorem nearest_eq {p : Nat} {positions : List Nat} : ∀ {front back : List Nat}, front ++ back = positions →
    front ≠ [] → (∀ q ∈ front, q ≤ p) → (∀ q ∈ back, p < q) → nearest p positions = front.length - 1 := by
  fun_induction nearest p positions with
  | case1 positions half =>
    intro front back hall hne hfront hback
    have hpos := List.length_pos_of_ne_nil hne
    have hlength := congrArg List.length hall
    rw [List.length_append] at hlength
    omega
  | case2 positions half hhalf hpast =>
    rename_i ih
    -- the middle position is past `p`, so the whole front is before it
    rintro front back rfl hne hfront hback
    obtain ⟨q, hq, hlt⟩ := (Option.any_eq_true _ _).mp hpast
    have hlt : p < q := of_decide_eq_true hlt
    have hle : front.length ≤ half := by
      by_contra hin
      rw [List.head?_drop, List.getElem?_append_left (Nat.not_le.mp hin)] at hq
      exact absurd (hfront q (List.mem_of_getElem? hq)) (Nat.not_le.mpr hlt)
    have hrest : front.length ≤ (front ++ back).length - half := by omega
    have htake : (front ++ back).take ((front ++ back).length - half) =
        front ++ back.take ((front ++ back).length - half - front.length) := by
      rw [List.take_append, List.take_of_length_le hrest]
    exact ih htake.symm hne hfront fun q hq => hback q (List.mem_of_mem_take hq)
  | case3 positions half hhalf hreached =>
    rename_i ih
    rintro front back rfl hne hfront hback
    have hlt : half < (front ++ back).length := by omega
    have hin : half < front.length := by
      by_contra hout
      have hmiddle : (front ++ back)[half]? = some (front ++ back)[half] := List.getElem?_eq_getElem hlt
      refine hreached ?_
      rw [List.head?_drop, hmiddle]
      rw [List.getElem?_append_right (Nat.not_lt.mp hout)] at hmiddle
      exact decide_eq_true (hback _ (List.mem_of_getElem? hmiddle))
    have hne : front.drop half ≠ [] := by rwa [ne_eq, List.drop_eq_nil_iff, Nat.not_le]
    rw [ih (List.drop_append_of_le_length hin.le).symm hne (fun q hq => hfront q (List.mem_of_mem_drop hq)) hback,
      List.length_drop]
    omega

/-! ## The positions behind newlines -/

theorem breaksFrom_append (base : Nat) (a b : Text) :
    breaksFrom base (a ++ b) = breaksFrom base a ++ breaksFrom (base + a.size) b := by
  induction a generalizing base with
  | nil => rfl
  | cons c a ih =>
    rw [List.cons_append, breaksFrom, breaksFrom, ih, Text.size_cons, Nat.add_assoc]
    split
    · rfl
    · rfl

theorem length_breaksFrom (base : Nat) (a : Text) : (breaksFrom base a).length = a.count '\n' := by
  induction a generalizing base with
  | nil => rfl
  | cons c a ih =>
    rw [breaksFrom, List.count_cons]
    split
    · rw [List.length_cons, ih]
    · rw [ih, Nat.add_zero]

theorem breaksFrom_eq_nil {a : Text} (h : '\n' ∉ a) (base : Nat) : breaksFrom base a = [] :=
  List.length_eq_zero_iff.mp (by rw [length_breaksFrom, List.count_eq_zero_of_not_mem h])

theorem mem_breaksFrom {base q : Nat} {a : Text} (h : q ∈ breaksFrom base a) : base < q ∧ q ≤ base + a.size := by
  induction a generalizing base with
  | nil => exact absurd h List.not_mem_nil
  | cons c a ih =>
    have hc := Char.utf8Size_pos c
    rw [Text.size_cons]
    rw [breaksFrom] at h
    split at h
    · rcases List.mem_cons.mp h with rfl | h
      · omega
      · have hq := ih h
        omega
    · have hq := ih h
      omega

theorem starts_append (a b : Text) : (ofText (a ++ b)).starts = (0 :: breaksFrom 0 a) ++ breaksFrom a.size b := by
  show 0 :: breaksFrom 0 (a ++ b) = _
  rw [breaksFrom_append, Nat.zero_add, List.cons_append]

/-- There are as many lines before the line of a place as newlines before the place. -/
theorem lineOf_append (a b : Text) : (ofText (a ++ b)).lineOf a.size = a.count '\n' := by
  have hfront : ∀ q ∈ 0 :: breaksFrom 0 a, q ≤ a.size := by
    intro q hq
    rcases List.mem_cons.mp hq with rfl | hq
    · exact Nat.zero_le _
    · have hle := (mem_breaksFrom hq).2
      omega
  have hback : ∀ q ∈ breaksFrom a.size b, a.size < q := fun q hq => (mem_breaksFrom hq).1
  have hline : nearest a.size (ofText (a ++ b)).starts = a.count '\n' := by
    rw [nearest_eq (starts_append a b).symm (by simp) hfront hback, List.length_cons, length_breaksFrom, Nat.add_sub_cancel]
  -- the position found is one of the front, so it is not past the place
  have hstart : ¬ (((ofText (a ++ b)).start? (a.count '\n')).any (a.size < ·)) = true := by
    rw [Option.any_eq_true]
    rintro ⟨q, hq, hlt⟩
    rw [start?, starts_append, List.getElem?_append_left (by rw [List.length_cons, length_breaksFrom]; omega)] at hq
    exact absurd (hfront q (List.mem_of_getElem? hq)) (Nat.not_le.mpr (of_decide_eq_true hlt))
  simp only [lineOf, hline, if_neg hstart]

/-! ## The start and the text of a line -/

/-- A front of a text that ends where a line starts. -/
def StartsLine (h : Text) : Prop := h = [] ∨ ∃ g, h = g ++ ['\n']

/-- The end of a text from where a line ends on. -/
def EndsLine (w : Text) : Prop := w = [] ∨ ∃ r, w = '\n' :: r

section Line

variable {h l w : Text}

theorem start?_line (hstarts : StartsLine h) (r : Text) : (ofText (h ++ r)).start? (h.count '\n') = some h.size := by
  rw [start?, starts_append]
  rcases hstarts with rfl | ⟨g, rfl⟩
  · rfl
  · have hlast : 0 :: breaksFrom 0 (g ++ ['\n']) = (0 :: breaksFrom 0 g) ++ [(g ++ ['\n']).size] := by
      rw [breaksFrom_append, List.cons_append, Text.size_append]
      simp [breaksFrom]
    have hlength : (0 :: breaksFrom 0 g).length = (g ++ ['\n']).count '\n' := by
      rw [List.length_cons, length_breaksFrom, List.count_append]
      rfl
    rw [hlast, List.append_assoc, ← hlength, List.getElem?_append_right (Nat.le_refl _), Nat.sub_self]
    rfl

/-- Behind a line lies the start of the next one, which a newline separates from it. -/
theorem start?_next (hline : '\n' ∉ l) :
    (ofText (h ++ (l ++ w))).start? (h.count '\n' + 1) = (breaksFrom (h.size + l.size) w).head? := by
  have hlength : (0 :: breaksFrom 0 h).length = h.count '\n' + 1 := by rw [List.length_cons, length_breaksFrom]
  rw [start?, starts_append, ← hlength, List.getElem?_append_right (Nat.le_refl _), Nat.sub_self, breaksFrom_append,
    breaksFrom_eq_nil hline, List.nil_append, List.head?_eq_getElem?]

/-- The text of a line is what stands between the newlines around it. -/
theorem text_line (hstarts : StartsLine h) (hline : '\n' ∉ l) (hends : EndsLine w) :
    (ofText (h ++ (l ++ w))).text (h ++ (l ++ w)) (h.count '\n') = l := by
  have hslice : (h ++ (l ++ w)).slice h.size (h.size + l.size) = l := by
    rw [Text.slice, Text.slice?_append_append, Option.getD_some]
  rw [text, start?_line hstarts, start?_next hline]
  rcases hends with rfl | ⟨r, rfl⟩
  · have hsize : (ofText (h ++ (l ++ []))).size = h.size + l.size := by
      show (h ++ (l ++ [])).size = _
      rw [List.append_nil, Text.size_append]
    simp only [breaksFrom, List.head?_nil, hsize]
    exact hslice
  · have hstop : h.size + l.size + Char.utf8Size '\n' - 1 = h.size + l.size := rfl
    simp only [breaksFrom, beq_self_eq_true, if_true, List.head?_cons, hstop]
    exact hslice

/-- The lines from a start of a line on have the texts between the newlines there. -/
theorem map_text_range' (hstarts : StartsLine h) (r : Text) :
    (List.range' (h.count '\n') (r.count '\n' + 1)).map ((ofText (h ++ r)).text (h ++ r)) = r.splitOn '\n' := by
  induction hn : r.count '\n' generalizing h r with
  | zero =>
    have hline : '\n' ∉ r := List.count_eq_zero.mp hn
    have htext := text_line hstarts hline (Or.inl rfl)
    rw [List.append_nil] at htext
    rw [List.splitOn_eq_singleton hline, List.range'_succ, List.map_cons, htext]
    rfl
  | succ n ih =>
    have hmem : '\n' ∈ r := List.count_pos_iff.mp (by omega)
    obtain ⟨l, w, rfl, hline⟩ := List.eq_append_cons_of_mem hmem
    have hsplit : (l ++ '\n' :: w).splitOn '\n' = l :: w.splitOn '\n' := by
      have hsingle := List.splitOn_eq_singleton hline
      rw [List.splitOn_eq_splitOnP] at hsingle ⊢
      rw [List.splitOnP_append_cons l w rfl, hsingle, List.splitOn_eq_splitOnP]
      rfl
    -- the next line starts behind the newline
    have hfront : h ++ (l ++ '\n' :: w) = (h ++ l ++ ['\n']) ++ w := by simp
    have hcount : (h ++ l ++ ['\n']).count '\n' = h.count '\n' + 1 := by
      rw [List.count_append, List.count_append, List.count_eq_zero_of_not_mem hline]
      rfl
    have hrest : w.count '\n' = n := by
      rw [List.count_append, List.count_cons_self, List.count_eq_zero_of_not_mem hline] at hn
      omega
    have htail := ih (Or.inr ⟨h ++ l, rfl⟩) w hrest
    rw [← hfront, hcount] at htail
    rw [List.range'_succ, List.map_cons, text_line hstarts hline (Or.inr ⟨w, rfl⟩), htail, hsplit]

/-- The texts of all lines are the text cut at its newlines. -/
theorem texts_eq_splitOn (t : Text) :
    (List.range (ofText t).count).map ((ofText t).text t) = t.splitOn '\n' := by
  have hcount : (ofText t).count = t.count '\n' + 1 := by
    show (breaksFrom 0 t).length + 1 = _
    rw [length_breaksFrom]
  rw [hcount, List.range_eq_range']
  exact map_text_range' (Or.inl rfl) t

end Line

end Lines
end Packrat
