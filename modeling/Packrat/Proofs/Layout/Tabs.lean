import Mathlib.Data.List.DropRight
import Mathlib.Tactic
import Packrat.Text.Tabs

/-!
# `Packrat.Proofs.Layout.Tabs` — where the spaces for a tab end

Expanding tabs goes through a text with a running count of columns. Here the column is what it means of the text written
so far, the number of characters since the last line break, and the count is shown to be that number all along, over line
breaks and the spaces of earlier tabs.

## Contents

* `column`, `columnAfter` — the column at the end of a text, and the running count;
* `expandTabsFrom_append` — a text is expanded part by part;
* `StopsAt`, `Expansion` — the rule for a single tab, and expanded texts by that rule;
* `expandTabs_exact` — **what tab expansion gives**, and how it goes with line breaks and with itself.
-/

namespace Packrat.Text

/-! ## Columns -/

/-- The number of characters since the last line break. -/
def column (t : Text) : Nat := (t.rtakeWhile fun c => !breaksLine c).length

/-- The column that counting from a column comes to. -/
def columnAfter (column : Nat) : Text → Nat
  | [] => column
  | c :: r => columnAfter (if breaksLine c then 0 else column + 1) r

theorem column_concat (t : Text) (c : Char) : column (t ++ [c]) = if breaksLine c then 0 else column t + 1 := by
  rw [column, List.rtakeWhile_concat]
  cases breaksLine c with
  | true => rfl
  | false => simp [column]

theorem column_append_spaces (t : Text) (n : Nat) : column (t ++ List.replicate n ' ') = column t + n := by
  induction n with
  | zero => rw [List.replicate_zero, List.append_nil, Nat.add_zero]
  | succ n ih =>
    rw [List.replicate_succ', ← List.append_assoc, column_concat, ih]
    rfl

theorem columnAfter_append (column : Nat) (u v : Text) :
    columnAfter column (u ++ v) = columnAfter (columnAfter column u) v := by
  induction u generalizing column with
  | nil => rfl
  | cons c u ih => exact ih _

theorem columnAfter_spaces (column n : Nat) : columnAfter column (List.replicate n ' ') = column + n := by
  induction n generalizing column with
  | zero => rfl
  | succ n ih =>
    rw [List.replicate_succ]
    exact (ih (column + 1)).trans (by omega)

/-- Counting from the start of a line comes to the column. -/
theorem columnAfter_zero (t : Text) : columnAfter 0 t = column t := by
  induction t using List.reverseRecOn with
  | nil => rfl
  | append_singleton t c ih =>
    rw [columnAfter_append, ih, column_concat]
    rfl

/-! ## Expanding part by part -/

/-- A second part is expanded from the column to which the expansion of the first part leads. -/
theorem expandTabsFrom_append (width : Nat) (u v : Text) (column : Nat) :
    expandTabsFrom width column (u ++ v) =
      expandTabsFrom width column u ++ expandTabsFrom width (columnAfter column (expandTabsFrom width column u)) v := by
  induction u generalizing column with
  | nil => rfl
  | cons c u ih =>
    rw [List.cons_append, expandTabsFrom, expandTabsFrom]
    split
    · rw [ih, columnAfter_append, columnAfter_spaces, List.append_assoc]
    · rw [ih]
      rfl

theorem expandTabs_append (width : Nat) (u v : Text) :
    (u ++ v).expandTabs width = u.expandTabs width ++ expandTabsFrom width (column (u.expandTabs width)) v := by
  rw [expandTabs_eq_from, expandTabs_eq_from, expandTabsFrom_append, columnAfter_zero]

theorem expandTabs_concat (width : Nat) (t : Text) (c : Char) : (t ++ [c]).expandTabs width =
    t.expandTabs width ++ if c = '\t' then List.replicate (padding width (column (t.expandTabs width))) ' ' else [c] := by
  rw [expandTabs_append]
  by_cases hc : c = '\t'
  · rw [if_pos hc, expandTabsFrom, if_pos (beq_iff_eq.mpr hc), expandTabsFrom, List.append_nil]
  · rw [if_neg hc, expandTabsFrom, if_neg (by simpa using hc), expandTabsFrom]

/-- Behind a line break a text is expanded by itself. -/
theorem expandTabs_append_break (width : Nat) (u v : Text) {c : Char} (hc : breaksLine c = true) :
    (u ++ c :: v).expandTabs width = u.expandTabs width ++ c :: v.expandTabs width := by
  have htab : ¬ (c == '\t') = true := by
    rintro h
    rw [beq_iff_eq.mp h] at hc
    exact absurd hc (by decide)
  rw [expandTabs_append, expandTabsFrom, if_neg htab, if_pos hc, ← expandTabs_eq_from]

theorem tab_notMem_expandTabs (width : Nat) (t : Text) : '\t' ∉ t.expandTabs width := by
  induction t using List.reverseRecOn with
  | nil => exact List.not_mem_nil
  | append_singleton t c ih =>
    rw [expandTabs_concat, List.mem_append, not_or]
    refine ⟨ih, ?_⟩
    split
    · exact fun h => absurd (List.eq_of_mem_replicate h) (by decide)
    · next hc => exact fun h => hc (List.mem_singleton.mp h).symm

theorem expandTabs_eq_self {t : Text} (h : '\t' ∉ t) (width : Nat) : t.expandTabs width = t := by
  rw [expandTabs_eq_from, expandTabsFrom_eq_self h]

/-! ## Tab stops -/

/-- Spaces from a tab behind a text lead to a tab stop: at least one space and at most as many as stops are apart, so that
the column is a multiple of the width. Stops that have no width take no spaces. -/
def StopsAt (width : Nat) (t : Text) (n : Nat) : Prop :=
  (width = 0 ∧ n = 0) ∨ (1 ≤ n ∧ n ≤ width ∧ width ∣ column (t ++ List.replicate n ' '))

/-- There is one number of spaces that leads to a tab stop. -/
theorem stopsAt_iff {width n : Nat} {t : Text} : StopsAt width t n ↔ n = padding width (column t) := by
  rw [StopsAt, padding, column_append_spaces]
  rcases Nat.eq_zero_or_pos width with rfl | hwidth
  · simp
  · have hlt : column t % width < width := Nat.mod_lt _ hwidth
    have hdvd : width ∣ column t + n ↔ width ∣ column t % width + n := by
      rw [Nat.dvd_iff_mod_eq_zero, Nat.dvd_iff_mod_eq_zero, Nat.mod_add_mod]
    rw [if_neg hwidth.ne', hdvd]
    constructor
    · rintro (⟨hzero, -⟩ | ⟨hpos, hle, hdvd⟩)
      · exact absurd hzero hwidth.ne'
      · have hstop : column t % width + n = width := Nat.eq_of_dvd_of_lt_two_mul (by omega) hdvd (by omega)
        omega
    · rintro rfl
      refine Or.inr ⟨by omega, by omega, ?_⟩
      rw [Nat.add_sub_cancel' hlt.le]

/-- A text with its tabs expanded, character by character: each tab becomes the spaces up to the next tab stop, all other
characters stay. -/
inductive Expansion (width : Nat) : Text → Text → Prop
  | nil : Expansion width [] []
  | keep {t out : Text} {c : Char} : Expansion width t out → c ≠ '\t' → Expansion width (t ++ [c]) (out ++ [c])
  | tab {t out : Text} {n : Nat} : Expansion width t out → StopsAt width out n →
    Expansion width (t ++ ['\t']) (out ++ List.replicate n ' ')

theorem expansion_expandTabs (width : Nat) (t : Text) : Expansion width t (t.expandTabs width) := by
  induction t using List.reverseRecOn with
  | nil => exact .nil
  | append_singleton t c ih =>
    rw [expandTabs_concat]
    split
    · next hc =>
      rw [hc]
      exact ih.tab (stopsAt_iff.mpr rfl)
    · next hc => exact ih.keep hc

theorem Expansion.eq_expandTabs {width : Nat} {t out : Text} (h : Expansion width t out) : out = t.expandTabs width := by
  induction h with
  | nil => rfl
  | keep _ hc ih => rw [expandTabs_concat, if_neg hc, ih]
  | tab _ hn ih => rw [expandTabs_concat, if_pos rfl, ← ih, ← stopsAt_iff.mp hn]

/-! ## What tab expansion gives -/

/-- **Tab expansion is exact to the column.** It gives the one text in which every tab has become the spaces up to the next
tab stop and all else has stayed, with no tab left. Texts on both sides of a line break are expanded by themselves.
Expanding once more changes nothing, and a text without tabs, which is taken as it is, is also what going through it
gives. -/
theorem expandTabs_exact (width : Nat) (t : Text) :
    (∀ out, Expansion width t out ↔ out = t.expandTabs width) ∧
      '\t' ∉ t.expandTabs width ∧
      (∀ (a : Text) (c : Char) (b : Text), breaksLine c = true →
        (a ++ c :: b).expandTabs width = a.expandTabs width ++ c :: b.expandTabs width) ∧
      (t.expandTabs width).expandTabs width = t.expandTabs width ∧
      ('\t' ∉ t → t.expandTabs width = t ∧ expandTabsFrom width 0 t = t) := by
  refine ⟨fun out => ⟨Expansion.eq_expandTabs, ?_⟩, tab_notMem_expandTabs width t, ?_, ?_, ?_⟩
  · rintro rfl
    exact expansion_expandTabs width t
  · exact fun a c b hc => expandTabs_append_break width a b hc
  · exact expandTabs_eq_self (tab_notMem_expandTabs width t) width
  · exact fun h => ⟨expandTabs_eq_self h width, expandTabsFrom_eq_self h width 0⟩

/-- Stops of four columns: the first tab is two columns short of one, the second begins at one, and the third is the first
thing on its line. -/
theorem expandTabs_exact_threeTabs :
    let t : Text := ['é', 'b', '\t', '\t', '\r', '\t']
    Expansion 4 t ['é', 'b', ' ', ' ', ' ', ' ', ' ', ' ', '\r', ' ', ' ', ' ', ' '] ∧ '\t' ∉ t.expandTabs 4 ∧
      (breaksLine '\r' = true ∧ t.expandTabs 4 =
        expandTabs 4 ['é', 'b', '\t', '\t'] ++ '\r' :: expandTabs 4 ['\t']) ∧
      (t.expandTabs 4).expandTabs 4 = t.expandTabs 4 ∧
      ('\t' ∉ ['b', ' '] ∧ expandTabs 4 ['b', ' '] = ['b', ' '] ∧ expandTabsFrom 4 0 ['b', ' '] = ['b', ' ']) := by
  intro t
  obtain ⟨hexpansion, htab, hbreak, htwice, -⟩ := expandTabs_exact 4 t
  have hnone : '\t' ∉ ['b', ' '] := by decide
  have hplain := (expandTabs_exact 4 ['b', ' ']).2.2.2.2 hnone
  exact ⟨(hexpansion _).mpr (by decide), htab, ⟨rfl, hbreak ['é', 'b', '\t', '\t'] '\r' ['\t'] rfl⟩, htwice, hnone,
    hplain⟩

end Packrat.Text
