import Packrat.Text.Basic

/-!
# `Packrat.Text.Tabs` — tab stops

Before matching, each tab of a text is replaced by the spaces that lead to the next tab stop, so that
reported columns are the ones an editor shows. A column counts the characters written since the last line
break, and both `\n` and `\r` break lines.
-/

namespace Packrat.Text

/-- How many spaces lead from a column to the next multiple of `width`; none when stops have no width. -/
def padding (width column : Nat) : Nat :=
  if width = 0 then 0 else width - column % width

/-- A character after which columns are counted from zero. -/
def breaksLine (c : Char) : Bool := c == '\n' || c == '\r'

/-- Tab expansion of a text that starts at the given column. -/
def expandTabsFrom (width : Nat) : (column : Nat) → Text → Text
  | _, [] => []
  | column, c :: r =>
    if c == '\t' then
      List.replicate (padding width column) ' ' ++ expandTabsFrom width (column + padding width column) r
    else
      c :: expandTabsFrom width (if breaksLine c then 0 else column + 1) r

/-- The text with every tab replaced by the spaces up to the next tab stop; a text without tabs is taken as it is. -/
def expandTabs (width : Nat) (t : Text) : Text := if t.contains '\t' then expandTabsFrom width 0 t else t

/-- Without tabs there is nothing to expand. -/
theorem expandTabsFrom_eq_self {t : Text} (h : '\t' ∉ t) (width column : Nat) : expandTabsFrom width column t = t := by
  induction t generalizing column with
  | nil => rfl
  | cons c r ih =>
    obtain ⟨hc, hr⟩ := not_or.mp (mt List.mem_cons.mpr h)
    rw [expandTabsFrom, if_neg (by simpa using Ne.symm hc), ih hr]

/-- Expanding a text without tabs comes to the text itself as well. -/
theorem expandTabs_eq_from (width : Nat) (t : Text) : t.expandTabs width = expandTabsFrom width 0 t := by
  unfold expandTabs
  split
  · rfl
  · next h => exact (expandTabsFrom_eq_self (by simpa using h) width 0).symm

end Packrat.Text
