import Mathlib.Tactic
import Mathlib.Data.List.TakeWhile
import Packrat.Parser
import Packrat.Proofs.Layout.Tabs

/-!
# `Packrat.Proofs.AnyOrder.Spaced` — texts made of pieces with blanks between them

## Contents

* `Spaced` — pieces in their order, with blanks before, between and after them, with `append`;
* `Spaced.dropWhile_nil`, `Spaced.dropWhile_cons` — what is left past the blanks;
* `Spaced.expandTabs` — expanding tabs changes the blanks only.
-/

namespace Packrat

variable {set : Char → Bool}

/-- A text is made of pieces in their order, with runs of characters of a set before, between and after them. -/
inductive Spaced (set : Char → Bool) : List Text → Text → Prop
  | nil {blanks : Text} (h : ∀ ch ∈ blanks, set ch = true) : Spaced set [] blanks
  | cons {blanks piece t : Text} {pieces : List Text} (h : ∀ ch ∈ blanks, set ch = true)
    (hrest : Spaced set pieces t) : Spaced set (piece :: pieces) (blanks ++ (piece ++ t))

namespace Spaced

variable {piece t t' : Text} {pieces pieces' : List Text}

/-- Blanks may be added in front. -/
theorem blanks_append {blanks : Text} (h : ∀ ch ∈ blanks, set ch = true) (ht : Spaced set pieces t) :
    Spaced set pieces (blanks ++ t) := by
  have hboth {blanks' : Text} (h' : ∀ ch ∈ blanks', set ch = true) : ∀ ch ∈ blanks ++ blanks', set ch = true := by
    intro ch hch
    exact (List.mem_append.mp hch).elim (h ch) (h' ch)
  cases ht with
  | nil h' => exact .nil (hboth h')
  | cons h' hrest =>
    rw [← List.append_assoc]
    exact .cons (hboth h') hrest

theorem append (h : Spaced set pieces t) (h' : Spaced set pieces' t') : Spaced set (pieces ++ pieces') (t ++ t') := by
  induction h with
  | nil h => exact blanks_append h h'
  | cons h _ ih =>
    rw [List.append_assoc, List.append_assoc]
    exact .cons h ih

/-- A piece may be put in front. -/
theorem piece_append (ht : Spaced set pieces t) : Spaced set (piece :: pieces) (piece ++ t) := by
  have h : Spaced set (piece :: pieces) ([] ++ (piece ++ t)) := .cons (by simp) ht
  exact h

/-- A piece alone is spaced. -/
theorem single (piece : Text) : Spaced set [piece] piece := by
  have h : Spaced set [piece] (piece ++ []) := piece_append (.nil (by simp))
  simpa using h

theorem dropWhile_blanks {blanks : Text} (h : ∀ ch ∈ blanks, set ch = true) (t : Text) :
    (blanks ++ t).dropWhile set = t.dropWhile set := by
  induction blanks with
  | nil => rfl
  | cons ch blanks ih =>
    obtain ⟨hch, hblanks⟩ := List.forall_mem_cons.mp h
    rw [List.cons_append, List.dropWhile_cons_of_pos hch, ih hblanks]

/-- Without pieces there are only blanks. -/
theorem dropWhile_nil (h : Spaced set [] t) : t.dropWhile set = [] := by
  cases h with
  | nil h => exact List.dropWhile_eq_nil_iff.mpr h

/-- Past the blanks stands the first piece, if that does not start with a blank. -/
theorem dropWhile_cons (h : Spaced set (piece :: pieces) t) (hstart : ∃ ch ∈ piece.head?, set ch = false) :
    ∃ t', t.dropWhile set = piece ++ t' ∧ Spaced set pieces t' := by
  cases h with
  | @cons blanks _ t' _ h hrest =>
    refine ⟨t', ?_, hrest⟩
    obtain ⟨ch, hch, hout⟩ := hstart
    cases piece with
    | nil => exact absurd hch (by simp)
    | cons ch' piece =>
      obtain rfl : ch' = ch := by simpa using hch
      rw [dropWhile_blanks h, List.cons_append, List.dropWhile_cons_of_neg (by simp [hout])]

end Spaced

/-! ## Tabs -/

namespace Text

/-- Blanks are expanded to blanks, if the tab is none or the space is one. -/
theorem forall_mem_expandTabsFrom {blanks : Text} (h : ∀ ch ∈ blanks, set ch = true)
    (hspace : set '\t' = true → set ' ' = true) (width column : Nat) :
    ∀ ch ∈ expandTabsFrom width column blanks, set ch = true := by
  induction blanks generalizing column with
  | nil => exact fun ch hch => absurd hch List.not_mem_nil
  | cons ch blanks ih =>
    obtain ⟨hch, hblanks⟩ := List.forall_mem_cons.mp h
    rw [expandTabsFrom]
    split
    · next htab =>
      obtain rfl : ch = '\t' := by simpa using htab
      intro ch' hch'
      rcases List.mem_append.mp hch' with hch' | hch'
      · rw [List.eq_of_mem_replicate hch']
        exact hspace hch
      · exact ih hblanks _ ch' hch'
    · exact List.forall_mem_cons.mpr ⟨hch, ih hblanks _⟩

end Text

/-- **Expanding tabs changes the blanks only**, if no piece has a tab in it. -/
theorem Spaced.expandTabs {pieces : List Text} {t : Text} (h : Spaced set pieces t) (hpieces : ∀ piece ∈ pieces, '\t' ∉ piece)
    (hspace : set '\t' = true → set ' ' = true) (width column : Nat) :
    Spaced set pieces (t.expandTabsFrom width column) := by
  induction h generalizing column with
  | nil h => exact .nil (Text.forall_mem_expandTabsFrom h hspace width column)
  | @cons blanks piece t pieces h _ ih =>
    obtain ⟨hpiece, hpieces⟩ := List.forall_mem_cons.mp hpieces
    rw [Text.expandTabsFrom_append, Text.expandTabsFrom_append, Text.expandTabsFrom_eq_self hpiece]
    exact .cons (Text.forall_mem_expandTabsFrom h hspace width column) (ih hpieces _)

/-- A text of pieces is matched as a text of the same pieces, if tabs are kept or lie between the pieces. -/
theorem Spaced.viewOf {pieces : List Text} {t : Text} (h : Spaced set pieces t) {config : Config}
    (hview : config.keepTabs = true ∨
      (∀ piece ∈ pieces, '\t' ∉ piece) ∧ (set '\t' = true → set ' ' = true)) :
    Spaced set pieces (viewOf config t) := by
  unfold Packrat.viewOf
  cases hkeep : config.keepTabs with
  | true => exact h
  | false =>
    rw [hkeep] at hview
    obtain ⟨hpieces, hspace⟩ := hview.resolve_left Bool.false_ne_true
    rw [if_neg Bool.false_ne_true, Text.expandTabs_eq_from]
    exact h.expandTabs hpieces hspace config.tabSize 0

end Packrat
