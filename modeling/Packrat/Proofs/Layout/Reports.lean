import Mathlib.Data.List.DropRight
import Packrat.Diagnostic
import Packrat.Proofs.Layout.Lines

/-!
# `Packrat.Proofs.Layout.Reports` — where a report says a failure is

A report counts three things up to a place: bytes, characters and lines. They come from an index of line starts and from
cuts of the text at positions. Here they are told from the text before the place and the text behind it, of which the last
line of the one and the first of the other make up the line of the failure.

## Contents

* `lineBefore`, `lineAfter` — the line of a place, up to the place and from there on;
* `place_append`, `text_append` — what an index says of a place;
* `Report.of_append` — a report, from the text before the failure and behind it;
* `Report.Locates`, `report_locates` — **reports locate the failure exactly**, and the lines of an index are the text.
-/

namespace Packrat

/-! ## The line of a place -/

namespace Text

/-- The characters between the last newline of a text and its end. -/
def lineBefore (a : Text) : Text := a.rtakeWhile (· != '\n')

/-- The characters of a text up to its first newline. -/
def lineAfter (b : Text) : Text := b.takeWhile (· != '\n')

theorem newline_notMem_lineBefore (a : Text) : '\n' ∉ lineBefore a := fun h =>
  absurd (List.mem_rtakeWhile_imp h) (by decide)

theorem newline_notMem_lineAfter (b : Text) : '\n' ∉ lineAfter b := fun h =>
  absurd (List.mem_takeWhile_imp h) (by decide)

theorem exists_startsLine_append (a : Text) : ∃ front, front ++ lineBefore a = a ∧ Lines.StartsLine front := by
  refine ⟨a.rdropWhile (· != '\n'), List.rdropWhile_append_rtakeWhile, ?_⟩
  induction a using List.reverseRecOn with
  | nil => exact Or.inl rfl
  | append_singleton a c ih =>
    rw [List.rdropWhile_concat]
    split
    · exact ih
    · next hc => exact Or.inr ⟨a, by simpa using hc⟩

theorem exists_append_endsLine (b : Text) : ∃ back, lineAfter b ++ back = b ∧ Lines.EndsLine back := by
  refine ⟨b.dropWhile (· != '\n'), List.takeWhile_append_dropWhile, ?_⟩
  induction b with
  | nil => exact Or.inl rfl
  | cons c b ih =>
    rw [List.dropWhile_cons]
    split
    · exact ih
    · next hc => exact Or.inr ⟨b, by simpa using hc⟩

end Text

/-! ## What an index says of a place -/

namespace Lines

open Text

/-- The newlines of a text all stand before its last line. -/
theorem count_eq_of_append {front a : Text} (h : front ++ lineBefore a = a) : a.count '\n' = front.count '\n' := by
  have hline : (lineBefore a).count '\n' = 0 := List.count_eq_zero_of_not_mem (newline_notMem_lineBefore a)
  calc a.count '\n'
    _ = (front ++ lineBefore a).count '\n' := by rw [h]
    _ = front.count '\n' := by rw [List.count_append, hline, Nat.add_zero]

theorem start?_append (a b : Text) : ∃ start, (ofText (a ++ b)).start? (a.count '\n') = some start ∧
    start + (lineBefore a).size = a.size ∧ (a ++ b).slice? start a.size = some (lineBefore a) := by
  obtain ⟨front, hfront, hstarts⟩ := exists_startsLine_append a
  have hsize : front.size + (lineBefore a).size = a.size := by rw [← size_append, hfront]
  have htext : a ++ b = front ++ (lineBefore a ++ b) := by rw [← List.append_assoc, hfront]
  refine ⟨front.size, ?_, hsize, ?_⟩
  · rw [count_eq_of_append hfront, htext]
    exact start?_line hstarts _
  · rw [htext, ← hsize]
    exact slice?_append_append _ _ _

theorem place_append (a b : Text) :
    (ofText (a ++ b)).place (a ++ b) a.size = ⟨a.count '\n', (lineBefore a).length⟩ := by
  obtain ⟨start, hstart, -, hslice⟩ := start?_append a b
  have hmin : min a.size (ofText (a ++ b)).size = a.size := by
    show min a.size (a ++ b).size = _
    rw [size_append]
    omega
  simp only [place, hmin, lineOf_append, hstart, Option.getD_some, hslice]

theorem text_append (a b : Text) :
    (ofText (a ++ b)).text (a ++ b) (a.count '\n') = lineBefore a ++ lineAfter b := by
  obtain ⟨front, hfront, hstarts⟩ := exists_startsLine_append a
  obtain ⟨back, hback, hends⟩ := exists_append_endsLine b
  have htext : a ++ b = front ++ ((lineBefore a ++ lineAfter b) ++ back) := by
    rw [List.append_assoc, hback, ← List.append_assoc, hfront]
  have hline : '\n' ∉ lineBefore a ++ lineAfter b := by
    rw [List.mem_append, not_or]
    exact ⟨newline_notMem_lineBefore a, newline_notMem_lineAfter b⟩
  rw [count_eq_of_append hfront, htext]
  exact text_line hstarts hline hends

end Lines

/-! ## Reports -/

open Text

namespace Report

/-- A report on a failure, from the text before it and the text behind it. -/
theorem of_append (a b : Text) (message : String) : Report.of (a ++ b) ⟨a.size, message⟩ =
    { diagnostic := ⟨a.size, message⟩
      charIndex := a.length
      line := a.count '\n' + 1
      column := (lineBefore a).length + 1
      lineText := lineBefore a ++ lineAfter b
      lineOffset := (lineBefore a).size
      found := b.head? } := by
  obtain ⟨start, hstart, hsize, -⟩ := Lines.start?_append a b
  have hmin : min a.size (a ++ b).size = a.size := by
    rw [size_append]
    omega
  have hoffset : a.size - start = (lineBefore a).size := by omega
  simp only [Report.of, hmin, take?_append, Lines.place_append, Lines.text_append, hstart, Option.getD_some, hoffset,
    charAt?, rest_append]

/-- A report says where a place of a text is. -/
structure Locates (r : Report) (t : Text) (p : Nat) : Prop where
  /-- The lines before the place are those that newlines end there. -/
  line : r.line = 1 + (t.before p).count '\n'
  /-- The column is the number of characters since the last newline. -/
  column : r.column = 1 + ((t.before p).rtakeWhile (· != '\n')).length
  charIndex : r.charIndex = (t.before p).length
  /-- At the end of the text nothing is found. -/
  found : r.found = (t.rest p).head?
  /-- The text of the line is what stands around the place, up to the next newlines. -/
  lineText : r.lineText = (t.before p).rtakeWhile (· != '\n') ++ (t.rest p).takeWhile (· != '\n')
  /-- It is the line of that number when the text is cut at its newlines. -/
  lineText_mem : (t.splitOn '\n')[r.line - 1]? = some r.lineText
  /-- The place is as many bytes behind the start of the line as the characters before the column take. -/
  offset : ∃ start, (Lines.ofText t).start? (r.line - 1) = some start ∧
    p = start + size (r.lineText.take (r.column - 1))
  /-- The marker is put before the column. -/
  marked : ∀ marker, r.markLine? marker =
    some (String.ofList (r.lineText.take (r.column - 1)) ++ marker ++ String.ofList (r.lineText.drop (r.column - 1)))

theorem locates_append (a b : Text) (message : String) :
    (Report.of (a ++ b) ⟨a.size, message⟩).Locates (a ++ b) a.size := by
  obtain ⟨start, hstart, hsize, -⟩ := Lines.start?_append a b
  -- the characters of the line before the column are those before the place
  have htake : (lineBefore a ++ lineAfter b).take (lineBefore a).length = lineBefore a := List.take_left
  have hdrop : (lineBefore a ++ lineAfter b).drop (lineBefore a).length = lineAfter b := List.drop_left
  have hlt : a.count '\n' < (Lines.ofText (a ++ b)).count := by
    show _ < (Lines.breaksFrom 0 (a ++ b)).length + 1
    rw [Lines.length_breaksFrom, List.count_append]
    omega
  have hmin : min (lineBefore a).size (lineBefore a ++ lineAfter b).size = (lineBefore a).size := by
    rw [size_append]
    omega
  rw [of_append]
  refine {
    line := ?line
    column := ?column
    charIndex := ?charIndex
    found := ?found
    lineText := ?lineText
    lineText_mem := ?lineText_mem
    offset := ?offset
    marked := ?marked }
  case line => rw [before_append, Nat.add_comm]
  case column =>
    rw [before_append]
    exact Nat.add_comm _ 1
  case charIndex => rw [before_append]
  case found => rw [rest_append]
  case lineText => rw [before_append, rest_append, lineBefore, lineAfter]
  case lineText_mem =>
    rw [← Lines.texts_eq_splitOn, Nat.add_sub_cancel, List.getElem?_map, List.getElem?_range hlt, Option.map_some,
      Lines.text_append]
  case offset =>
    refine ⟨start, hstart, ?_⟩
    rw [Nat.add_sub_cancel, htake, hsize]
  case marked =>
    intro marker
    simp only [markLine?, hmin, take?_append, drop?_append, Nat.add_sub_cancel, htake, hdrop, Option.bind_eq_bind,
      Option.bind_some, pure]

end Report

/-- **Reports locate the failure exactly.** A report on a failure at a place of a text says its line, its column, the
character there and the text of its line, and marks the line there. The texts of all lines, with newlines between them,
are the text. -/
theorem report_locates (t : Text) (d : Diagnostic) (h : t.IsBoundary d.position) :
    (Report.of t d).Locates t d.position ∧
      ['\n'].intercalate ((List.range (Lines.ofText t).count).map ((Lines.ofText t).text t)) = t := by
  refine ⟨?_, ?_⟩
  · obtain ⟨position, message⟩ := d
    obtain ⟨a, b, rfl, hsize⟩ := isBoundary_iff.mp h
    obtain rfl : a.size = position := hsize
    exact Report.locates_append a b message
  · rw [Lines.texts_eq_splitOn]
    exact List.intercalate_splitOn '\n'

/-- The witness: a failure on the second line, behind a character of two bytes and before the newline at the end. -/
theorem report_locates_secondLine :
    Text.IsBoundary ['a', '\n', 'é', 'x', '\n'] 4 ∧
      (Report.of ['a', '\n', 'é', 'x', '\n'] ⟨4, "Expected 'y'"⟩).Locates ['a', '\n', 'é', 'x', '\n'] 4 :=
  have h : Text.IsBoundary ['a', '\n', 'é', 'x', '\n'] 4 := by decide
  ⟨h, (report_locates _ ⟨4, "Expected 'y'"⟩ h).1⟩

end Packrat
