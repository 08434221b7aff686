import Packrat.Text.Basic

/-!
# `Packrat.Lines` — the lines of a text

Lines are separated by `\n` alone and counted from zero; columns count characters, so that a caret under a
line points at the right glyph. The index of a text is the list of the positions at which its lines start.
-/

namespace Packrat

/-- Where the lines of a text start, and how many bytes the text has. -/
structure Lines where
  starts : List Nat
  size : Nat
deriving DecidableEq, Repr, Inhabited

/-- A line and a column in it, both counted from zero. -/
structure Place where
  line : Nat
  column : Nat
deriving DecidableEq, Repr, Inhabited

namespace Lines

/-- The positions just past each newline of a text that starts at `base`. -/
def breaksFrom (base : Nat) : Text → List Nat
  | [] => []
  | c :: r =>
    let after := base + c.utf8Size
    if c == '\n' then after :: breaksFrom after r else breaksFrom after r

/-- The line index of a text. -/
def ofText (t : Text) : Lines := ⟨0 :: breaksFrom 0 t, t.size⟩

/-- How many lines there are; a text without newline has one. -/
def count (ls : Lines) : Nat := ls.starts.length

/-- The position at which a line starts. -/
def start? (ls : Lines) (line : Nat) : Option Nat := ls.starts[line]?

/-- The index at which halving a list of positions ends: the second half is kept unless it begins past `p`. -/
def nearest (p : Nat) (positions : List Nat) : Nat :=
  let half := positions.length / 2
  if half = 0 then 0
  else if (positions.drop half).head?.any (p < ·) then nearest p (positions.take (positions.length - half))
  else half + nearest p (positions.drop half)
termination_by positions.length
decreasing_by all_goals simp only [List.length_take, List.length_drop]; omega

/-- The line that holds a position, looked up by halving: the last one that starts at or before it. -/
def lineOf (ls : Lines) (p : Nat) : Nat :=
  let line := nearest p ls.starts
  if (ls.start? line).any (p < ·) then line - 1 else line

/-- The place of a position, which is first cut down to the end of the text. Inside a character the column
counts bytes. -/
def place (ls : Lines) (t : Text) (p : Nat) : Place :=
  let p := min p ls.size
  let line := ls.lineOf p
  let start := (ls.start? line).getD 0
  let column := match t.slice? start p with
    | some part => part.length
    | none => p - start
  ⟨line, column⟩

/-- The text of a line, without its newline; nothing for a line that does not exist. -/
def text (ls : Lines) (t : Text) (line : Nat) : Text :=
  match ls.start? line with
  | none => []
  | some start =>
    let stop := match ls.start? (line + 1) with
      | some following => following - 1
      | none => ls.size
    t.slice start stop

end Lines
end Packrat
