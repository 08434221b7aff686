import Packrat.Pattern.Matching

/-!
# `Packrat.Pattern.Reader` — reading patterns

A pattern is read from left to right, with the flags in force and the groups opened so far. Reading fails on
anything that is not understood: unbalanced brackets, a repetition of nothing, an unknown escape, a group name
used twice. Look-around and references back to groups are not part of patterns.

## Contents

* `Flags` — case, lines, the dot, blanks;
* `Reader` — what is left to read, and what was read so far;
* `readEscape?`, `readClass?`, `readRepetition?`, `readGroup?` — the parts;
* `Pattern.read?` — whole patterns.
-/

namespace Packrat.Pattern

/-- How a pattern is to be understood. -/
structure Flags where
  caseless : Bool := false
  /-- `^` and `$` match at line boundaries. -/
  multiLine : Bool := false
  /-- `.` matches a newline too. -/
  dotNewline : Bool := false
  /-- Blanks and comments in the pattern are left out. -/
  ignoreBlanks : Bool := false
  /-- Greedy and lazy repetition change places. -/
  swapGreed : Bool := false
deriving DecidableEq, Repr, Inhabited

/-- What is left of a pattern, the flags in force, the index of the next group, and the names given. -/
structure Reader where
  rest : Text
  flags : Flags
  nextIndex : Nat := 1
  names : List GroupName := []
deriving DecidableEq, Repr, Inhabited

namespace Reader

/-- The text after a comment: what follows the next newline. -/
def afterComment (t : Text) : Text := (t.dropWhile (· != '\n')).drop 1

/-- Leaves out blanks and comments at the front of a text. -/
def dropBlanks : (fuel : Nat) → Text → Text
  | 0, t => t
  | fuel + 1, t =>
    match t with
    | '#' :: r => dropBlanks fuel (afterComment r)
    | c :: r => if Text.isBlank c then dropBlanks fuel r else c :: r
    | [] => []

/-- Leaves out blanks and comments, if the flags say so. -/
def skipBlanks (r : Reader) : Reader :=
  if r.flags.ignoreBlanks then { r with rest := dropBlanks r.rest.length r.rest } else r

/-- The reader further along. -/
def «at» (r : Reader) (rest : Text) : Reader := { r with rest }

/-- The reader further along, with blanks left out. -/
def past (r : Reader) (rest : Text) : Reader := (r.at rest).skipBlanks

/-- The first character after the next one, blanks left out. -/
def peek? (r : Reader) : Option Char := ((r.at (r.rest.drop 1)).skipBlanks).rest.head?

end Reader

/-! ## Escapes -/

/-- What an escape stands for. -/
inductive Escape
  | char (c : Char)
  | set (c : CharClass)
  | test (a : Assertion)
deriving DecidableEq, Repr, Inhabited

/-- The value of a hexadecimal digit. -/
def hexDigit? (c : Char) : Option Nat :=
  if '0' ≤ c ∧ c ≤ '9' then some (c.toNat - 48)
  else if 'a' ≤ c ∧ c ≤ 'f' then some (c.toNat - 87)
  else if 'A' ≤ c ∧ c ≤ 'F' then some (c.toNat - 55)
  else none

/-- The number that hexadecimal digits spell. -/
def hexValue? (t : Text) : Option Nat :=
  t.foldl (fun n c => n.bind fun n => (hexDigit? c).map (16 * n + ·)) (some 0)

/-- The character of a code point, if it is one. -/
def charOfCode? (n : Nat) : Option Char := if n.isValidChar then some (Char.ofNat n) else none

/-- Reads a code point: in braces any number of hexadecimal digits, otherwise `count` of them. -/
def readCodePoint? (count : Nat) (t : Text) : Option (Char × Text) :=
  match t with
  | '\x7b' :: r =>
    let digits := r.takeWhile (· != '\x7d')
    match r.dropWhile (· != '\x7d') with
    | _ :: after =>
      if digits.isEmpty then none
      else (hexValue? digits).bind fun n => (charOfCode? n).map (·, after)
    | [] => none
  | _ =>
    if t.length < count then none
    else (hexValue? (t.take count)).bind fun n => (charOfCode? n).map (·, t.drop count)

/-- The class of a named property. -/
def property? (name : Text) : Option CharClass :=
  match String.ofList name with
  | "L" | "Letter" => some .letter
  | "Nd" | "Decimal_Number" => some .digit
  | "White_Space" | "Space" | "space" => some .blank
  | _ => none

/-- Reads the name of a property: one letter, or a name in braces. -/
def readProperty? (t : Text) : Option (CharClass × Text) :=
  match t with
  | '\x7b' :: r =>
    match r.dropWhile (· != '\x7d') with
    | _ :: after => (property? (r.takeWhile (· != '\x7d'))).map (·, after)
    | [] => none
  | c :: r => (property? [c]).map (·, r)
  | [] => none

/-- A character that may be escaped to stand for itself: any within ASCII but letters, digits and angle
brackets. -/
def standsForItself (c : Char) : Bool := c.toNat < 0x80 && !c.isAlphanum && c != '<' && c != '>'

/-- Reads an escape, after its backslash. -/
def readEscape? (caseless : Bool) (t : Text) : Option (Escape × Text) :=
  match t with
  | [] => none
  | 'x' :: r => (readCodePoint? 2 r).map fun (c, r) => (.char c, r)
  | 'u' :: r => (readCodePoint? 4 r).map fun (c, r) => (.char c, r)
  | 'U' :: r => (readCodePoint? 8 r).map fun (c, r) => (.char c, r)
  | 'p' :: r => (readProperty? r).map fun (c, r) => (.set (.foldIf caseless c), r)
  | 'P' :: r => (readProperty? r).map fun (c, r) => (.set (.negate (.foldIf caseless c)), r)
  | 'd' :: r => some (.set .digit, r)
  | 's' :: r => some (.set .blank, r)
  | 'w' :: r => some (.set .word, r)
  | 'D' :: r => some (.set (.negate .digit), r)
  | 'S' :: r => some (.set (.negate .blank), r)
  | 'W' :: r => some (.set (.negate .word), r)
  | 'a' :: r => some (.char '\x07', r)
  | 'f' :: r => some (.char '\x0c', r)
  | 't' :: r => some (.char '\t', r)
  | 'n' :: r => some (.char '\n', r)
  | 'r' :: r => some (.char '\r', r)
  | 'v' :: r => some (.char '\x0b', r)
  | 'A' :: r => some (.test .startText, r)
  | 'z' :: r => some (.test .endText, r)
  | 'b' :: r => some (.test .wordBoundary, r)
  | 'B' :: r => some (.test .notWordBoundary, r)
  | c :: r => if standsForItself c then some (.char c, r) else none

/-! ## Classes in brackets -/

/-- A member of a bracketed class: a character, which may begin a range, or a class. -/
inductive Member
  | char (c : Char)
  | set (c : CharClass)
deriving DecidableEq, Repr, Inhabited

/-- A member as a class. -/
def Member.toClass : Member → CharClass
  | .char c => .single c
  | .set c => c

/-- Reads a member. -/
def readMember? (r : Reader) : Option (Member × Reader) :=
  match r.rest with
  | [] => none
  | '\\' :: t =>
    match readEscape? r.flags.caseless t with
    | some (.char c, t) => some (.char c, r.at t)
    | some (.set c, t) => some (.set c, r.at t)
    | _ => none
  | c :: t => some (.char c, r.at t)

/-- Reads a member or a range of characters. A hyphen before the closing bracket or before another hyphen makes
no range. -/
def readRange? (r : Reader) : Option (CharClass × Reader) := do
  let (first, r) ← readMember? r
  let r := r.skipBlanks
  let isRange := r.rest.head? == some '-' && r.peek? != some ']' && r.peek? != some '-'
  if !isRange then return (first.toClass, r)
  let (last, r) ← readMember? (r.past (r.rest.drop 1))
  match first, last with
  | .char a, .char b => if a ≤ b then return (.ranges [(a.toNat, b.toNat)], r) else none
  | _, _ => none

/-- Reads the name of an ASCII class between `[:` and `:]`. -/
def readAscii? (t : Text) : Option (CharClass × Text) :=
  match t with
  | '[' :: ':' :: r =>
    let (negated, r) := match r with
      | '^' :: r => (true, r)
      | r => (false, r)
    match r.dropWhile (· != ':') with
    | ':' :: ']' :: after =>
      (CharClass.ascii? (String.ofList (r.takeWhile (· != ':')))).map fun c => (.negateIf negated c, after)
    | _ => none
  | _ => none

/-- How two classes are combined. -/
inductive SetOp
  | inter
  | diff
  | symDiff
deriving DecidableEq, Repr, Inhabited

/-- Two classes combined; under case folding each side is closed under case first. -/
def SetOp.combine (op : SetOp) (caseless : Bool) (a b : CharClass) : CharClass :=
  let a := CharClass.foldIf caseless a
  let b := CharClass.foldIf caseless b
  match op with
  | .inter => .inter a b
  | .diff => .diff a b
  | .symDiff => .symDiff a b

/-- A bracketed class that is being read: what comes before the last operator, and the members since. -/
structure OpenClass where
  negated : Bool
  left : Option (CharClass × SetOp)
  members : CharClass
deriving DecidableEq, Repr, Inhabited

namespace OpenClass

/-- A further member. -/
def add (o : OpenClass) (c : CharClass) : OpenClass := { o with members := .union o.members c }

/-- The class read so far, operators applied from left to right. -/
def soFar (o : OpenClass) (caseless : Bool) : CharClass :=
  match o.left with
  | some (a, op) => op.combine caseless a o.members
  | none => o.members

/-- An operator, after which members are collected anew. -/
def operator (o : OpenClass) (caseless : Bool) (op : SetOp) : OpenClass :=
  { o with left := some (o.soFar caseless, op), members := .none }

/-- The class when its bracket closes. -/
def close (o : OpenClass) (caseless : Bool) : CharClass :=
  .negateIf o.negated (.foldIf caseless (o.soFar caseless))

end OpenClass

/-- Leading hyphens of a class, each of which stands for itself. -/
def readHyphens (r : Reader) (o : OpenClass) : (fuel : Nat) → OpenClass × Reader
  | 0 => (o, r)
  | fuel + 1 =>
    match r.rest with
    | '-' :: t => readHyphens (r.past t) (o.add (.single '-')) fuel
    | _ => (o, r)

/-- Reads the opening of a class: the bracket, a caret, and hyphens or a bracket that stand for themselves. -/
def openClass? (r : Reader) : Option (OpenClass × Reader) :=
  match r.rest with
  | '[' :: t =>
    let r := r.past t
    let (negated, r) := match r.rest with
      | '^' :: t => (true, r.past t)
      | _ => (false, r)
    let (o, s) := readHyphens r ⟨negated, none, .none⟩ r.rest.length
    match s.rest with
    | [] => none
    | ']' :: t =>
      if s.rest.length = r.rest.length then some (o.add (.single ']'), s.past t) else some (o, s)
    | _ => some (o, s)
  | _ => none

/-- Reads the members of the innermost open class up to the bracket that closes the outermost one. -/
def readMembers? : (fuel : Nat) → Reader → OpenClass → (outer : List OpenClass) → Option (CharClass × Reader)
  | 0, _, _, _ => none
  | fuel + 1, r, o, outer =>
    let r := r.skipBlanks
    let caseless := r.flags.caseless
    match r.rest with
    | [] => none
    | '[' :: _ =>
      match readAscii? r.rest with
      | some (c, t) => readMembers? fuel (r.at t) (o.add c) outer
      | none => (openClass? r).bind fun (inner, r) => readMembers? fuel r inner (o :: outer)
    | ']' :: t =>
      match outer with
      | [] => some (o.close caseless, r.at t)
      | parent :: outer => readMembers? fuel (r.at t) (parent.add (o.close caseless)) outer
    | '&' :: '&' :: t => readMembers? fuel (r.at t) (o.operator caseless .inter) outer
    | '-' :: '-' :: t => readMembers? fuel (r.at t) (o.operator caseless .diff) outer
    | '~' :: '~' :: t => readMembers? fuel (r.at t) (o.operator caseless .symDiff) outer
    | _ => (readRange? r).bind fun (c, r) => readMembers? fuel r (o.add c) outer

/-- Reads a bracketed class. -/
def readClass? (r : Reader) : Option (CharClass × Reader) :=
  (openClass? r).bind fun (o, s) => readMembers? (r.rest.length + 1) s o []

/-! ## Repetition -/

/-- Reads a decimal number with blanks around it. -/
def readCount? (t : Text) : Option (Nat × Text) :=
  let t := t.dropWhile Text.isBlank
  let digits := t.takeWhile Char.isDigit
  if digits.isEmpty then none
  else
    let n := digits.foldl (fun n c => 10 * n + (c.toNat - 48)) 0
    if UInt32.size ≤ n then none else some (n, (t.dropWhile Char.isDigit).dropWhile Text.isBlank)

/-- Reads the bounds of a repetition, after the opening brace. -/
def readBounds? (r : Reader) : Option (Nat × Option Nat × Reader) := do
  let (min, t) ← readCount? r.skipBlanks.rest
  match t with
  | '\x7d' :: t => return (min, some min, r.past t)
  | ',' :: t =>
    match (r.past t).rest with
    | '\x7d' :: t => return (min, none, r.past t)
    | t =>
      let (max, t) ← readCount? t
      match t with
      | '\x7d' :: t => if min ≤ max then return (min, some max, r.past t) else none
      | _ => none
  | _ => none

/-- Reads a question mark that makes the repetition before it lazy. -/
def readLazy (r : Reader) : Bool × Reader :=
  match r.rest with
  | '?' :: t => (r.flags.swapGreed, r.at t)
  | _ => (!r.flags.swapGreed, r)

/-! ## Groups and flags -/

/-- What the letters of a group set and unset. -/
def setFlag? (value : Bool) (f : Flags) : Char → Option Flags
  | 'i' => some { f with caseless := value }
  | 'm' => some { f with multiLine := value }
  | 's' => some { f with dotNewline := value }
  | 'x' => some { f with ignoreBlanks := value }
  | 'U' => some { f with swapGreed := value }
  | 'u' => if value then some f else none
  | _ => none

/-- Reads the letters of a group up to the colon or parenthesis that ends them. No letter may occur twice, the
hyphen that begins the letters to unset may occur once, and a letter must follow it. -/
def readFlags? (value : Bool) (seen : List Char) (f : Flags) : Text → Option (Flags × List Char × Text)
  | [] => none
  | c :: r =>
    if c = ':' ∨ c = ')' then
      if seen.head? == some '-' then none else some (f, seen, c :: r)
    else if seen.contains c then none
    else if c = '-' then readFlags? false (c :: seen) f r
    else (setFlag? value f c).bind fun f => readFlags? value (c :: seen) f r

/-- A character of a group name; the first one must be a letter or an underscore. -/
def isNameChar (first : Bool) (c : Char) : Bool :=
  if first then c == '_' || Text.isLetter c
  else c == '_' || c == '.' || c == '[' || c == ']' || Text.isLetter c || Text.isDecimalDigit c

/-- Reads a group name up to its closing angle bracket. -/
def readName? (t : Text) : Option (String × Text) :=
  let name := t.takeWhile (· != '>')
  match name, t.dropWhile (· != '>') with
  | c :: cs, _ :: after =>
    if isNameChar true c && cs.all (isNameChar false) then some (String.ofList (c :: cs), after) else none
  | _, _ => none

/-- What an opening parenthesis begins. -/
inductive Opening
  /-- A group that captures under an index. -/
  | capture (index : Nat)
  /-- A group that only holds together. -/
  | plain
  /-- No group: flags for the rest of the group around it. -/
  | flags
deriving DecidableEq, Repr, Inhabited

/-- Reads the opening of a named group, after its angle bracket. -/
def openNamed? (r : Reader) (t : Text) : Option (Opening × Reader) := do
  let (name, t) ← readName? t
  if r.names.any (·.name == name) then none
  else return (.capture r.nextIndex,
    { r with rest := t, nextIndex := r.nextIndex + 1, names := r.names ++ [⟨r.nextIndex, name⟩] })

/-- Reads what follows an opening parenthesis. -/
def openGroup? (r : Reader) (t : Text) : Option (Opening × Reader) :=
  match (r.past t).rest with
  | '?' :: 'P' :: '<' :: t => openNamed? r t
  | '?' :: '<' :: '=' :: _ | '?' :: '<' :: '!' :: _ => none
  | '?' :: '<' :: t => openNamed? r t
  | '?' :: t =>
    match readFlags? true [] r.flags t with
    | some (f, _, ':' :: t) => some (.plain, { r with rest := t, flags := f })
    | some (f, _ :: _, ')' :: t) => some (.flags, { r with rest := t, flags := f })
    | _ => none
  | t => some (.capture r.nextIndex, { r with rest := t, nextIndex := r.nextIndex + 1 })

/-! ## Whole patterns -/

/-- What has been read of an alternative: trees, the last one first, and flags, which cannot be repeated. -/
abbrev Items := List (Option Expr)

/-- Items as one tree. -/
def Items.toExpr (items : Items) : Expr :=
  (items.filterMap id).foldl (fun after e => match after with
    | .empty => e
    | _ => .seq e after) .empty

/-- Alternatives, the last one first, as one tree. -/
def toAlternatives (last : Expr) (earlier : List Expr) : Expr :=
  earlier.foldl (fun after e => .alt e after) last

/-- A group that is being read: what its closing makes of it, the flags around it, and what was read before
it. -/
structure OpenGroup where
  index : Option Nat
  flags : Flags
  earlier : List Expr
  items : Items
deriving Repr, Inhabited

/-- A single character or a class, as a tree. -/
def oneChar (f : Flags) (c : Char) : Expr := .one (.foldIf f.caseless (.single c))

/-- Reads a character, a dot, an assertion or an escape. -/
def readPrimitive? (r : Reader) (c : Char) (t : Text) : Option (Expr × Reader) :=
  let f := r.flags
  match c with
  | '.' => some (.one (if f.dotNewline then .all else .notNewline), r.at t)
  | '^' => some (.assertion (if f.multiLine then .startLine else .startText), r.at t)
  | '$' => some (.assertion (if f.multiLine then .endLine else .endText), r.at t)
  | '\\' =>
    (readEscape? f.caseless t).map fun (e, t) =>
      (match e with
        | .char c => oneChar f c
        | .set s => .one s
        | .test a => .assertion a, r.at t)
  | _ => some (oneChar f c, r.at t)

/-- The last item under a repetition; fails when there is nothing to repeat. -/
def repeatLast? (items : Items) (min : Nat) (max : Option Nat) (greedy : Bool) : Option Items :=
  match items with
  | some e :: items => some (some (.repetition e min max greedy) :: items)
  | _ => none

/-- Reads the rest of a pattern. `earlier` are the alternatives of the innermost open group that are complete,
`items` is the one that is being read, and `outer` are the groups around. -/
def readAll? : (fuel : Nat) → Reader → (earlier : List Expr) → Items → (outer : List OpenGroup) →
    Option (Expr × Reader)
  | 0, _, _, _, _ => none
  | fuel + 1, r, earlier, items, outer =>
    let r := r.skipBlanks
    match r.rest with
    | [] =>
      match outer with
      | [] => some (toAlternatives items.toExpr earlier, r)
      | _ :: _ => none
    | '(' :: t =>
      match openGroup? r t with
      | none => none
      | some (.flags, s) => readAll? fuel s earlier (none :: items) outer
      | some (.plain, s) => readAll? fuel s [] [] (⟨none, r.flags, earlier, items⟩ :: outer)
      | some (.capture i, s) => readAll? fuel s [] [] (⟨some i, r.flags, earlier, items⟩ :: outer)
    | ')' :: t =>
      match outer with
      | [] => none
      | g :: outer =>
        let body := toAlternatives items.toExpr earlier
        let group := match g.index with
          | some i => Expr.capture i body
          | none => body
        readAll? fuel { r with rest := t, flags := g.flags } g.earlier (some group :: g.items) outer
    | '|' :: t => readAll? fuel (r.at t) (items.toExpr :: earlier) [] outer
    | '[' :: _ =>
      (readClass? r).bind fun (c, r) => readAll? fuel r earlier (some (.one c) :: items) outer
    | '?' :: t =>
      let (greedy, r) := readLazy (r.at t)
      (repeatLast? items 0 (some 1) greedy).bind fun items => readAll? fuel r earlier items outer
    | '*' :: t =>
      let (greedy, r) := readLazy (r.at t)
      (repeatLast? items 0 none greedy).bind fun items => readAll? fuel r earlier items outer
    | '+' :: t =>
      let (greedy, r) := readLazy (r.at t)
      (repeatLast? items 1 none greedy).bind fun items => readAll? fuel r earlier items outer
    | '\x7b' :: t =>
      (readBounds? (r.at t)).bind fun (min, max, r) =>
        let (greedy, r) := readLazy r
        (repeatLast? items min max greedy).bind fun items => readAll? fuel r earlier items outer
    | c :: t => (readPrimitive? r c t).bind fun (e, r) => readAll? fuel r earlier (some e :: items) outer

/-- Reads a whole pattern. -/
def read? (flags : Flags) (t : Text) : Option Pattern :=
  (readAll? (t.length + 1) { rest := t, flags } [] [] []).map fun (e, r) => ⟨e.program, r.names⟩

/-- Reads a pattern as one that is to match at the start of a text: its text is put between a start assertion
with an opening parenthesis, and a closing one. -/
def readAnchored? (flags : Flags) (pattern : String) : Option Pattern :=
  read? flags ("\\A(?:".toList ++ pattern.toList ++ [')'])

end Packrat.Pattern
