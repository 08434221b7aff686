import Packrat.Matching.State
import Packrat.Text.LetterCase

/-!
# `Packrat.Matching.Token` — nodes that look at the text alone

## Contents

* `matchLiteral?` — the bytes of the text that spell a literal;
* `runLength` — the characters that a word takes;
* `matchToken` — literals, keywords, words, excluded runs and patterns;
* `testPosition` — the tests of a place, of which only the end of a line consumes anything.
-/

namespace Packrat

/-! ## Literals and runs -/

/-- The number of bytes at the front of a text that spell a literal, which in any case may differ from those
of the literal. -/
def matchLiteral? (caseless : Bool) : (literal rest : Text) → Option Nat
  | [], _ => some 0
  | _ :: _, [] => none
  | c :: cs, d :: ds =>
    if c == d || (caseless && Text.eqIgnoringCase d c) then
      (matchLiteral? caseless cs ds).map (d.utf8Size + ·)
    else none

/-- The front of a text whose characters are in a set, of at most `max` characters. -/
def takeRun (set : Char → Bool) (max : Option Nat) (t : Text) : Text :=
  match max with
  | some n => (t.take n).takeWhile set
  | none => t.takeWhile set

/-- The characters of a word at the front of a text: one of `init` and the run of `body` after it, unless that
is too short, or too long and goes on. -/
def wordAt? (init body : CharSet) (min : Nat) (max : Option Nat) (t : Text) : Option Text :=
  match t with
  | [] => none
  | c :: r =>
    if !init.contains c then none
    else
      let token := c :: takeRun body.contains (max.map (· - 1)) r
      let goesOn := (t.drop token.length).head?.any body.contains
      if token.length < min || (max.any (· ≤ token.length) && goesOn) then none else some token

/-- The run of characters outside a set at the front of a text, unless that is too short. -/
def excludedAt? (excluded : CharSet) (min : Nat) (max : Option Nat) (t : Text) : Option Text :=
  let token := takeRun (fun c => !excluded.contains c) max t
  if token.length < min then none else some token

/-- A match of some text from a position on. -/
def tokenStep (start : Nat) (token : Text) : Step :=
  .matched (start + token.size) (ResultsOf.single (Value.ofText token))

/-- The results of a match of a pattern: its text, and its named groups as fields. -/
def patternResults (p : Pattern) (t : Text) (m : Pattern.Match) : Results :=
  p.names.foldl (fun r g =>
    match m.group? g.index with
    | some k => r.setField g.name (Value.ofText (t.slice k.start k.stop))
    | none => r) (ResultsOf.single (Value.ofText (t.slice m.start m.stop)))

/-- Matches a terminal at a position; the text is matched as if it began there, except that a keyword looks at
the character before. Other nodes fail. -/
def matchToken (rule : Rule) (t : Text) (start : Nat) : Step :=
  let rest := t.rest start
  let fail := Step.failAt start rule
  match rule.kind with
  | .literal text caseless =>
    match matchLiteral? caseless text.toList rest with
    | some n => .matched (start + n) (ResultsOf.single (Value.str text))
    | none => fail
  | .keyword text caseless identChars =>
    match matchLiteral? caseless text.toList rest with
    | some n =>
      let touches := (rest.charAt? n).any identChars.contains || (t.charBefore? start).any identChars.contains
      if touches then fail else .matched (start + n) (ResultsOf.single (Value.str text))
    | none => fail
  | .word init body min max => ((wordAt? init body min max rest).map (tokenStep start)).getD fail
  | .charsNotIn excluded min max => ((excludedAt? excluded min max rest).map (tokenStep start)).getD fail
  | .pattern _ p =>
    match p.find? rest with
    | some m => .matched (start + m.stop) (patternResults p rest m)
    | none => fail
  | _ => fail

/-! ## Tests of a place -/

/-- Whether a run of characters begins at a position; at the start of the text it always does. -/
def beginsRun (chars : CharSet) (t : Text) (p : Nat) : Bool :=
  p == 0 || (!(t.charBefore? p).any chars.contains && (t.charAt? p).any chars.contains)

/-- Whether a run of characters ends at a position; at the end of the text it always does. -/
def endsRun (chars : CharSet) (t : Text) (p : Nat) : Bool :=
  (t.charAt? p).isNone || ((t.charBefore? p).any chars.contains && !(t.charAt? p).any chars.contains)

/-- Tests a place. Other nodes fail. -/
def testPosition (rule : Rule) (t : Text) (start : Nat) : Step :=
  let answer (holds : Bool) : Step := if holds then .matched start {} else Step.failAt start rule
  match rule.kind with
  | .stringEnd => answer (t.size ≤ start)
  | .lineStart => answer (start == 0 || t.charBefore? start == some '\n')
  | .lineEnd =>
    if t.charAt? start == some '\n' then .matched (start + 1) (ResultsOf.single (Value.str "\n"))
    else answer (t.charAt? start).isNone
  | .wordStart chars => answer (beginsRun chars t start)
  | .wordEnd chars => answer (endsRun chars t start)
  | _ => Step.failAt start rule

end Packrat
