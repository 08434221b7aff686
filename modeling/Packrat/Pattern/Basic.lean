import Packrat.Pattern.CharClass

/-!
# `Packrat.Pattern` — regular expressions as trees

## Contents

* `Expr` — the trees, with what a text must satisfy at a place given by `Assertion`;
* `Expr.least` — the least number of characters a tree matches;
* `Program` and `Expr.compile` — the trees as lists of instructions.
-/

namespace Packrat.Pattern

/-! ## Trees -/

/-- A test of a place that consumes nothing. -/
inductive Assertion
  | startText
  | endText
  | startLine
  | endLine
  | wordBoundary
  | notWordBoundary
deriving DecidableEq, Repr, Inhabited

/-- A pattern as a tree. -/
inductive Expr
  | empty
  | one (c : CharClass)
  | assertion (a : Assertion)
  | seq (a b : Expr)
  /-- Both alternatives match, and the first is preferred. -/
  | alt (a b : Expr)
  /-- Between `min` and `max` rounds, without upper end when `max` is absent. Another round is preferred to
  going on when `greedy`, and the reverse otherwise. -/
  | repetition (a : Expr) (min : Nat) (max : Option Nat) (greedy : Bool)
  /-- A group that captures what it matched under its index. -/
  | capture (index : Nat) (a : Expr)
deriving DecidableEq, Repr, Inhabited

/-- The least number of characters a tree matches. -/
def Expr.least : Expr → Nat
  | empty | assertion _ => 0
  | one _ => 1
  | seq a b => a.least + b.least
  | alt a b => min a.least b.least
  | repetition a min _ _ => min * a.least
  | capture _ a => a.least

/-! ## Instructions -/

/-- One step of a match; numbers are positions in the program. -/
inductive Instr
  /-- Consumes a character of the class. -/
  | one (c : CharClass) (next : Nat)
  | assertion (a : Assertion) (next : Nat)
  /-- Goes on at `preferred` or, if that leads to no match, at `other`. -/
  | split (preferred other : Nat)
  /-- A group begins here. -/
  | enter (index next : Nat)
  /-- A group ends here. -/
  | leave (index next : Nat)
  | accept
deriving DecidableEq, Repr, Inhabited

/-- The instructions of a pattern, and the position of the first one. -/
structure Program where
  code : List Instr
  start : Nat
deriving DecidableEq, Repr, Inhabited

/-- Adds an instruction to a program and starts there. -/
def emit (code : List Instr) (i : Instr) : Program := ⟨code ++ [i], code.length⟩

/-- The choice between another round and going on. -/
def choice (greedy : Bool) (again next : Nat) : Instr :=
  if greedy then .split again next else .split next again

/-- A loop that makes its first round unconditionally: after each round it chooses between another one and
`next`. Gives the program that starts with the first round, and the position of the choice. -/
def emitLoop (body : (next : Nat) → List Instr → Program) (greedy : Bool) (next : Nat) (code : List Instr) :
    Program × Nat :=
  let turn := code.length
  let p := body turn (code ++ [.accept])
  (⟨p.code.set turn (choice greedy p.start next), p.start⟩, turn)

/-- `n` rounds, one after the other. -/
def emitRounds (body : (next : Nat) → List Instr → Program) : (n next : Nat) → List Instr → Program
  | 0, next, code => ⟨code, next⟩
  | n + 1, next, code =>
    let p := emitRounds body n next code
    body p.start p.code

/-- Up to `n` rounds, each of which may be declined in favour of `next`. -/
def emitOptional (body : (next : Nat) → List Instr → Program) (greedy : Bool) (next : Nat) :
    (n : Nat) → List Instr → Program
  | 0, code => ⟨code, next⟩
  | n + 1, code =>
    let p := emitOptional body greedy next n code
    let p := body p.start p.code
    emit p.code (choice greedy p.start next)

/-- Any number of rounds. When a round may consume nothing, the choice before the first round is one of its
own, so that an empty first round goes on at once instead of trying another. -/
def emitStar (body : (next : Nat) → List Instr → Program) (mayBeEmpty greedy : Bool) (next : Nat)
    (code : List Instr) : Program :=
  let (p, turn) := emitLoop body greedy next code
  if mayBeEmpty then emit p.code (choice greedy p.start next) else ⟨p.code, turn⟩

/-- Adds the instructions of a tree in front of the position `next`. -/
def Expr.compile : Expr → (next : Nat) → List Instr → Program
  | empty, next, code => ⟨code, next⟩
  | one c, next, code => emit code (.one c next)
  | assertion a, next, code => emit code (.assertion a next)
  | seq a b, next, code =>
    let p := b.compile next code
    a.compile p.start p.code
  | alt a b, next, code =>
    let p := a.compile next code
    let q := b.compile next p.code
    emit q.code (.split p.start q.start)
  | repetition a min max greedy, next, code =>
    match max, min with
    | none, 0 => emitStar a.compile (a.least == 0) greedy next code
    | none, n + 1 =>
      let (p, _) := emitLoop a.compile greedy next code
      emitRounds a.compile n p.start p.code
    | some m, n =>
      let p := emitOptional a.compile greedy next (m - n) code
      emitRounds a.compile n p.start p.code
  | capture i a, next, code =>
    let p := emit code (.leave i next)
    let p := a.compile p.start p.code
    emit p.code (.enter i p.start)

/-- The program of a tree: its instructions in front of the one that accepts. -/
def Expr.program (e : Expr) : Program := e.compile 0 [.accept]

end Packrat.Pattern
