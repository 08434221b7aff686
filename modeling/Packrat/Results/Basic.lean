import Packrat.Decimal.Binary

/-!
# `Packrat.Results` — tokens and named fields

What a match produces: a list of tokens, and a table of fields. Every value recorded under a field name is
kept, with the number of tokens that preceded it; an *accumulating* field shows them all, an ordinary one the
last. A token is a string, a number, or a group, which is results again.

The operations look at tokens only as far as they must, so `ResultsOf` leaves the type of its values open:
`Value` closes it with groups as trees, and `Packrat.Results.Shared` with groups as addresses.

## Contents

* `ResultsOf` and its operations: tokens (`push`, `insert?`, `pop`, …), fields (`record`, `setField`, …),
  concatenation (`extend`), look-up (`get?`, `field?`, `fieldValues`, …);
* `Leaf`, `Value`, `Results` — strings, numbers and groups as trees;
* `ResultsOf.nameTokens` — what naming a match records.
-/

namespace Packrat

/-- A node of a grammar, by its index in the grammar's list of nodes. -/
abbrev ExprId := Nat

/-- A value recorded under a name, with the number of tokens before it. -/
structure Entry (α : Type) where
  value : α
  offset : Nat
deriving Repr, Inhabited, DecidableEq

/-- The values recorded under one name, in the order of recording. -/
structure Field (α : Type) where
  name : String
  accumulates : Bool
  entries : List (Entry α)
deriving Repr, Inhabited, DecidableEq

/-- Tokens, fields in the order of their first recording, and the node whose match made them. -/
structure ResultsOf (α : Type) where
  tokens : List α := []
  fields : List (Field α) := []
  origin : Option ExprId := none
deriving Repr, DecidableEq

instance {α : Type} : Inhabited (ResultsOf α) := ⟨{}⟩

/-- What looking up a field shows: the last value of an ordinary field, or all values of an accumulating
one. -/
inductive FieldView (α : Type)
  | single (value : α)
  | list (values : List α)
deriving Repr, Inhabited, DecidableEq

/-- The single value, or the last of a list. -/
def FieldView.last? {α : Type} : FieldView α → Option α
  | .single v => some v
  | .list vs => vs.getLast?

/-- An entry further along by a number of tokens. -/
def Entry.shift {α : Type} (n : Nat) (e : Entry α) : Entry α := { e with offset := e.offset + n }

namespace Field

variable {α β : Type}

/-- The values of a field. -/
def values (f : Field α) : List α := f.entries.map (·.value)

/-- The last value of a field. -/
def last? (f : Field α) : Option α := f.entries.getLast?.map (·.value)

/-- A field with each entry changed. -/
def mapEntries (g : Entry α → Entry α) (f : Field α) : Field α := { f with entries := f.entries.map g }

/-- A field with the entries of another of the same name after its own. -/
def append (f g : Field α) : Field α :=
  { f with accumulates := f.accumulates || g.accumulates, entries := f.entries ++ g.entries }

/-- What looking up the field shows; nothing for an ordinary field without values. -/
def view? (f : Field α) : Option (FieldView α) :=
  if f.accumulates then some (.list f.values) else f.last?.map .single

end Field

namespace ResultsOf

variable {α : Type}

/-! ## Tokens -/

/-- Results with the given tokens and no fields. -/
def ofTokens (tokens : List α) : ResultsOf α := { tokens }

/-- Results with a single token. -/
def single (v : α) : ResultsOf α := ofTokens [v]

/-- The number of tokens. -/
def length (r : ResultsOf α) : Nat := r.tokens.length

/-- A token after all others. -/
def push (v : α) (r : ResultsOf α) : ResultsOf α := { r with tokens := r.tokens ++ [v] }

/-- A token in front of the one at `i`; entries recorded from there on move along. `none` past the end. -/
def insert? (i : Nat) (v : α) (r : ResultsOf α) : Option (ResultsOf α) :=
  if i ≤ r.length then
    some { r with
      tokens := r.tokens.take i ++ v :: r.tokens.drop i
      fields := r.fields.map (Field.mapEntries fun e => if i ≤ e.offset then e.shift 1 else e) }
  else none

/-- The last token, and the results without it. -/
def pop (r : ResultsOf α) : Option α × ResultsOf α :=
  (r.tokens.getLast?, { r with tokens := r.tokens.dropLast })

/-- Other tokens, with the same fields. -/
def setTokens (tokens : List α) (r : ResultsOf α) : ResultsOf α := { r with tokens }

/-- No tokens and no fields. -/
def clear (r : ResultsOf α) : ResultsOf α := { r with tokens := [], fields := [] }

/-- The results as those of a node. -/
def withOrigin (id : ExprId) (r : ResultsOf α) : ResultsOf α := { r with origin := some id }

/-! ## The field table -/

/-- Adds a field to a table: after the entries of the field of that name, or as a new last field. -/
def addField (f : Field α) : List (Field α) → List (Field α)
  | [] => [f]
  | g :: gs => if g.name = f.name then g.append f :: gs else g :: addField f gs

/-- Records a value under a name, as coming after `offset` tokens. -/
def record (name : String) (accumulates : Bool) (value : α) (offset : Nat) (r : ResultsOf α) : ResultsOf α :=
  { r with fields := addField ⟨name, accumulates, [⟨value, offset⟩]⟩ r.fields }

/-- Assigns a value to a name in place of all earlier ones; the field moves to the end. -/
def setField (name : String) (value : α) (r : ResultsOf α) : ResultsOf α :=
  record name false value r.length { r with fields := r.fields.filter (·.name != name) }

/-- Records a further value of an accumulating field. -/
def appendField (name : String) (value : α) (r : ResultsOf α) : ResultsOf α :=
  record name true value r.length r

/-- The field of a name. -/
def find? (name : String) (r : ResultsOf α) : Option (Field α) := r.fields.find? (·.name == name)

/-- The last value of a name, and the results without that field. -/
def removeField (name : String) (r : ResultsOf α) : Option α × ResultsOf α :=
  ((r.find? name).bind Field.last?, { r with fields := r.fields.eraseP (·.name == name) })

/-- Concatenation: the tokens of both in order, and the entries of the second after those of the first,
moved along by its tokens. -/
def extend (a b : ResultsOf α) : ResultsOf α :=
  { a with
    tokens := a.tokens ++ b.tokens
    fields := b.fields.foldl (fun fs f => addField (f.mapEntries (Entry.shift a.length)) fs) a.fields }

/-! ## Look-up -/

/-- The names of the fields, in the order of first recording. -/
def names (r : ResultsOf α) : List String := r.fields.map (·.name)

/-- Whether there is a field of a name. -/
def hasField (name : String) (r : ResultsOf α) : Bool := r.fields.any (·.name == name)

/-- The last value of a name. -/
def get? (name : String) (r : ResultsOf α) : Option α := (r.find? name).bind Field.last?

/-- What looking up a name shows. -/
def field? (name : String) (r : ResultsOf α) : Option (FieldView α) := (r.find? name).bind Field.view?

/-- All values ever recorded under a name. -/
def fieldValues (name : String) (r : ResultsOf α) : List α := ((r.find? name).map Field.values).getD []

end ResultsOf

/-! ## Values -/

/-- A token that is not a group. -/
inductive Leaf
  | str (s : String)
  | int (n : Int64)
  | float (x : Float)
deriving Repr, Inhabited

/-- A token: a leaf, or a group of results. -/
inductive Value
  | leaf (l : Leaf)
  | group (r : ResultsOf Value)
deriving Inhabited

/-- Results whose groups are trees. -/
abbrev Results := ResultsOf Value

namespace Value

/-- A string token. -/
@[match_pattern] abbrev str (s : String) : Value := .leaf (.str s)

/-- An integer token. -/
@[match_pattern] abbrev int (n : Int64) : Value := .leaf (.int n)

/-- A floating-point token. -/
@[match_pattern] abbrev float (x : Float) : Value := .leaf (.float x)

/-- A string token of a text. -/
abbrev ofText (t : List Char) : Value := str (String.ofList t)

/-- The string of a string token. -/
def str? : Value → Option String
  | .str s => some s
  | _ => none

/-- The integer of an integer token. -/
def int? : Value → Option Int64
  | .int n => some n
  | _ => none

/-- The number of a token that is one; integers are rounded to the nearest double. -/
def float? : Value → Option Float
  | .float x => some x
  | .int n => some (Decimal.floatOfInt n.toInt)
  | _ => none

/-- The results of a group token. -/
def group? : Value → Option Results
  | .group r => some r
  | _ => none

end Value

namespace ResultsOf

/-- Records the tokens under a name: a single one as it is unless a list is asked for, several as a group,
and none not at all. -/
def nameTokens (name : String) (accumulates asList : Bool) (r : Results) : Results :=
  match r.tokens, asList with
  | [], _ => r
  | [only], false => r.record name accumulates only 0
  | tokens, _ => r.record name accumulates (.group (.ofTokens tokens)) 0

/-- The results left of a group when its first token is taken as a key. -/
def withoutKey (rest : List Value) (group : Results) : Results :=
  { group with
    tokens := rest
    fields := group.fields.map (Field.mapEntries fun e => { e with offset := e.offset - 1 }) }

end ResultsOf
end Packrat
