import Packrat.Results.Basic
import Packrat.Decimal.Layout
import Packrat.Text.Quoted

/-!
# `Packrat.Results.View` — results as text, lists and maps

## Contents

* `Value.text`, `ResultsOf.render`, `ResultsOf.dump` — renderings on one line, and with the fields below;
* `ResultsOf.leaves`, `strings`, `joined` — the leaves in order, groups flattened away;
* `ResultsOf.toList`, `ResultsOf.toMap` — nested lists, and maps from field names;
* `ResultsOf.same` — equality, by which a double differs from itself when it is not a number.
-/

namespace Packrat

/-! ## Renderings -/

/-- A leaf by itself: strings bare, doubles without exponent. -/
def Leaf.text : Leaf → String
  | .str s => s
  | .int n => toString n.toInt
  | .float x => Decimal.Layout.plain.render x

/-- A leaf inside a list: strings quoted, doubles so that they read back. -/
def Leaf.quoted : Leaf → String
  | .str s => Text.quotedString s
  | .int n => toString n.toInt
  | .float x => Decimal.Layout.exact.render x

/-- Items between brackets, with commas. -/
def bracketed (items : List String) : String := "[" ++ ", ".intercalate items ++ "]"

mutual

/-- A value as it stands inside a list. -/
def Value.quoted : Value → String
  | .leaf l => l.quoted
  | .group ⟨tokens, _, _⟩ => bracketed (Value.quotedAll tokens)

/-- The values of a list as they stand inside it. -/
def Value.quotedAll : List Value → List String
  | [] => []
  | v :: vs => v.quoted :: Value.quotedAll vs

end

/-- The tokens between brackets. -/
def ResultsOf.render (r : Results) : String := bracketed (Value.quotedAll r.tokens)

/-- A value by itself. -/
def Value.text : Value → String
  | .leaf l => l.text
  | .group r => r.render

mutual

/-- The lines that show a table of fields, at a depth of indentation; the fields of a group that is the value
of an ordinary field follow one step deeper. -/
def Value.dumpFields (depth : Nat) : List (Field Value) → String
  | [] => ""
  | f :: fs => Value.dumpField depth f ++ Value.dumpFields depth fs

/-- The lines of one field. -/
def Value.dumpField (depth : Nat) : Field Value → String
  | ⟨name, accumulates, entries⟩ =>
    "\n" ++ String.ofList (List.replicate (2 * depth) ' ') ++ "- " ++ name ++ ": "
      ++ (if accumulates then bracketed (Value.quotedEntries entries)
          else Value.dumpLast depth entries)

/-- The last of a list of entries, as the value of an ordinary field. -/
def Value.dumpLast (depth : Nat) : List (Entry Value) → String
  | [] => ""
  | [e] => Value.dumpEntry depth e
  | _ :: es => Value.dumpLast depth es

/-- An entry as the value of an ordinary field. -/
def Value.dumpEntry (depth : Nat) : Entry Value → String
  | ⟨v, _⟩ => Value.dumpValue depth v

/-- A value of an ordinary field, with the fields of a group below it. -/
def Value.dumpValue (depth : Nat) : Value → String
  | .leaf l => l.quoted
  | .group ⟨tokens, fields, _⟩ =>
    bracketed (Value.quotedAll tokens) ++ Value.dumpFields (depth + 1) fields

/-- The values of entries as they stand inside a list. -/
def Value.quotedEntries : List (Entry Value) → List String
  | [] => []
  | ⟨v, _⟩ :: es => v.quoted :: Value.quotedEntries es

end

/-- The tokens on one line and the fields on the lines below. -/
def ResultsOf.dump (r : Results) : String := r.render ++ Value.dumpFields 0 r.fields

/-! ## Leaves -/

mutual

/-- The leaves of a value, in order. -/
def Value.leaves : Value → List Leaf
  | .leaf l => [l]
  | .group ⟨tokens, _, _⟩ => Value.leavesOf tokens

/-- The leaves of a list of values, in order. -/
def Value.leavesOf : List Value → List Leaf
  | [] => []
  | v :: vs => v.leaves ++ Value.leavesOf vs

end

/-- The leaves of the tokens, in order. -/
def ResultsOf.leaves (r : Results) : List Leaf := Value.leavesOf r.tokens

/-- The leaves, each as text. -/
def ResultsOf.strings (r : Results) : List String := r.leaves.map Leaf.text

/-- The leaves as one text. -/
def ResultsOf.joined (r : Results) : String := String.join r.strings

/-- Records each group token as a field: its first token, as text, is the name, and the rest the value. A
rest of one token is the value itself when the group has no fields, and no rest records an empty string. -/
def ResultsOf.nameGroupsByKey (r : Results) : Results :=
  r.tokens.zipIdx.foldl (fun out (token, offset) =>
    match token with
    | .group ⟨key :: rest, fields, origin⟩ =>
      let value := match rest with
        | [] => Value.str ""
        | [only] => if fields.isEmpty then only else
            .group (ResultsOf.withoutKey rest ⟨key :: rest, fields, origin⟩)
        | _ => .group (ResultsOf.withoutKey rest ⟨key :: rest, fields, origin⟩)
      out.record key.text false value offset
    | _ => out) r

/-! ## Nested lists and maps -/

/-- Tokens as nested lists, and fields as maps sorted by name. -/
inductive Nested
  | leaf (l : Leaf)
  | list (items : List Nested)
  | map (items : List (String × Nested))
deriving Inhabited

/-- Puts an item into a map sorted by keys, in place of an item of that key. -/
def insertSorted {β : Type} (key : String) (item : β) : List (String × β) → List (String × β)
  | [] => [(key, item)]
  | (k, x) :: rest =>
    if key = k then (key, item) :: rest
    else if key < k then (key, item) :: (k, x) :: rest
    else (k, x) :: insertSorted key item rest

/-- The map of a list of items, of which a later one replaces an earlier one of its key. -/
def sortedMap {β : Type} (items : List (String × β)) : List (String × β) :=
  items.foldl (fun m (k, x) => insertSorted k x m) []

mutual

/-- A token with groups as lists. -/
def Value.toListItem : Value → Nested
  | .leaf l => .leaf l
  | .group ⟨tokens, _, _⟩ => .list (Value.toListItems tokens)

/-- Tokens with groups as lists. -/
def Value.toListItems : List Value → List Nested
  | [] => []
  | v :: vs => v.toListItem :: Value.toListItems vs

end

mutual

/-- A field value with groups that have fields as maps, and other groups as lists. -/
def Value.toMapItem : Value → Nested
  | .leaf l => .leaf l
  | .group ⟨tokens, [], _⟩ => .list (Value.toListItems tokens)
  | .group ⟨_, f :: fs, _⟩ => .map (sortedMap (Value.toMapItems (f :: fs)))

/-- Fields with their values; a field without values has none. -/
def Value.toMapItems : List (Field Value) → List (String × Nested)
  | [] => []
  | f :: fs => Value.toMapField f ++ Value.toMapItems fs

/-- One field with its value, if it has one. -/
def Value.toMapField : Field Value → List (String × Nested)
  | ⟨name, accumulates, entries⟩ =>
    if accumulates then [(name, .list (Value.toMapEntries entries))]
    else (Value.toMapLast entries).map fun x => (name, x)

/-- The values of all entries. -/
def Value.toMapEntries : List (Entry Value) → List Nested
  | [] => []
  | ⟨v, _⟩ :: es => v.toMapItem :: Value.toMapEntries es

/-- The value of the last entry, if there is one. -/
def Value.toMapLast : List (Entry Value) → List Nested
  | [] => []
  | [⟨v, _⟩] => [v.toMapItem]
  | _ :: es => Value.toMapLast es

end

/-- The tokens as nested lists. -/
def ResultsOf.toList (r : Results) : List Nested := Value.toListItems r.tokens

/-- The fields as a map sorted by name: the last value of an ordinary field, all values of an accumulating
one. -/
def ResultsOf.toMap (r : Results) : List (String × Nested) := sortedMap (Value.toMapItems r.fields)

/-! ## Equality -/

/-- Equality of leaves; doubles compare as numbers. -/
def Leaf.same : Leaf → Leaf → Bool
  | .str a, .str b => a == b
  | .int a, .int b => a == b
  | .float a, .float b => a == b
  | _, _ => false

mutual

/-- Equality of values. -/
def Value.same : Value → Value → Bool
  | .leaf a, .leaf b => a.same b
  | .group ⟨ts, fs, o⟩, .group ⟨us, gs, p⟩ => Value.sameAll ts us && Value.sameFields fs gs && o == p
  | _, _ => false

/-- Equality of lists of values. -/
def Value.sameAll : List Value → List Value → Bool
  | [], [] => true
  | v :: vs, w :: ws => v.same w && Value.sameAll vs ws
  | _, _ => false

/-- Equality of tables of fields, order, flags and offsets included. -/
def Value.sameFields : List (Field Value) → List (Field Value) → Bool
  | [], [] => true
  | f :: fs, g :: gs => Value.sameField f g && Value.sameFields fs gs
  | _, _ => false

/-- Equality of fields. -/
def Value.sameField : Field Value → Field Value → Bool
  | ⟨name, acc, es⟩, ⟨name', acc', es'⟩ => name == name' && acc == acc' && Value.sameEntries es es'

/-- Equality of lists of entries. -/
def Value.sameEntries : List (Entry Value) → List (Entry Value) → Bool
  | [], [] => true
  | ⟨v, n⟩ :: es, ⟨w, m⟩ :: fs => v.same w && n == m && Value.sameEntries es fs
  | _, _ => false

end

/-- Equality of results: tokens, fields in order, and origin. -/
def ResultsOf.same (a b : Results) : Bool :=
  Value.sameAll a.tokens b.tokens && Value.sameFields a.fields b.fields && a.origin == b.origin

end Packrat
