import Packrat.Grammar.Reach
import Packrat.Results.View
import Packrat.Results.Edit

/-!
# `Packrat.Shared` — results that share their groups

Copying results does not copy their groups: both sides refer to the same ones, and a group is copied at the
moment one side changes it while another still refers to it. This module holds named results over a store of
groups. A group is an address in the store; how often it is referred to is counted over everything that can
still be reached from a name, so a group nobody can reach counts for nothing.

## Contents

* `Store.allocate`, `Store.tree` — from trees to addresses and back;
* `Registers` and its operations: `assign`, `copy`, `deepCopy`, `append`, `pushGroup`;
* `Registers.references` — the count that decides whether an edit copies a group first;
* `Registers.own`, `editAt` — edits at the end of a path of group tokens; `edit` and `editGroup` for short paths.
-/

namespace Packrat
namespace Shared

/-- A token in the store: a leaf, or the address of a group. -/
inductive Ref
  | leaf (l : Leaf)
  | group (address : Nat)
deriving Inhabited

/-- Results whose groups are addresses. -/
abbrev Results := ResultsOf Ref

/-- The groups by address. Addresses are never used again. -/
structure Store where
  cells : List Results := []
deriving Inhabited

/-- The address a token refers to. -/
def Ref.address? : Ref → Option Nat
  | .leaf _ => none
  | .group a => some a

/-- All addresses that results refer to directly, in tokens and in field entries, as often as they do. -/
def addresses (r : Results) : List Nat := r.values.filterMap Ref.address?

namespace Store

/-- The group at an address. -/
def cell (s : Store) (a : Nat) : Results := s.cells[a]?.getD {}

/-- Puts a group at a new address. -/
def add (s : Store) (r : Results) : Nat × Store := (s.cells.length, ⟨s.cells ++ [r]⟩)

/-- Replaces the group at an address. -/
def replace (s : Store) (a : Nat) (r : Results) : Store := ⟨s.cells.set a r⟩

/-! ## From trees -/

mutual

/-- Puts all groups of a value into the store, innermost first. -/
def allocate (s : Store) : Value → Ref × Store
  | .leaf l => (.leaf l, s)
  | .group ⟨tokens, fields, origin⟩ =>
    let (tokens, s) := s.allocateAll tokens
    let (fields, s) := s.allocateFields fields
    let (a, s) := s.add ⟨tokens, fields, origin⟩
    (.group a, s)

/-- Puts the groups of a list of values into the store. -/
def allocateAll (s : Store) : List Value → List Ref × Store
  | [] => ([], s)
  | v :: vs =>
    let (r, s) := s.allocate v
    let (rs, s) := s.allocateAll vs
    (r :: rs, s)

/-- Puts the groups of a table of fields into the store. -/
def allocateFields (s : Store) : List (Field Value) → List (Field Ref) × Store
  | [] => ([], s)
  | f :: fs =>
    let (g, s) := s.allocateField f
    let (gs, s) := s.allocateFields fs
    (g :: gs, s)

/-- Puts the groups of a field into the store. -/
def allocateField (s : Store) : Field Value → Field Ref × Store
  | ⟨name, accumulates, entries⟩ =>
    let (es, s) := s.allocateEntries entries
    (⟨name, accumulates, es⟩, s)

/-- Puts the groups of entries into the store. -/
def allocateEntries (s : Store) : List (Entry Value) → List (Entry Ref) × Store
  | [] => ([], s)
  | ⟨v, offset⟩ :: es =>
    let (r, s) := s.allocate v
    let (rs, s) := s.allocateEntries es
    (⟨r, offset⟩ :: rs, s)

end

/-- Puts the groups inside results into the store. -/
def allocateResults (s : Store) (r : Packrat.Results) : Results × Store :=
  let (tokens, s) := s.allocateAll r.tokens
  let (fields, s) := s.allocateFields r.fields
  (⟨tokens, fields, r.origin⟩, s)

/-! ## To trees -/

/-- The tree a token stands for, down to a depth; groups nest no deeper than there are cells. -/
def valueAt (s : Store) : (depth : Nat) → Ref → Value
  | _, .leaf l => .leaf l
  | 0, .group _ => .group {}
  | depth + 1, .group a => .group ((s.cell a).map (s.valueAt depth))

/-- The tree a token stands for. -/
def value (s : Store) (r : Ref) : Value := s.valueAt s.cells.length r

/-- The tree results stand for. -/
def tree (s : Store) (r : Results) : Packrat.Results := r.map s.value

end Store

/-! ## Registers -/

/-- Named results over a common store, and the values that an operation has in hand while it works. -/
structure Registers where
  store : Store := {}
  named : List (String × Results) := []
  hand : Results := {}
deriving Inhabited

/-- What refers to groups: a name, the hand, or a group itself. -/
inductive Holder
  | name (name : String)
  | hand
  | group (address : Nat)
deriving DecidableEq

/-- A token of a name, or the last value of a field of a name. -/
inductive Place
  | token (name : String) (i : Nat)
  | field (name : String) (label : String)

/-- A change with the values that it brings in: new ones, or ones that names hold already. -/
inductive Change
  | made (e : Edit Value)
  | held (e : Edit Place)

/-- What an edit answers with: the value taken away, if there is one; that a token on the way is no group; or that
an insertion is past the end. -/
inductive Reply
  | taken (v : Option Value)
  | noGroup
  | refused

namespace Registers

/-- The results of a name; none at all for a name not yet used. -/
def get (g : Registers) (name : String) : Results := (g.named.lookup name).getD {}

/-- Gives a name other results. -/
def put (g : Registers) (name : String) (r : Results) : Registers :=
  if (g.named.lookup name).isSome then
    { g with named := g.named.map fun (n, old) => if n = name then (n, r) else (n, old) }
  else { g with named := g.named ++ [(name, r)] }

/-- A name that was not used yet is given empty results. -/
def touch (g : Registers) (name : String) : Registers := g.put name (g.get name)

/-- The tree the results of a name stand for. -/
def tree (g : Registers) (name : String) : Packrat.Results := g.store.tree (g.get name)

/-- Gives a name results built from a tree, in groups of their own. -/
def assign (g : Registers) (name : String) (r : Packrat.Results) : Registers :=
  let (r, store) := g.store.allocateResults r
  { g with store }.put name r

/-- Gives a name the results of another, sharing all groups. -/
def copy (g : Registers) (name source : String) : Registers := g.put name (g.get source)

/-- Gives a name the results of another with all groups copied, at every depth. -/
def deepCopy (g : Registers) (name source : String) : Registers := g.assign name (g.tree source)

/-- Puts the results of another name after those of a name. -/
def append (g : Registers) (name other : String) : Registers :=
  g.put name ((g.get name).extend (g.get other))

/-- Adds the results of another name as a group token. -/
def pushGroup (g : Registers) (name other : String) : Registers :=
  let (a, store) := g.store.add (g.get other)
  { g with store }.put name ((g.get name).push (.group a))

/-- Whether the tokens at one index of two names are the same group. -/
def sharesGroup (g : Registers) (name other : String) (i : Nat) : Bool :=
  match (g.get name).tokens[i]?, (g.get other).tokens[i]? with
  | some (.group a), some (.group b) => a == b
  | _, _ => false

/-! ## Counting references -/

/-- What a holder holds. -/
def results (g : Registers) : Holder → Results
  | .name n => g.get n
  | .hand => g.hand
  | .group a => g.store.cell a

/-- Gives a holder other results. -/
def putAt (g : Registers) (r : Results) : Holder → Registers
  | .name n => g.put n r
  | .hand => { g with hand := r }
  | .group a => { g with store := g.store.replace a r }

/-- The holders that nothing refers to. -/
def roots (g : Registers) : List Holder := .hand :: g.named.map fun (n, _) => .name n

/-- Everything that refers to groups: names, the hand, and the groups that can be reached from these. -/
def holders (g : Registers) : List Holder :=
  g.roots ++ (preorder (fun a => addresses (g.store.cell a)) g.store.cells.length
    (g.roots.flatMap fun h => addresses (g.results h))).map .group

/-- How often an address is referred to. -/
def references (g : Registers) (a : Nat) : Nat :=
  (g.holders.flatMap fun h => addresses (g.results h)).count a

/-! ## Edits -/

/-- Makes the group token of a holder at an index one that nothing else refers to, by copying the group if
something does. `none` when the token is no group. -/
def ownToken (g : Registers) (h : Holder) (i : Nat) : Option (Nat × Registers) :=
  let r := g.results h
  match r.tokens[i]? with
  | some (.group a) =>
    if 1 < g.references a then
      let (b, store) := g.store.add (g.store.cell a)
      some (b, { g with store }.putAt (r.setTokens (r.tokens.set i (.group b))) h)
    else some (a, g)
  | _ => none

/-- Makes every group token on a path one that nothing else refers to, from a holder on, and ends at the last one;
at `none` when a token on the way is no group. -/
def own (g : Registers) (h : Holder) : (path : List Nat) → Option Holder × Registers
  | [] => (some h, g)
  | i :: path =>
    match g.ownToken h i with
    | some (a, g) => g.own (.group a) path
    | none => (none, g)

/-- An edit with the groups it brings in put into the store. -/
def allocateEdit (s : Store) : Edit Value → Edit Ref × Store
  | .push v => let (r, s) := s.allocate v; (.push r, s)
  | .insert i v => let (r, s) := s.allocate v; (.insert i r, s)
  | .pop => (.pop, s)
  | .setTokens vs => let (rs, s) := s.allocateAll vs; (.setTokens rs, s)
  | .clear => (.clear, s)
  | .setField name v => let (r, s) := s.allocate v; (.setField name r, s)
  | .appendField name v => let (r, s) := s.allocate v; (.appendField name r, s)
  | .removeField name => (.removeField name, s)
  | .extend r => let (r, s) := s.allocateResults r; (.extend r, s)
  | .reverse => (.reverse, s)

/-- The value at a place; an empty string where there is none. -/
def pick (g : Registers) : Place → Ref
  | .token name i => ((g.get name).tokens[i]?).getD (.leaf (.str ""))
  | .field name label => ((g.get name).get? label).getD (.leaf (.str ""))

/-- A change with its values as tokens of the store. -/
def load (g : Registers) : Change → Edit Ref × Store
  | .made e => allocateEdit g.store e
  | .held e => (e.map g.pick, g.store)

/-- Edits the results of a name, or the group at the end of a path of token indices. The values that the change
brings in are in hand before the groups on the path are made its own. -/
def editAt (g : Registers) (name : String) (path : List Nat) (c : Change) : Reply × Registers :=
  let (e, store) := g.load c
  match { g with store, hand := .ofTokens e.values }.own (.name name) path with
  | (none, g) => (.noGroup, { g with hand := {} })
  | (some h, g) =>
    match e.apply (g.results h) with
    | none => (.refused, { g with hand := {} })
    | some (taken, r) => (.taken (taken.map g.store.value), { g.putAt r h with hand := {} })

/-- Edits the results of a name; `none` for an insertion past the end. The answer is the value taken away. -/
def edit (g : Registers) (name : String) (e : Edit Value) : Option (Option Value × Registers) :=
  match g.editAt name [] (.made e) with
  | (.taken v, g) => some (v, g)
  | _ => none

/-- Edits the group token at an index: the outer `none` for an insertion past its end, the inner one when the
token is no group. -/
def editGroup (g : Registers) (name : String) (i : Nat) (e : Edit Value) :
    Option (Option (Option Value) × Registers) :=
  match g.editAt name [i] (.made e) with
  | (.taken v, g) => some (some v, g)
  | (.noGroup, g) => some (none, g)
  | (.refused, _) => none

end Registers
end Shared
end Packrat
