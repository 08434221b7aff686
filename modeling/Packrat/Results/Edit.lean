import Packrat.Results.Basic

/-!
# `Packrat.Edit` — changes to results as data

The operations on results that change them, as values that can be stored in a script and applied to any
results. Taking something away answers with what was taken. A change looks at no value: what it does with other
values in place of its own is the same.

## Contents

* `ResultsOf.map`, `ResultsOf.values` — other values in place of those of results, and what these are;
* `Edit`, `Edit.apply`, `Edit.map`, `Edit.values` — changes, and the values that they bring in.
-/

namespace Packrat

/-! ## Values in results -/

/-- An entry with another value. -/
def Entry.map {α β : Type} (f : α → β) (e : Entry α) : Entry β := ⟨f e.value, e.offset⟩

/-- A field with every value changed. -/
def Field.map {α β : Type} (f : α → β) (field : Field α) : Field β :=
  ⟨field.name, field.accumulates, field.entries.map (Entry.map f)⟩

/-- Results with every value changed. -/
def ResultsOf.map {α β : Type} (f : α → β) (r : ResultsOf α) : ResultsOf β :=
  ⟨r.tokens.map f, r.fields.map (Field.map f), r.origin⟩

/-- All values of results, the tokens first, as often as they occur. -/
def ResultsOf.values {α : Type} (r : ResultsOf α) : List α := r.tokens ++ r.fields.flatMap Field.values

/-! ## Changes -/

/-- A change to results over values of type `α`. -/
inductive Edit (α : Type)
  | push (v : α)
  | insert (i : Nat) (v : α)
  | pop
  | setTokens (vs : List α)
  | clear
  | setField (name : String) (v : α)
  | appendField (name : String) (v : α)
  | removeField (name : String)
  | extend (r : ResultsOf α)
  | reverse

/-- Applies a change; `none` for an insertion past the end. The answer is the value taken away, if the change
takes one and there is one. -/
def Edit.apply {α : Type} (r : ResultsOf α) : Edit α → Option (Option α × ResultsOf α)
  | .push v => some (none, r.push v)
  | .insert i v => (r.insert? i v).map fun r => (none, r)
  | .pop => some r.pop
  | .setTokens vs => some (none, r.setTokens vs)
  | .clear => some (none, r.clear)
  | .setField name v => some (none, r.setField name v)
  | .appendField name v => some (none, r.appendField name v)
  | .removeField name => some (r.removeField name)
  | .extend other => some (none, r.extend other)
  | .reverse => some (none, r.setTokens r.tokens.reverse)

/-- A change that brings in other values. -/
def Edit.map {α β : Type} (f : α → β) : Edit α → Edit β
  | .push v => .push (f v)
  | .insert i v => .insert i (f v)
  | .pop => .pop
  | .setTokens vs => .setTokens (vs.map f)
  | .clear => .clear
  | .setField name v => .setField name (f v)
  | .appendField name v => .appendField name (f v)
  | .removeField name => .removeField name
  | .extend r => .extend (r.map f)
  | .reverse => .reverse

/-- The values that a change brings in. -/
def Edit.values {α : Type} : Edit α → List α
  | .push v | .insert _ v | .setField _ v | .appendField _ v => [v]
  | .setTokens vs => vs
  | .extend r => r.values
  | .pop | .clear | .removeField _ | .reverse => []

end Packrat
