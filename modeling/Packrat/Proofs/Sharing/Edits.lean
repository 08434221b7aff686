import Mathlib.Data.Set.List
import Packrat.Results.Edit

/-!
# `Packrat.Proofs.Sharing.Edits` — a change looks at no value

Whatever stands for the values of results, tokens of a store or trees, a change does the same with them: it commutes
with every map on values. Taken with the projection from a subtype this also says that a change brings nothing into
results but the values that it carries.

## Contents

* `ResultsOf.map_congr`, `ResultsOf.map_attach` — maps that agree on the values of results;
* `ResultsOf.map_push`, …, `map_extend` — the operations commute with maps;
* `Edit.apply_map` — **so do changes**;
* `Edit.apply_values` — what a change leaves and what it takes away were there, or came with it.
-/

namespace Packrat

variable {α β : Type} {f : α → β}

/-! ## Maps on values -/

theorem Field.values_map (f : α → β) (x : Field α) : (x.map f).values = x.values.map f := by
  simp only [Field.values, Field.map, List.map_map]
  rfl

theorem ResultsOf.values_map (f : α → β) (r : ResultsOf α) : (r.map f).values = r.values.map f := by
  simp only [ResultsOf.values, ResultsOf.map, List.map_append, List.flatMap_map, List.map_flatMap,
    Field.values_map]

theorem ResultsOf.map_map {γ : Type} (f : α → β) (k : β → γ) (r : ResultsOf α) :
    (r.map f).map k = r.map (k ∘ f) := by
  have hentry : Entry.map k ∘ Entry.map f = Entry.map (k ∘ f) := rfl
  have hfield : Field.map k ∘ Field.map f = Field.map (k ∘ f) := by
    funext x
    simp only [Function.comp_apply, Field.map, List.map_map, hentry]
  simp only [ResultsOf.map, List.map_map, hfield]

theorem Field.map_congr {g : α → β} {x : Field α} (h : ∀ v ∈ x.values, f v = g v) : x.map f = x.map g := by
  have hentries : x.entries.map (Entry.map f) = x.entries.map (Entry.map g) := by
    refine List.map_congr_left fun e he => ?_
    rw [Entry.map, Entry.map, h e.value (List.mem_map_of_mem he)]
  rw [Field.map, Field.map, hentries]

/-- Maps that agree on the values of results change them alike. -/
theorem ResultsOf.map_congr {g : α → β} {r : ResultsOf α} (h : ∀ v ∈ r.values, f v = g v) : r.map f = r.map g := by
  have htokens : r.tokens.map f = r.tokens.map g :=
    List.map_congr_left fun v hv => h v (List.mem_append_left _ hv)
  have hfields : r.fields.map (Field.map f) = r.fields.map (Field.map g) :=
    List.map_congr_left fun x hx => Field.map_congr fun v hv =>
      h v (List.mem_append_right _ (List.mem_flatMap.mpr ⟨x, hx, hv⟩))
  rw [ResultsOf.map, ResultsOf.map, htokens, hfields]

/-- Results whose values all have a property are results over the values that have it. -/
theorem ResultsOf.map_attach {P : α → Prop} {r : ResultsOf α} (h : ∀ v ∈ r.values, P v) :
    ∃ p : ResultsOf {v // P v}, p.map Subtype.val = r := by
  obtain ⟨tokens, htokens⟩ : r.tokens ∈ Set.range (List.map (Subtype.val (p := P))) := by
    rw [Set.range_list_map]
    intro v hv
    exact ⟨⟨v, h v (List.mem_append_left _ hv)⟩, rfl⟩
  obtain ⟨fields, hfields⟩ : r.fields ∈ Set.range (List.map (Field.map (Subtype.val (p := P)))) := by
    rw [Set.range_list_map]
    intro x hx
    obtain ⟨entries, hentries⟩ : x.entries ∈ Set.range (List.map (Entry.map (Subtype.val (p := P)))) := by
      rw [Set.range_list_map]
      intro e he
      have hv : e.value ∈ r.values :=
        List.mem_append_right _ (List.mem_flatMap.mpr ⟨x, hx, List.mem_map_of_mem he⟩)
      exact ⟨⟨⟨e.value, h _ hv⟩, e.offset⟩, rfl⟩
    exact ⟨⟨x.name, x.accumulates, entries⟩, by rw [Field.map, hentries]⟩
  exact ⟨⟨tokens, fields, r.origin⟩, by rw [ResultsOf.map, htokens, hfields]⟩

/-! ## Operations on results -/

namespace ResultsOf

variable {r : ResultsOf α}

theorem length_map (f : α → β) (r : ResultsOf α) : (r.map f).length = r.length := by
  simp only [length, ResultsOf.map, List.length_map]

theorem map_push (v : α) : (r.push v).map f = (r.map f).push (f v) := by
  simp only [ResultsOf.map, push, List.map_append, List.map_cons, List.map_nil]

theorem map_setTokens (vs : List α) : (r.setTokens vs).map f = (r.map f).setTokens (vs.map f) := rfl

/-- Entries moved along or back are so whatever their values are. -/
theorem map_mapEntries (move : Entry α → Entry α) (move' : Entry β → Entry β) (x : Field α)
    (hmove : ∀ e, (move e).map f = move' (e.map f)) :
    (x.mapEntries move).map f = (x.map f).mapEntries move' := by
  simp only [Field.map, Field.mapEntries, List.map_map]
  congr 1
  exact List.map_congr_left fun e _ => hmove e

theorem map_insert? (i : Nat) (v : α) : (r.map f).insert? i (f v) = (r.insert? i v).map (ResultsOf.map f) := by
  unfold insert?
  rw [length_map]
  split
  · simp only [Option.map_some, ResultsOf.map, List.map_append, List.map_take, List.map_cons, List.map_drop,
      List.map_map]
    congr 2
    refine List.map_congr_left fun x _ => (map_mapEntries _ _ x fun e => ?_).symm
    by_cases hi : i ≤ e.offset
    · rw [if_pos hi, if_pos (show i ≤ (e.map f).offset from hi)]
      rfl
    · rw [if_neg hi, if_neg (show ¬i ≤ (e.map f).offset from hi)]
  · rfl

theorem addField_map (x : Field α) (xs : List (Field α)) :
    (addField x xs).map (Field.map f) = addField (x.map f) (xs.map (Field.map f)) := by
  induction xs with
  | nil => rfl
  | cons y ys ih =>
    rw [List.map_cons, addField, addField]
    by_cases hname : y.name = x.name
    · rw [if_pos hname, if_pos (show (y.map f).name = (x.map f).name from hname), List.map_cons]
      congr 1
      simp only [Field.append, Field.map, List.map_append]
    · rw [if_neg hname, if_neg (show (y.map f).name ≠ (x.map f).name from hname), List.map_cons, ih]

theorem map_record (name : String) (accumulates : Bool) (v : α) (offset : Nat) :
    (r.record name accumulates v offset).map f = (r.map f).record name accumulates (f v) offset := by
  simp only [ResultsOf.map, record, addField_map]
  rfl

theorem map_setField (name : String) (v : α) : (r.setField name v).map f = (r.map f).setField name (f v) := by
  rw [setField, map_record, setField, length_map]
  congr 1
  simp only [ResultsOf.map, List.filter_map]
  rfl

theorem map_appendField (name : String) (v : α) :
    (r.appendField name v).map f = (r.map f).appendField name (f v) := by
  rw [appendField, map_record, appendField, length_map]

theorem find?_map (f : α → β) (r : ResultsOf α) (name : String) :
    (r.map f).find? name = (r.find? name).map (Field.map f) := by
  simp only [find?, ResultsOf.map, List.find?_map]
  rfl

theorem last?_map (f : α → β) (x : Field α) : (x.map f).last? = x.last?.map f := by
  simp only [Field.last?, Field.map, List.getLast?_map, Option.map_map]
  rfl

/-- The last value of a name is the one that stands for it. -/
theorem get?_map (f : α → β) (r : ResultsOf α) (name : String) : (r.map f).get? name = (r.get? name).map f := by
  rw [get?, get?, find?_map, Option.bind_map, Option.map_bind]
  congr 1
  funext x
  exact last?_map f x

/-- The last value of a name is one of the values. -/
theorem mem_values_of_get? {name : String} {v : α} (h : r.get? name = some v) : v ∈ r.values := by
  obtain ⟨x, hx, hlast⟩ := Option.bind_eq_some_iff.mp h
  obtain ⟨e, he, rfl⟩ := Option.map_eq_some_iff.mp hlast
  refine List.mem_append_right _ (List.mem_flatMap.mpr ⟨x, List.mem_of_find?_eq_some hx, ?_⟩)
  exact List.mem_map_of_mem (List.mem_of_getLast? he)

theorem map_extend (other : ResultsOf α) : (r.extend other).map f = (r.map f).extend (other.map f) := by
  simp only [extend, length_map]
  simp only [ResultsOf.map, List.map_append, List.foldl_map]
  congr 1
  refine (List.foldl_hom (List.map (Field.map f)) fun xs x => ?_).symm
  rw [addField_map, map_mapEntries _ (Entry.shift r.length) x fun _ => rfl]

end ResultsOf

/-! ## Changes -/

namespace Edit

/-- **A change does the same with other values in place of its own.** -/
theorem apply_map (f : α → β) (r : ResultsOf α) (e : Edit α) :
    (e.map f).apply (r.map f) = (e.apply r).map fun (taken, r) => (taken.map f, r.map f) := by
  cases e with
  | push v => simp only [Edit.map, Edit.apply, Option.map_some, Option.map_none, ResultsOf.map_push]
  | insert i v =>
    simp only [Edit.map, Edit.apply, ResultsOf.map_insert?, Option.map_map]
    rfl
  | pop =>
    simp only [Edit.map, Edit.apply, Option.map_some, ResultsOf.pop, ResultsOf.map, List.getLast?_map,
      List.map_dropLast]
  | setTokens vs => rfl
  | clear => rfl
  | setField name v => simp only [Edit.map, Edit.apply, Option.map_some, Option.map_none, ResultsOf.map_setField]
  | appendField name v =>
    simp only [Edit.map, Edit.apply, Option.map_some, Option.map_none, ResultsOf.map_appendField]
  | removeField name =>
    simp only [Edit.map, Edit.apply, Option.map_some, ResultsOf.removeField]
    rw [← ResultsOf.get?, ResultsOf.get?_map, ResultsOf.get?]
    simp only [ResultsOf.map, List.eraseP_map]
    rfl
  | extend other => simp only [Edit.map, Edit.apply, Option.map_some, Option.map_none, ResultsOf.map_extend]
  | reverse =>
    simp only [Edit.map, Edit.apply, Option.map_some, Option.map_none, ResultsOf.map_setTokens, List.map_reverse]
    rfl

theorem values_map (f : α → β) (e : Edit α) : (e.map f).values = e.values.map f := by
  cases e with
  | extend other => exact ResultsOf.values_map f other
  | setTokens vs => rfl
  | push v | insert i v | setField name v | appendField name v => rfl
  | pop | clear | removeField name | reverse => rfl

theorem map_map {γ : Type} (f : α → β) (k : β → γ) (e : Edit α) : (e.map f).map k = e.map (k ∘ f) := by
  cases e with
  | extend other => simp only [Edit.map, ResultsOf.map_map]
  | setTokens vs => simp only [Edit.map, List.map_map]
  | push v | insert i v | setField name v | appendField name v => rfl
  | pop | clear | removeField name | reverse => rfl

/-- Maps that agree on what a change brings in make the same change of it. -/
theorem map_congr {g : α → β} {e : Edit α} (h : ∀ v ∈ e.values, f v = g v) : e.map f = e.map g := by
  cases e with
  | push v | insert i v | setField name v | appendField name v =>
    simp only [Edit.map, h v List.mem_cons_self]
  | setTokens vs =>
    simp only [Edit.map, Edit.setTokens.injEq]
    exact List.map_congr_left h
  | extend other => simp only [Edit.map, ResultsOf.map_congr h]
  | pop | clear | removeField name | reverse => rfl

/-- A change that brings in only values with a property is one over the values that have it. -/
theorem map_attach {P : α → Prop} {e : Edit α} (h : ∀ v ∈ e.values, P v) :
    ∃ p : Edit {v // P v}, p.map Subtype.val = e := by
  cases e with
  | push v => exact ⟨.push ⟨v, h v List.mem_cons_self⟩, rfl⟩
  | insert i v => exact ⟨.insert i ⟨v, h v List.mem_cons_self⟩, rfl⟩
  | setField name v => exact ⟨.setField name ⟨v, h v List.mem_cons_self⟩, rfl⟩
  | appendField name v => exact ⟨.appendField name ⟨v, h v List.mem_cons_self⟩, rfl⟩
  | setTokens vs =>
    obtain ⟨ps, rfl⟩ : vs ∈ Set.range (List.map (Subtype.val (p := P))) := by
      rw [Set.range_list_map]
      intro v hv
      exact ⟨⟨v, h v hv⟩, rfl⟩
    exact ⟨.setTokens ps, rfl⟩
  | extend other =>
    obtain ⟨p, rfl⟩ := ResultsOf.map_attach h
    exact ⟨.extend p, rfl⟩
  | pop => exact ⟨.pop, rfl⟩
  | clear => exact ⟨.clear, rfl⟩
  | removeField name => exact ⟨.removeField name, rfl⟩
  | reverse => exact ⟨.reverse, rfl⟩

/-- **A change brings in nothing but the values that it carries**: what it leaves and what it takes away was there, or
came with it. -/
theorem apply_values {e : Edit α} {r left : ResultsOf α} {taken : Option α} (happly : e.apply r = some (taken, left)) :
    (∀ v ∈ left.values, v ∈ r.values ∨ v ∈ e.values) ∧ ∀ v ∈ taken, v ∈ r.values ∨ v ∈ e.values := by
  -- the change is one over the values that were there or came with it
  obtain ⟨p, hp⟩ := ResultsOf.map_attach (P := fun v => v ∈ r.values ∨ v ∈ e.values) fun v hv => Or.inl hv
  obtain ⟨q, hq⟩ := map_attach (P := fun v => v ∈ r.values ∨ v ∈ e.values) fun v hv => Or.inr hv
  have hmap := apply_map Subtype.val p q
  rw [hp, hq, happly] at hmap
  obtain ⟨⟨taken', left'⟩, -, heq⟩ := Option.map_eq_some_iff.mp hmap.symm
  obtain ⟨rfl, rfl⟩ := Prod.mk.inj heq
  constructor
  · intro v hv
    rw [ResultsOf.values_map] at hv
    obtain ⟨w, -, rfl⟩ := List.mem_map.mp hv
    exact w.property
  · intro v hv
    obtain ⟨w, -, rfl⟩ := Option.map_eq_some_iff.mp hv
    exact w.property

end Edit
end Packrat
