import Mathlib.Data.List.Nodup
import Packrat.Results.View

/-!
# `Packrat.Proofs.Tables.Lookup` — tables in order

Results have several ways to look up a field: whether there is one, its name among the names, its last value, what it
shows, all its values, and the map of all fields. They go about it in different ways, and agree on which fields there are
only if the table is in order: no two fields of one name, and no field without entries.

## Contents

* `ResultsOf.InOrder` — fields of different names, each with an entry;
* `ResultsOf.Consistent` — lookups that agree on which fields there are;
* `perm_keys_sortedMap` — a map has the keys that were put into it;
* `InOrder.consistent` — **lookups agree on tables in order**.
-/

namespace Packrat

variable {α : Type}

/-- Fields of different names, each with at least one entry. -/
structure ResultsOf.InOrder (r : ResultsOf α) : Prop where
  names : r.names.Nodup
  entries : ∀ f ∈ r.fields, f.entries ≠ []

/-- Lookups that agree on which fields there are. -/
structure ResultsOf.Consistent (r : Results) : Prop where
  distinct : r.names.Nodup
  recorded : ∀ f ∈ r.fields, f.entries ≠ []
  hasField : ∀ name, r.hasField name = true ↔ name ∈ r.names
  get : ∀ name, (r.get? name).isSome ↔ name ∈ r.names
  field : ∀ name, (r.field? name).isSome ↔ name ∈ r.names
  values : ∀ name, r.fieldValues name ≠ [] ↔ name ∈ r.names
  last : ∀ name, (r.field? name).bind FieldView.last? = r.get? name
  keys : (r.toMap.map Prod.fst).Perm r.names

/-! ## Looking a name up -/

namespace Field

variable {f : Field α}

theorem isSome_last?_iff : f.last?.isSome ↔ f.entries ≠ [] := by
  rw [last?, Option.isSome_map, List.getLast?_isSome]

theorem isSome_view? (h : f.entries ≠ []) : f.view?.isSome := by
  unfold view?
  split
  · rfl
  · rwa [Option.isSome_map, isSome_last?_iff]

theorem values_ne_nil_iff : f.values ≠ [] ↔ f.entries ≠ [] := not_congr List.map_eq_nil_iff

/-- The last of what a field shows is its last value. -/
theorem last?_view? (f : Field α) : f.view?.bind FieldView.last? = f.last? := by
  unfold view?
  split
  · show f.values.getLast? = f.last?
    rw [values, List.getLast?_map]
    rfl
  · rw [Option.bind_map]
    exact Option.bind_fun_some f.last?

end Field

namespace ResultsOf

variable {r : ResultsOf α}

/-- A name is that of a field, which is found, or there is none to find. -/
theorem find?_cases (r : ResultsOf α) (name : String) :
    (name ∉ r.names ∧ r.find? name = none) ∨ ∃ f ∈ r.fields, name ∈ r.names ∧ r.find? name = some f := by
  cases h : r.find? name with
  | none =>
    refine Or.inl ⟨fun hmem => ?_, rfl⟩
    obtain ⟨f, hf, hname⟩ := List.mem_map.mp hmem
    exact List.find?_eq_none.mp h f hf (beq_iff_eq.mpr hname)
  | some f =>
    have hname : f.name = name := by simpa using List.find?_some h
    have hf : f ∈ r.fields := List.mem_of_find?_eq_some h
    exact Or.inr ⟨f, hf, hname ▸ List.mem_map_of_mem hf, rfl⟩

theorem hasField_iff (name : String) : r.hasField name = true ↔ name ∈ r.names := by
  simp [hasField, names]

variable (h : ∀ f ∈ r.fields, f.entries ≠ [])
include h

theorem isSome_get?_iff (name : String) : (r.get? name).isSome ↔ name ∈ r.names := by
  rcases r.find?_cases name with ⟨hname, hfind⟩ | ⟨f, hf, hname, hfind⟩
  · simp [get?, hfind, hname]
  · simp [get?, hfind, hname, Field.isSome_last?_iff, h f hf]

theorem isSome_field?_iff (name : String) : (r.field? name).isSome ↔ name ∈ r.names := by
  rcases r.find?_cases name with ⟨hname, hfind⟩ | ⟨f, hf, hname, hfind⟩
  · simp [field?, hfind, hname]
  · simp [field?, hfind, hname, Field.isSome_view? (h f hf)]

theorem fieldValues_ne_nil_iff (name : String) : r.fieldValues name ≠ [] ↔ name ∈ r.names := by
  rcases r.find?_cases name with ⟨hname, hfind⟩ | ⟨f, hf, hname, hfind⟩
  · simp [fieldValues, hfind, hname]
  · simpa [fieldValues, hfind, hname] using Field.values_ne_nil_iff.mpr (h f hf)

omit h in
/-- What a name shows ends with its last value. -/
theorem last?_field? (name : String) : (r.field? name).bind FieldView.last? = r.get? name := by
  rw [field?, get?, Option.bind_assoc]
  exact congrArg _ (funext Field.last?_view?)

end ResultsOf

/-! ## The keys of maps -/

theorem perm_keys_insertSorted {β : Type} {key : String} (item : β) {m : List (String × β)}
    (hnew : key ∉ m.map Prod.fst) : ((insertSorted key item m).map Prod.fst).Perm (key :: m.map Prod.fst) := by
  induction m with
  | nil => exact List.Perm.refl _
  | cons entry rest ih =>
    obtain ⟨k, x⟩ := entry
    obtain ⟨hne, hnew⟩ : ¬ key = k ∧ key ∉ rest.map Prod.fst := by simpa using hnew
    rw [insertSorted, if_neg hne]
    split
    · exact List.Perm.refl _
    · exact ((ih hnew).cons k).trans (List.Perm.swap key k _)

/-- A map has the keys that were put into it, if these are different. -/
theorem perm_keys_sortedMap {β : Type} {items : List (String × β)} (hkeys : (items.map Prod.fst).Nodup) :
    ((sortedMap items).map Prod.fst).Perm (items.map Prod.fst) := by
  have hgrow (items m : List (String × β)) (hkeys : (m.map Prod.fst ++ items.map Prod.fst).Nodup) :
      ((items.foldl (fun m item => insertSorted item.1 item.2 m) m).map Prod.fst).Perm
        (m.map Prod.fst ++ items.map Prod.fst) := by
    induction items generalizing m with
    | nil => simp
    | cons item items ih =>
      obtain ⟨key, item⟩ := item
      have hmiddle : (m.map Prod.fst ++ key :: items.map Prod.fst).Perm
          (key :: (m.map Prod.fst ++ items.map Prod.fst)) := List.perm_middle
      have hnodup := hmiddle.nodup_iff.mp hkeys
      have hnew : key ∉ m.map Prod.fst := fun hmem =>
        (List.nodup_cons.mp hnodup).1 (List.mem_append_left _ hmem)
      have hinsert := (perm_keys_insertSorted item hnew).append_right (items.map Prod.fst)
      exact (ih _ (hinsert.nodup_iff.mpr hnodup)).trans (hinsert.trans hmiddle.symm)
  exact hgrow items [] (by simpa using hkeys)

/-! ## The map of all fields -/

theorem length_toMapLast {es : List (Entry Value)} (h : es ≠ []) : (Value.toMapLast es).length = 1 := by
  induction es with
  | nil => exact absurd rfl h
  | cons e es ih =>
    cases es with
    | nil => rfl
    | cons e' es => exact ih (List.cons_ne_nil _ _)

/-- A field with an entry is shown under its name. -/
theorem keys_toMapField {f : Field Value} (h : f.entries ≠ []) : (Value.toMapField f).map Prod.fst = [f.name] := by
  obtain ⟨name, accumulates, entries⟩ := f
  rw [Value.toMapField]
  split
  · rfl
  · obtain ⟨x, hx⟩ := List.length_eq_one_iff.mp (length_toMapLast h)
    rw [hx]
    rfl

theorem keys_toMapItems {fs : List (Field Value)} (h : ∀ f ∈ fs, f.entries ≠ []) :
    (Value.toMapItems fs).map Prod.fst = fs.map (·.name) := by
  induction fs with
  | nil => rfl
  | cons f fs ih =>
    rw [Value.toMapItems, List.map_append, keys_toMapField (h f List.mem_cons_self),
      ih fun g hg => h g (List.mem_cons_of_mem _ hg)]
    rfl

/-! ## Tables in order -/

/-- **Lookups agree on tables in order.** -/
theorem ResultsOf.InOrder.consistent {r : Results} (h : r.InOrder) : r.Consistent where
  distinct := h.names
  recorded := h.entries
  hasField := hasField_iff
  get := isSome_get?_iff h.entries
  field := isSome_field?_iff h.entries
  values := fieldValues_ne_nil_iff h.entries
  last := last?_field?
  keys := by
    have hkeys := keys_toMapItems h.entries
    have hdistinct : ((Value.toMapItems r.fields).map Prod.fst).Nodup := by
      rw [hkeys]
      exact h.names
    exact (perm_keys_sortedMap hdistinct).trans (.of_eq hkeys)

end Packrat
