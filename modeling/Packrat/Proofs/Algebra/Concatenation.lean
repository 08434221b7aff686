import Mathlib.Data.List.Nodup
import Packrat.Results.Basic

/-!
# `Packrat.Proofs.Algebra.Concatenation` — results one after the other

Concatenation adds the fields of the second results to the table of the first, each after the field of its name if
there is one, with its entries moved along. Whether three results are put together from the left or from the right makes
no difference as long as the fields in the middle have different names, which the fields of results put together by
concatenation do.

## Contents

* `Field` — appending fields and moving their entries along;
* `ResultsOf.addFields` — tables added to tables;
* `ResultsOf.extend_assoc` — **concatenation is associative**;
* `ResultsOf.SameContent` — results that differ at most in their origin.
-/

namespace Packrat

variable {α : Type}

/-! ## Fields -/

namespace Field

@[simp] theorem name_append (f g : Field α) : (f.append g).name = f.name := rfl

@[simp] theorem name_mapEntries (move : Entry α → Entry α) (f : Field α) : (f.mapEntries move).name = f.name := rfl

theorem append_assoc (f g h : Field α) : (f.append g).append h = f.append (g.append h) := by
  simp [append, Bool.or_assoc]

theorem mapEntries_append (move : Entry α → Entry α) (f g : Field α) :
    (f.append g).mapEntries move = (f.mapEntries move).append (g.mapEntries move) := by
  simp [append, mapEntries]

/-- Moving entries along twice moves them along by the sum. -/
theorem mapEntries_shift_shift (m n : Nat) (f : Field α) :
    (f.mapEntries (Entry.shift m)).mapEntries (Entry.shift n) = f.mapEntries (Entry.shift (n + m)) := by
  simp only [mapEntries, List.map_map]
  refine congrArg (fun entries => ({ f with entries } : Field α)) (List.map_congr_left fun e _ => ?_)
  simp only [Function.comp, Entry.shift, Nat.add_assoc, Nat.add_comm n m]

end Field

namespace ResultsOf

/-! ## One field -/

theorem names_addField (f : Field α) (fs : List (Field α)) :
    (addField f fs).map (·.name)
      = if f.name ∈ fs.map (·.name) then fs.map (·.name) else fs.map (·.name) ++ [f.name] := by
  induction fs with
  | nil => rfl
  | cons g gs ih =>
    by_cases hname : g.name = f.name
    · simp [addField, hname]
    · have hne : ¬ f.name = g.name := fun h => hname h.symm
      rw [addField, if_neg hname, List.map_cons, ih, List.map_cons]
      by_cases hmem : f.name ∈ gs.map (·.name)
      · rw [if_pos hmem, if_pos (List.mem_cons_of_mem _ hmem)]
      · rw [if_neg hmem, if_neg (by simpa [hne] using hmem), List.cons_append]

/-- A table whose fields have different names keeps them different. -/
theorem nodup_addField {fs : List (Field α)} (h : (fs.map (·.name)).Nodup) (f : Field α) :
    ((addField f fs).map (·.name)).Nodup := by
  rw [names_addField]
  split
  · exact h
  · next hmem => exact h.append (List.nodup_singleton _) (by simpa using hmem)

theorem mem_names_addField (f : Field α) (fs : List (Field α)) : f.name ∈ (addField f fs).map (·.name) := by
  rw [names_addField]
  split
  · assumption
  · simp

theorem map_addField (move : Entry α → Entry α) (f : Field α) (fs : List (Field α)) :
    (addField f fs).map (Field.mapEntries move) = addField (f.mapEntries move) (fs.map (Field.mapEntries move)) := by
  induction fs with
  | nil => rfl
  | cons g gs ih =>
    by_cases hname : g.name = f.name
    · simp [addField, hname, Field.mapEntries_append]
    · simp [addField, hname, ih]

/-- Fields of one name can be appended before they are added. -/
theorem addField_append {f g : Field α} (h : f.name = g.name) (fs : List (Field α)) :
    addField (f.append g) fs = addField g (addField f fs) := by
  induction fs with
  | nil => simp [addField, h]
  | cons k ks ih =>
    by_cases hname : k.name = f.name
    · simp [addField, hname, h, Field.append_assoc]
    · have hname' : ¬ k.name = g.name := h ▸ hname
      simp [addField, hname, hname', ih]

/-- A field that has its place in the table can be added before or after one of another name. -/
theorem addField_comm {f g : Field α} (hne : f.name ≠ g.name) {fs : List (Field α)} (hg : g.name ∈ fs.map (·.name)) :
    addField f (addField g fs) = addField g (addField f fs) := by
  induction fs with
  | nil => exact absurd hg List.not_mem_nil
  | cons k ks ih =>
    by_cases hkf : k.name = f.name
    · have hkg : ¬ k.name = g.name := fun h => hne (hkf.symm.trans h)
      simp [addField, hkf, hne]
    by_cases hkg : k.name = g.name
    · have hgf : ¬ g.name = f.name := fun h => hne h.symm
      simp [addField, hkg, hgf]
    · have hmem : g.name ∈ ks.map (·.name) := by
        rcases List.mem_cons.mp hg with h | h
        · exact absurd h.symm hkg
        · exact h
      simp [addField, hkf, hkg, ih hmem]

/-! ## Tables -/

/-- Adds the fields of a table to another one. -/
def addFields (fs gs : List (Field α)) : List (Field α) := gs.foldl (fun fs f => addField f fs) fs

@[simp] theorem addFields_nil (fs : List (Field α)) : addFields fs [] = fs := rfl

@[simp] theorem addFields_cons (fs gs : List (Field α)) (g : Field α) :
    addFields fs (g :: gs) = addFields (addField g fs) gs := rfl

theorem nodup_addFields {fs : List (Field α)} (h : (fs.map (·.name)).Nodup) (gs : List (Field α)) :
    ((addFields fs gs).map (·.name)).Nodup := by
  induction gs generalizing fs with
  | nil => exact h
  | cons g gs ih => exact ih (nodup_addField h g)

theorem map_addFields (move : Entry α → Entry α) (fs gs : List (Field α)) :
    (addFields fs gs).map (Field.mapEntries move)
      = addFields (fs.map (Field.mapEntries move)) (gs.map (Field.mapEntries move)) := by
  induction gs generalizing fs with
  | nil => rfl
  | cons g gs ih => rw [addFields_cons, ih, map_addField, List.map_cons, addFields_cons]

/-- A field that has its place in the table can be added before or after fields of other names. -/
theorem addFields_addField_comm {f : Field α} {fs gs : List (Field α)} (hplace : f.name ∈ fs.map (·.name))
    (hothers : f.name ∉ gs.map (·.name)) : addFields (addField f fs) gs = addField f (addFields fs gs) := by
  induction gs generalizing fs with
  | nil => rfl
  | cons g gs ih =>
    obtain ⟨hne, hothers⟩ : ¬ f.name = g.name ∧ f.name ∉ gs.map (·.name) := by simpa using hothers
    have hplace' : f.name ∈ (addField g fs).map (·.name) := by
      rw [names_addField]
      split
      · exact hplace
      · exact List.mem_append_left _ hplace
    rw [addFields_cons, addFields_cons, addField_comm (fun h => hne h.symm) hplace, ih hplace' hothers]

/-- A field can be added to a table before or after that one is added to another. -/
theorem addFields_addField {f : Field α} {fs gs : List (Field α)} (hgs : (gs.map (·.name)).Nodup) :
    addFields fs (addField f gs) = addField f (addFields fs gs) := by
  induction gs generalizing fs with
  | nil => rfl
  | cons g gs ih =>
    obtain ⟨hg, hgs⟩ := List.nodup_cons.mp hgs
    by_cases hname : g.name = f.name
    · -- the fields of that name meet in the table, and those after it have other names
      rw [addField, if_pos hname, addFields_cons, addFields_cons, addField_append hname]
      exact addFields_addField_comm (hname ▸ mem_names_addField g fs) (hname ▸ hg)
    · rw [addField, if_neg hname, addFields_cons, addFields_cons, ih hgs]

theorem addFields_assoc (fs : List (Field α)) {gs : List (Field α)} (hgs : (gs.map (·.name)).Nodup)
    (hs : List (Field α)) : addFields fs (addFields gs hs) = addFields (addFields fs gs) hs := by
  induction hs generalizing gs with
  | nil => rfl
  | cons h hs ih => rw [addFields_cons, addFields_cons, ih (nodup_addField hgs h), addFields_addField hgs]

/-! ## Results -/

theorem fields_extend (a b : ResultsOf α) :
    (a.extend b).fields = addFields a.fields (b.fields.map (Field.mapEntries (Entry.shift a.length))) := by
  rw [addFields, List.foldl_map]
  rfl

/-- Results put together from what has fields of different names have fields of different names. -/
theorem nodup_names_extend {a : ResultsOf α} (h : a.names.Nodup) (b : ResultsOf α) : (a.extend b).names.Nodup := by
  rw [names, fields_extend]
  exact nodup_addFields h _

theorem length_extend (a b : ResultsOf α) : (a.extend b).length = a.length + b.length := List.length_append

@[simp] theorem extend_empty (a : ResultsOf α) : a.extend {} = a := by
  cases a
  simp [extend]

/-- **Concatenation is associative** if the fields in the middle have different names. -/
theorem extend_assoc (a : ResultsOf α) {b : ResultsOf α} (hb : b.names.Nodup) (c : ResultsOf α) :
    (a.extend b).extend c = a.extend (b.extend c) := by
  have hmove (xs : List (Field α)) : xs.map (Field.mapEntries (Entry.shift (a.extend b).length))
      = (xs.map (Field.mapEntries (Entry.shift b.length))).map (Field.mapEntries (Entry.shift a.length)) := by
    rw [List.map_map, length_extend]
    exact List.map_congr_left fun f _ => (Field.mapEntries_shift_shift _ _ f).symm
  have hnames : ((b.fields.map (Field.mapEntries (Entry.shift a.length))).map (·.name)).Nodup := by
    rw [List.map_map]
    exact hb
  have hfields : ((a.extend b).extend c).fields = (a.extend (b.extend c)).fields := by
    rw [fields_extend, fields_extend, fields_extend, fields_extend, map_addFields, addFields_assoc _ hnames, hmove]
  have htokens : ((a.extend b).extend c).tokens = (a.extend (b.extend c)).tokens := List.append_assoc _ _ _
  calc (a.extend b).extend c
      = ⟨((a.extend b).extend c).tokens, ((a.extend b).extend c).fields, a.origin⟩ := rfl
    _ = ⟨(a.extend (b.extend c)).tokens, (a.extend (b.extend c)).fields, a.origin⟩ := by rw [htokens, hfields]
    _ = a.extend (b.extend c) := rfl

/-! ## Results up to their origin -/

/-- The same tokens and fields; the nodes whose matches made them may differ. -/
structure SameContent (a b : ResultsOf α) : Prop where
  tokens : a.tokens = b.tokens
  fields : a.fields = b.fields

namespace SameContent

variable {a b : ResultsOf α}

@[refl] protected theorem refl (a : ResultsOf α) : a.SameContent a := ⟨rfl, rfl⟩

theorem withOrigin (h : a.SameContent b) (i j : ExprId) : (a.withOrigin i).SameContent (b.withOrigin j) :=
  ⟨h.tokens, h.fields⟩

end SameContent
end ResultsOf
end Packrat
