import Mathlib.Logic.Relation
import Packrat.Proofs.Algebra.Concatenation
import Packrat.Proofs.Sharing.Edits
import Packrat.Proofs.Tables.Lookup

/-!
# `Packrat.Proofs.Tables.Order` — operations keep tables in order

All that is ever recorded goes through `addField`, which puts entries after those of a field of the same name if there is
one, so names stay different from each other. Entries are taken away only together with their field. Groups are results
themselves, so the same must be kept of every group inside results; an operation brings in no group but those that it is
given, and those that it makes of what is there.

## Contents

* `InOrder.record`, …, `InOrder.extend`, `Edit.inOrder_apply` — each operation keeps a table in order;
* `ResultsOf.InOrderThroughout`, `inOrderThroughout_iff` — the tables of results and of all groups inside them;
* `InOrderThroughout.apply` — **changes keep all tables in order**;
* `InOrderThroughout.nameTokens`, `InOrderThroughout.nameGroupsByKey` — and so does what matching records.
-/

namespace Packrat

variable {α β : Type}

/-! ## One table -/

namespace ResultsOf

theorem entries_addField {f : Field α} {fs : List (Field α)} (hfs : ∀ g ∈ fs, g.entries ≠ []) (hf : f.entries ≠ []) :
    ∀ g ∈ addField f fs, g.entries ≠ [] := by
  induction fs with
  | nil => exact List.forall_mem_singleton.mpr hf
  | cons g gs ih =>
    obtain ⟨hg, hgs⟩ := List.forall_mem_cons.mp hfs
    rw [addField]
    split
    · exact List.forall_mem_cons.mpr ⟨List.append_ne_nil_of_left_ne_nil hg _, hgs⟩
    · exact List.forall_mem_cons.mpr ⟨hg, ih hgs⟩

theorem entries_addFields {fs gs : List (Field α)} (hfs : ∀ g ∈ fs, g.entries ≠ []) (hgs : ∀ g ∈ gs, g.entries ≠ []) :
    ∀ g ∈ addFields fs gs, g.entries ≠ [] := by
  induction gs generalizing fs with
  | nil => exact hfs
  | cons g gs ih =>
    obtain ⟨hg, hgs⟩ := List.forall_mem_cons.mp hgs
    exact ih (entries_addField hfs hg) hgs

theorem entries_mapEntries {move : Entry α → Entry α} {fs : List (Field α)} (h : ∀ f ∈ fs, f.entries ≠ []) :
    ∀ f ∈ fs.map (Field.mapEntries move), f.entries ≠ [] :=
  List.forall_mem_map.mpr fun f hf => mt List.map_eq_nil_iff.mp (h f hf)

/-- A table without fields is in order. -/
theorem inOrder_of_nil {r : ResultsOf α} (h : r.fields = []) : r.InOrder :=
  ⟨by simp [names, h], by simp [h]⟩

namespace InOrder

variable {r other : ResultsOf α} (h : r.InOrder)
include h

/-- Only the table counts. -/
theorem of_fields {r' : ResultsOf α} (hfields : r'.fields = r.fields) : r'.InOrder :=
  ⟨by rw [ResultsOf.names, hfields]; exact h.names, hfields ▸ h.entries⟩

/-- Entries may be moved along or back. -/
theorem of_mapEntries {r' : ResultsOf α} {move : Entry α → Entry α}
    (hfields : r'.fields = r.fields.map (Field.mapEntries move)) : r'.InOrder := by
  refine ⟨?_, hfields ▸ entries_mapEntries h.entries⟩
  rw [ResultsOf.names, hfields, List.map_map]
  exact h.names

/-- Fields may be taken away. -/
theorem of_sublist {r' : ResultsOf α} (hfields : r'.fields.Sublist r.fields) : r'.InOrder :=
  ⟨h.names.sublist (hfields.map _), fun f hf => h.entries f (hfields.subset hf)⟩

theorem record (name : String) (accumulates : Bool) (v : α) (offset : Nat) :
    (r.record name accumulates v offset).InOrder :=
  ⟨nodup_addField h.names _, entries_addField h.entries (List.cons_ne_nil _ _)⟩

theorem setField (name : String) (v : α) : (r.setField name v).InOrder :=
  record (h.of_sublist List.filter_sublist) name false v r.length

theorem removeField (name : String) : (r.removeField name).2.InOrder := h.of_sublist List.eraseP_sublist

theorem extend (hother : other.InOrder) : (r.extend other).InOrder := by
  refine ⟨nodup_names_extend h.names other, ?_⟩
  rw [fields_extend]
  exact entries_addFields h.entries (entries_mapEntries hother.entries)

omit h in
/-- What the values are does not matter. -/
theorem map_iff {f : α → β} : (r.map f).InOrder ↔ r.InOrder := by
  have hnames : (r.map f).names = r.names := by
    show (r.fields.map (Field.map f)).map (·.name) = r.fields.map (·.name)
    rw [List.map_map]
    rfl
  have hentries : (∀ x ∈ (r.map f).fields, x.entries ≠ []) ↔ ∀ x ∈ r.fields, x.entries ≠ [] := by
    show (∀ x ∈ r.fields.map (Field.map f), x.entries ≠ []) ↔ _
    rw [List.forall_mem_map]
    exact forall₂_congr fun x _ => not_congr List.map_eq_nil_iff
  exact ⟨fun h => ⟨hnames ▸ h.names, hentries.mp h.entries⟩, fun h => ⟨hnames ▸ h.names, hentries.mpr h.entries⟩⟩

end InOrder
end ResultsOf

/-- The table that a change brings in, if it brings in one, is in order. -/
def Edit.InOrder (e : Edit α) : Prop := ∀ other, e = .extend other → other.InOrder

/-- What the values are does not matter. -/
theorem Edit.inOrder_map_iff {e : Edit α} {f : α → β} : (e.map f).InOrder ↔ e.InOrder := by
  cases e with
  | extend r =>
    have hextend {γ : Type} {r : ResultsOf γ} : (Edit.extend r).InOrder ↔ r.InOrder :=
      ⟨fun h => h r rfl, fun h _ heq => Edit.extend.inj heq ▸ h⟩
    exact hextend.trans (ResultsOf.InOrder.map_iff.trans hextend.symm)
  | push | insert | pop | setTokens | clear | setField | appendField | removeField | reverse =>
    exact iff_of_true (fun _ heq => nomatch heq) fun _ heq => nomatch heq

/-- A change keeps a table in order. -/
theorem Edit.inOrder_apply {e : Edit α} {r left : ResultsOf α} {taken : Option α} (hr : r.InOrder) (he : e.InOrder)
    (happly : e.apply r = some (taken, left)) : left.InOrder := by
  cases e with
  | push | pop | setTokens | reverse =>
    obtain ⟨-, rfl⟩ := Prod.mk.inj (Option.some.inj happly)
    exact hr.of_fields rfl
  | insert i v =>
    obtain ⟨inserted, hinserted, heq⟩ := Option.map_eq_some_iff.mp happly
    obtain ⟨-, rfl⟩ := Prod.mk.inj heq
    unfold ResultsOf.insert? at hinserted
    split at hinserted
    · obtain rfl := Option.some.inj hinserted
      exact hr.of_mapEntries rfl
    · exact nomatch hinserted
  | clear =>
    obtain ⟨-, rfl⟩ := Prod.mk.inj (Option.some.inj happly)
    exact ResultsOf.inOrder_of_nil rfl
  | setField name v =>
    obtain ⟨-, rfl⟩ := Prod.mk.inj (Option.some.inj happly)
    exact hr.setField name v
  | appendField name v =>
    obtain ⟨-, rfl⟩ := Prod.mk.inj (Option.some.inj happly)
    exact hr.record name true v r.length
  | removeField name =>
    obtain ⟨-, rfl⟩ := Prod.mk.inj (Option.some.inj happly)
    exact hr.removeField name
  | extend other =>
    obtain ⟨-, rfl⟩ := Prod.mk.inj (Option.some.inj happly)
    exact hr.extend (he other rfl)

/-! ## The groups inside -/

/-- A group is one of the values of results. -/
def ResultsOf.HasGroup (r g : Results) : Prop := .group g ∈ r.values

/-- Tables in order, of results and of every group inside them at any depth. -/
def ResultsOf.InOrderThroughout (r : Results) : Prop := ∀ g, Relation.ReflTransGen HasGroup r g → g.InOrder

/-- A value that is no group, or a group with all tables in order. -/
def Value.InOrder (v : Value) : Prop := ∀ g, v = .group g → g.InOrderThroughout

theorem Value.inOrder_leaf (l : Leaf) : (Value.leaf l).InOrder := fun _ h => nomatch h

theorem Value.inOrder_group {r : Results} : (Value.group r).InOrder ↔ r.InOrderThroughout :=
  ⟨fun h => h r rfl, fun h _ hg => Value.group.inj hg ▸ h⟩

namespace ResultsOf

variable {r other : Results}

theorem inOrderThroughout_iff : r.InOrderThroughout ↔ r.InOrder ∧ ∀ v ∈ r.values, v.InOrder := by
  constructor
  · refine fun h => ⟨h r .refl, fun v hv g hg g' hwithin => h g' (.head ?_ hwithin)⟩
    exact (hg ▸ hv : Value.group g ∈ r.values)
  · rintro ⟨htable, hvalues⟩ g hwithin
    rcases Relation.ReflTransGen.cases_head hwithin with rfl | ⟨g', hgroup, hwithin⟩
    · exact htable
    · exact hvalues (.group g') hgroup g' rfl g hwithin

theorem inOrderThroughout_ofTokens {tokens : List Value} (h : ∀ v ∈ tokens, v.InOrder) :
    (ofTokens tokens).InOrderThroughout :=
  inOrderThroughout_iff.mpr ⟨inOrder_of_nil rfl, fun v hv => h v (by simpa [ofTokens, values] using hv)⟩

theorem inOrderThroughout_single {v : Value} (h : v.InOrder) : (single v).InOrderThroughout :=
  inOrderThroughout_ofTokens (List.forall_mem_singleton.mpr h)

theorem inOrderThroughout_empty : ({} : Results).InOrderThroughout := inOrderThroughout_ofTokens (by simp)

/-- What is recorded under a name is the only value that is new. -/
theorem values_record {name : String} {accumulates : Bool} {x : α} {offset : Nat} {r : ResultsOf α} {v : α}
    (h : v ∈ (r.record name accumulates x offset).values) : v ∈ r.values ∨ v = x := by
  have hadd (f : Field α) (fs : List (Field α)) :
      ∀ v ∈ (addField f fs).flatMap Field.values, v ∈ fs.flatMap Field.values ∨ v ∈ f.values := by
    intro v hv
    induction fs with
    | nil => exact Or.inr (by simpa [addField] using hv)
    | cons g gs ih =>
      rw [addField] at hv
      split at hv
      · simp only [List.flatMap_cons, Field.append, Field.values, List.map_append, List.mem_append] at hv ⊢
        tauto
      · rw [List.flatMap_cons, List.mem_append] at hv ⊢
        exact hv.elim (fun hv => Or.inl (Or.inl hv)) fun hv => (ih hv).imp_left Or.inr
  rcases List.mem_append.mp h with h | h
  · exact Or.inl (List.mem_append_left _ h)
  · exact (hadd _ _ v h).imp (List.mem_append_right _) List.mem_singleton.mp

namespace InOrderThroughout

variable (h : r.InOrderThroughout)
include h

theorem inOrder : r.InOrder := h r .refl

theorem value {v : Value} (hv : v ∈ r.values) : v.InOrder := (inOrderThroughout_iff.mp h).2 v hv

theorem token {v : Value} (hv : v ∈ r.tokens) : v.InOrder := h.value (List.mem_append_left _ hv)

/-- **Changes keep all tables in order**, and take away values with all tables in order. -/
theorem apply {e : Edit Value} {left : Results} {taken : Option Value} (he : e.InOrder)
    (hvalues : ∀ v ∈ e.values, v.InOrder) (happly : e.apply r = some (taken, left)) :
    left.InOrderThroughout ∧ ∀ v ∈ taken, v.InOrder := by
  obtain ⟨hleft, htaken⟩ := Edit.apply_values happly
  have hboth (v : Value) (hv : v ∈ r.values ∨ v ∈ e.values) : v.InOrder := hv.elim h.value (hvalues v)
  refine ⟨inOrderThroughout_iff.mpr ⟨Edit.inOrder_apply h.inOrder he happly, ?_⟩, ?_⟩
  · exact fun v hv => hboth v (hleft v hv)
  · exact fun v hv => hboth v (htaken v hv)

theorem extend (hother : other.InOrderThroughout) : (r.extend other).InOrderThroughout := by
  have he : (Edit.extend other).InOrder := fun _ heq => Edit.extend.inj heq ▸ hother.inOrder
  exact (h.apply he (fun v hv => hother.value hv) rfl).1

theorem setTokens {tokens : List Value} (htokens : ∀ v ∈ tokens, v.InOrder) : (r.setTokens tokens).InOrderThroughout :=
  (h.apply (e := .setTokens tokens) (fun _ heq => nomatch heq) htokens rfl).1

theorem setField (name : String) {v : Value} (hv : v.InOrder) : (r.setField name v).InOrderThroughout :=
  (h.apply (e := .setField name v) (fun _ heq => nomatch heq) (List.forall_mem_singleton.mpr hv) rfl).1

theorem record (name : String) (accumulates : Bool) {v : Value} (hv : v.InOrder) (offset : Nat) :
    (r.record name accumulates v offset).InOrderThroughout := by
  refine inOrderThroughout_iff.mpr ⟨h.inOrder.record name accumulates v offset, fun w hw => ?_⟩
  rcases values_record hw with hw | rfl
  · exact h.value hw
  · exact hv

theorem withOrigin (id : ExprId) : (r.withOrigin id).InOrderThroughout :=
  inOrderThroughout_iff.mpr ⟨h.inOrder.of_fields rfl, fun _ hv => h.value hv⟩

/-- What a name records of tokens keeps all tables in order. -/
theorem nameTokens (name : String) (accumulates asList : Bool) :
    (r.nameTokens name accumulates asList).InOrderThroughout := by
  unfold ResultsOf.nameTokens
  split
  · exact h
  · next only htokens =>
    exact h.record name accumulates (h.token (by rw [htokens]; exact List.mem_cons_self)) 0
  · exact h.record name accumulates (Value.inOrder_group.mpr (inOrderThroughout_ofTokens fun v hv => h.token hv)) 0

/-- A group without its first token keeps all tables in order. -/
theorem withoutKey {rest : List Value} (hrest : rest ⊆ r.tokens) : (withoutKey rest r).InOrderThroughout := by
  refine inOrderThroughout_iff.mpr ⟨h.inOrder.of_mapEntries rfl, fun v hv => h.value ?_⟩
  have hvalues : Field.values ∘ Field.mapEntries (fun e => { e with offset := e.offset - 1 })
      = (Field.values : Field Value → List Value) := by
    funext f
    simp only [Function.comp_apply, Field.values, Field.mapEntries, List.map_map]
    rfl
  rcases List.mem_append.mp hv with hv | hv
  · exact List.mem_append_left _ (hrest hv)
  · refine List.mem_append_right _ ?_
    rw [ResultsOf.withoutKey, List.flatMap_map] at hv
    exact hvalues ▸ hv

/-- What is recorded of groups by their first tokens keeps all tables in order. -/
theorem nameGroupsByKey : r.nameGroupsByKey.InOrderThroughout := by
  unfold ResultsOf.nameGroupsByKey
  refine List.foldlRecOn _ _ h ?_
  intro out hout token htoken
  obtain ⟨token, offset⟩ := token
  have htoken : token.InOrder := h.token (List.fst_mem_of_mem_zipIdx htoken)
  dsimp only
  split
  next key rest fields origin _ =>
    have hgroup := Value.inOrder_group.mp htoken
    have hrest : (ResultsOf.withoutKey rest ⟨key :: rest, fields, origin⟩).InOrderThroughout :=
      hgroup.withoutKey (List.subset_cons_self key rest)
    refine hout.record _ false ?_ offset
    split
    · exact Value.inOrder_leaf _
    · split
      · exact hgroup.token (.tail _ List.mem_cons_self)
      · exact Value.inOrder_group.mpr hrest
    · exact Value.inOrder_group.mpr hrest
  next => exact hout

end InOrderThroughout
end ResultsOf
end Packrat
