import Packrat.Proofs.Sharing.Programs
import Packrat.Proofs.Tables.Order

/-!
# `Packrat.Proofs.Tables.Programs` — programs of edits keep tables in order

A program edits named results and groups inside them, and copies them, with or without sharing. On trees, which share
nothing, one operation keeps the tables of all names in order if those of all results that it brings in are; registers
show trees.

## Contents

* `Edit.brings`, `Shared.Change.brings`, `Shared.Op.brings` — the results that a program is given from elsewhere;
* `InOrderThroughout.groupAt?`, `InOrderThroughout.setGroupAt` — groups at the end of a path;
* `Shared.Trees.InOrder.step`, `Shared.Trees.InOrder.run` — one operation on trees, and a whole program;
* `Shared.inOrderThroughout_run` — **programs keep all tables in order**.
-/

namespace Packrat

/-! ## What is brought in -/

/-- The results that a change brings in: those that are put after others, or the groups among its values. -/
def Edit.brings : Edit Value → List Results
  | .extend other => [other]
  | e => e.values.filterMap Value.group?

theorem Value.group?_eq_some {v : Value} {r : Results} : v.group? = some r ↔ v = .group r := by
  cases v with
  | group g => exact ⟨fun h => congrArg _ (Option.some.inj h), fun h => congrArg _ (Value.group.inj h)⟩
  | leaf l => exact iff_of_false (fun h => nomatch h) fun h => nomatch h

/-- A change that brings in results with all tables in order brings in a table in order, if any, and such values. -/
theorem Edit.inOrder_of_brings {e : Edit Value} (h : ∀ r ∈ e.brings, r.InOrderThroughout) :
    e.InOrder ∧ ∀ v ∈ e.values, v.InOrder := by
  cases e with
  | extend other =>
    have hother : other.InOrderThroughout := h other List.mem_cons_self
    exact ⟨fun _ heq => Edit.extend.inj heq ▸ hother.inOrder, fun v hv => hother.value hv⟩
  | push | insert | pop | setTokens | clear | setField | appendField | removeField | reverse =>
    refine ⟨fun _ heq => (nomatch heq), fun v hv g hg => h g ?_⟩
    exact List.mem_filterMap.mpr ⟨v, hv, Value.group?_eq_some.mpr hg⟩

/-! ## Paths -/

namespace ResultsOf.InOrderThroughout

variable {r new : Results}

/-- A group at the end of a path has all tables in order if the results around it have. -/
theorem groupAt? (h : r.InOrderThroughout) {path : List Nat} (hgroup : r.groupAt? path = some new) :
    new.InOrderThroughout := by
  induction path generalizing r with
  | nil => exact Option.some.inj hgroup ▸ h
  | cons i path ih =>
    rw [ResultsOf.groupAt?] at hgroup
    split at hgroup
    next inner htoken =>
      exact ih (Value.inOrder_group.mp (h.token (List.mem_of_getElem? htoken))) hgroup
    next => exact absurd hgroup.symm (Option.some_ne_none new)

/-- Another group with all tables in order may stand at the end of a path. -/
theorem setGroupAt (h : r.InOrderThroughout) (hnew : new.InOrderThroughout) (path : List Nat) :
    (r.setGroupAt path new).InOrderThroughout := by
  induction path generalizing r with
  | nil => exact hnew
  | cons i path ih =>
    rw [ResultsOf.setGroupAt]
    split
    next inner htoken =>
      have hinner := ih (Value.inOrder_group.mp (h.token (List.mem_of_getElem? htoken)))
      refine h.setTokens ?_
      intro v hv
      rcases List.mem_or_eq_of_mem_set hv with hv | rfl
      · exact h.token hv
      · exact Value.inOrder_group.mpr hinner
    next => exact h

end ResultsOf.InOrderThroughout

/-! ## Programs -/

namespace Shared

/-- The results that a change brings in from elsewhere. A change with values that names hold already brings in no
value, but it may bring in the table that these stand in. -/
def Change.brings : Change → List Packrat.Results
  | .made e => e.brings
  | .held e => (e.map fun _ => Value.str "").brings

/-- The results that an operation brings in from elsewhere. -/
def Op.brings : Op → List Packrat.Results
  | .assign _ r => [r]
  | .edit _ _ c => c.brings
  | .copy _ _ | .deepCopy _ _ | .append _ _ | .pushGroup _ _ => []

namespace Trees

variable {t : Trees}

/-- Names that show results with all tables in order. -/
def InOrder (t : Trees) : Prop := ∀ name, (t name).InOrderThroughout

namespace InOrder

variable (h : t.InOrder)
include h

theorem update (name : String) {r : Packrat.Results} (hr : r.InOrderThroughout) :
    InOrder (Function.update t name r) :=
  (Function.forall_update_iff t fun _ r => r.InOrderThroughout).mpr ⟨hr, fun other _ => h other⟩

/-- The value at a place is that of a name, or a text. -/
theorem pick (p : Place) : (t.pick p).InOrder := by
  have hgetD {v? : Option Value} (hv : ∀ v ∈ v?, v.InOrder) : (v?.getD (.str "")).InOrder := by
    cases v? with
    | none => exact Value.inOrder_leaf _
    | some v => exact hv v rfl
  cases p with
  | token name i => exact hgetD fun v hv => (h name).token (List.mem_of_getElem? hv)
  | field name label => exact hgetD fun v hv => (h name).value (ResultsOf.mem_values_of_get? hv)

/-- A change that is loaded brings in what the change does, and values of names. -/
theorem load {c : Change} (hc : ∀ r ∈ c.brings, r.InOrderThroughout) :
    (t.load c).InOrder ∧ ∀ v ∈ (t.load c).values, v.InOrder := by
  cases c with
  | made e => exact Edit.inOrder_of_brings hc
  | held e =>
    refine ⟨Edit.inOrder_map_iff.mpr (Edit.inOrder_map_iff.mp (Edit.inOrder_of_brings hc).1), fun v hv => ?_⟩
    obtain ⟨p, -, rfl⟩ := List.mem_map.mp (Edit.values_map t.pick e ▸ hv)
    exact h.pick p

theorem editAt {c : Change} (hc : ∀ r ∈ c.brings, r.InOrderThroughout) (name : String) (path : List Nat) :
    (t.editAt name path c).2.InOrder := by
  obtain ⟨htable, hvalues⟩ := h.load hc
  unfold Trees.editAt
  split
  next => exact h
  next r hgroup =>
    split
    next => exact h
    next taken left happly =>
      have hleft := (((h name).groupAt? hgroup).apply htable hvalues happly).1
      exact h.update name ((h name).setGroupAt hleft path)

/-- **One operation** keeps the tables of all names in order. -/
theorem step {op : Op} (hop : ∀ r ∈ op.brings, r.InOrderThroughout) : (t.step op).2.InOrder := by
  cases op with
  | assign name r => exact h.update name (hop r List.mem_cons_self)
  | copy name source | deepCopy name source => exact h.update name (h source)
  | append name other => exact h.update name ((h name).extend (h other))
  | pushGroup name other =>
    have hpush : (Edit.push (Value.group (t other))).brings = [t other] := rfl
    obtain ⟨htable, hvalues⟩ := Edit.inOrder_of_brings (e := .push (.group (t other))) fun r hr => by
      rw [hpush] at hr
      exact List.mem_singleton.mp hr ▸ h other
    exact h.update name ((h name).apply htable hvalues rfl).1
  | edit name path c => exact h.editAt hop name path

/-- **A program** keeps the tables of all names in order. -/
theorem run {ops : List Op} (hops : ∀ op ∈ ops, ∀ r ∈ op.brings, r.InOrderThroughout) :
    (Shared.run Trees.step t ops).2.InOrder := by
  induction ops generalizing t with
  | nil => exact h
  | cons op ops ih =>
    obtain ⟨hop, hops⟩ := List.forall_mem_cons.mp hops
    exact ih (h.step hop) hops

end InOrder
end Trees

/-- **Programs keep all tables in order**: what names show after a program has all tables in order, if all that they
showed and all that the program is given has. -/
theorem inOrderThroughout_run {g : Registers} (hsound : g.Sound) (h : Trees.InOrder g.tree) {ops : List Op}
    (hops : ∀ op ∈ ops, ∀ r ∈ op.brings, r.InOrderThroughout) :
    Trees.InOrder (run Registers.step g ops).2.tree := by
  obtain ⟨-, hshows⟩ := hsound.shows.run ops
  rw [hshows.tree_eq]
  exact h.run hops

end Shared
end Packrat
