import Packrat.Proofs.Sharing.Graph

/-!
# `Packrat.Proofs.Sharing.Allocation` — trees put into a store

Putting a tree into a store adds groups that refer to one another only, each to earlier ones. So what is put in shows
the tree that it was made from, and no older group can be reached from it.

## Contents

* `Store.Grows`, `Store.Brings` — new groups that refer to new ones, and tokens that refer to these;
* `Brings.add` — a group of new tokens is new, and shows them;
* `Store.allocate_brings` and its companions — **what is put in is new, and shows the tree it was made from**;
* `allocateEdit_brings`, `allocateResults_brings` — the same of edits and of results.
-/

namespace Packrat
namespace Shared

variable {g : Registers} {s s' s'' : Store} {x y : Holder} {a b : Nat}

namespace Store

theorem cell_of_isPrefix (h : s.cells <+: s'.cells) (ha : a < s.cells.length) : s'.cell a = s.cell a := by
  obtain ⟨new, hnew⟩ := h
  rw [cell, cell, ← hnew, List.getElem?_append_left ha]

theorem cell_add (r : Results) : (s.add r).2.cell s.cells.length = r := by
  simp [cell, add]

end Store

namespace Registers

/-- Further groups change nothing for a holder. -/
theorem Grounded.extend (h : g.Grounded x) (hs : g.store.cells <+: s.cells) : g.Keeps { g with store := s } x := by
  refine h.keeps hs.length_le fun y hy => ?_
  cases y with
  | name n => rfl
  | hand => rfl
  | group a => exact Store.cell_of_isPrefix hs (h.of_reaches hy).has

/-- A group that is added is grounded where what it refers to is, and shows what it was given. -/
theorem grounded_add {r : Results} (hr : ∀ a ∈ addresses r, g.Grounded (.group a)) :
    ({ g with store := (g.store.add r).2 } : Registers).Grounded (.group g.store.cells.length) ∧
      ({ g with store := (g.store.add r).2 } : Registers).treeAt (.group g.store.cells.length) = g.store.tree r := by
  have holder : g.store.cells <+: (g.store.add r).2.cells := List.prefix_append _ _
  have hresults : ({ g with store := (g.store.add r).2 } : Registers).results (.group g.store.cells.length) = r :=
    Store.cell_add r
  constructor
  · refine .intro _ ?_ fun a ha => ?_
    · show g.store.cells.length < (g.store.cells ++ [r]).length
      rw [List.length_append]
      exact Nat.lt_succ_self _
    · rw [hresults] at ha
      exact ((hr a ha).extend holder).grounded
  · rw [treeAt, hresults]
    exact tree_congr fun a ha => ⟨hr a ha, (hr a ha).extend holder⟩

end Registers

namespace Store

/-! ## New groups -/

/-- A store with further groups than another, each of which refers only to further ones before it. -/
structure Grows (s s' : Store) : Prop where
  older : s.cells <+: s'.cells
  newer : ∀ a, s.cells.length ≤ a → a < s'.cells.length →
    ∀ b ∈ addresses (s'.cell a), s.cells.length ≤ b ∧ b < a

namespace Grows

theorem refl (s : Store) : s.Grows s :=
  ⟨List.prefix_refl _, fun _ hle hlt => absurd hlt (Nat.not_lt.mpr hle)⟩

theorem trans (h : s.Grows s') (h' : s'.Grows s'') : s.Grows s'' := by
  refine ⟨h.older.trans h'.older, fun a hle hlt b hb => ?_⟩
  rcases Nat.lt_or_ge a s'.cells.length with ha | ha
  · rw [cell_of_isPrefix h'.older ha] at hb
    exact h.newer a hle ha b hb
  · obtain ⟨hbs', hba⟩ := h'.newer a ha hlt b hb
    exact ⟨h.older.length_le.trans hbs', hba⟩

/-- Following references from a further group ends, and leads to further groups only. -/
theorem grounded (h : s.Grows g.store) (hle : s.cells.length ≤ a) (hlt : a < g.store.cells.length) :
    g.Grounded (.group a) ∧ ∀ b, g.Reaches (.group a) (.group b) → s.cells.length ≤ b := by
  induction a using Nat.strong_induction_on with
  | _ a ih =>
    have hchild (b : Nat) (hb : b ∈ addresses (g.results (.group a))) :
        g.Grounded (.group b) ∧ ∀ c, g.Reaches (.group b) (.group c) → s.cells.length ≤ c := by
      obtain ⟨hsb, hba⟩ := h.newer a hle hlt b hb
      exact ih b hba hsb (hba.trans hlt)
    refine ⟨.intro _ hlt fun b hb => (hchild b hb).1, fun c hc => ?_⟩
    rcases hc.cases_head with heq | ⟨y, ⟨b, hb, rfl⟩, hbc⟩
    · cases heq
      exact hle
    · exact (hchild b hb).2 c hbc

end Grows

/-- A store has come by new groups, and the tokens refer to these only. -/
structure Brings (s s' : Store) (tokens : List Ref) : Prop where
  grows : s.Grows s'
  fresh : ∀ a, .group a ∈ tokens → s.cells.length ≤ a ∧ a < s'.cells.length

namespace Brings

variable {tokens more : List Ref}

theorem nil (s : Store) : s.Brings s [] := ⟨Grows.refl s, by simp⟩

theorem leaf (s : Store) (l : Leaf) : s.Brings s [.leaf l] := ⟨Grows.refl s, by simp⟩

theorem append (h : s.Brings s' tokens) (h' : s'.Brings s'' more) : s.Brings s'' (tokens ++ more) := by
  refine ⟨h.grows.trans h'.grows, fun a ha => ?_⟩
  rcases List.mem_append.mp ha with ha | ha
  · obtain ⟨hle, hlt⟩ := h.fresh a ha
    exact ⟨hle, hlt.trans_le h'.grows.older.length_le⟩
  · obtain ⟨hle, hlt⟩ := h'.fresh a ha
    exact ⟨h.grows.older.length_le.trans hle, hlt⟩

/-- What the tokens show stays as further groups come. -/
theorem value_eq (h : s.Brings s' tokens) (hs : s'.cells <+: s''.cells) {r : Ref} (hr : r ∈ tokens) :
    s''.value r = s'.value r := by
  cases r with
  | leaf l => rw [Registers.value_leaf, Registers.value_leaf]
  | group a =>
    obtain ⟨hle, hlt⟩ := h.fresh a hr
    obtain ⟨hgrounded, -⟩ := h.grows.grounded (g := { store := s' }) hle hlt
    have hkeeps := hgrounded.extend hs
    exact hkeeps.grounded.value_group.trans (hkeeps.tree ▸ hgrounded.value_group.symm)

/-- A group of new tokens is new, and shows what they do. -/
theorem add {r : Results} (h : s.Brings s' r.values) :
    s.Brings (s'.add r).2 [.group s'.cells.length] ∧
      (s'.add r).2.value (.group s'.cells.length) = .group (r.map s'.value) := by
  have holder : s'.cells <+: (s'.add r).2.cells := List.prefix_append _ _
  have hlen : (s'.add r).2.cells.length = s'.cells.length + 1 := List.length_append
  have hgrows : s.Grows (s'.add r).2 := by
    refine ⟨h.grows.older.trans holder, fun a hle hlt b hb => ?_⟩
    rcases Nat.lt_or_ge a s'.cells.length with ha | ha
    · rw [cell_of_isPrefix holder ha] at hb
      exact h.grows.newer a hle ha b hb
    · obtain rfl : a = s'.cells.length := by omega
      rw [cell_add] at hb
      exact h.fresh b (mem_addresses.mp hb)
  have hbrings : s.Brings (s'.add r).2 [.group s'.cells.length] := by
    refine ⟨hgrows, fun a ha => ?_⟩
    obtain rfl : a = s'.cells.length := by simpa using ha
    exact ⟨h.grows.older.length_le, by omega⟩
  obtain ⟨hle, hlt⟩ := hbrings.fresh _ List.mem_cons_self
  obtain ⟨hgrounded, -⟩ := hgrows.grounded (g := { store := (s'.add r).2 }) hle hlt
  refine ⟨hbrings, hgrounded.value_group.trans ?_⟩
  rw [Registers.treeAt, Registers.results, cell_add, tree]
  exact congrArg Value.group (ResultsOf.map_congr fun v hv => h.value_eq holder hv)

end Brings

/-! ## Trees -/

mutual

/-- **A value that is put in is new, and shows what it was made from.** -/
theorem allocate_brings (s : Store) (v : Value) :
    s.Brings (s.allocate v).2 [(s.allocate v).1] ∧ (s.allocate v).2.value (s.allocate v).1 = v := by
  match v with
  | .leaf l =>
    rw [allocate]
    exact ⟨.leaf s l, Registers.value_leaf _ l⟩
  | .group ⟨tokens, fields, origin⟩ =>
    obtain ⟨ht, htokens⟩ := allocateAll_brings s tokens
    obtain ⟨hf, hfields⟩ := allocateFields_brings (s.allocateAll tokens).2 fields
    rw [allocate]
    obtain ⟨hbrings, hvalue⟩ := (ht.append hf).add (r := ⟨_, _, origin⟩)
    refine ⟨hbrings, hvalue.trans ?_⟩
    rw [ResultsOf.map, hfields]
    congr 2
    exact (List.map_congr_left fun r hr => ht.value_eq hf.grows.older hr).trans htokens

theorem allocateAll_brings (s : Store) (vs : List Value) :
    s.Brings (s.allocateAll vs).2 (s.allocateAll vs).1 ∧
      (s.allocateAll vs).1.map (s.allocateAll vs).2.value = vs := by
  match vs with
  | [] =>
    rw [allocateAll]
    exact ⟨.nil s, rfl⟩
  | v :: vs =>
    obtain ⟨hv, hvalue⟩ := allocate_brings s v
    obtain ⟨hvs, hvalues⟩ := allocateAll_brings (s.allocate v).2 vs
    rw [allocateAll]
    refine ⟨hv.append hvs, ?_⟩
    rw [List.map_cons, hvalues, hv.value_eq hvs.grows.older List.mem_cons_self, hvalue]

theorem allocateFields_brings (s : Store) (fs : List (Field Value)) :
    s.Brings (s.allocateFields fs).2 ((s.allocateFields fs).1.flatMap Field.values) ∧
      (s.allocateFields fs).1.map (Field.map (s.allocateFields fs).2.value) = fs := by
  match fs with
  | [] =>
    rw [allocateFields]
    exact ⟨.nil s, rfl⟩
  | f :: fs =>
    obtain ⟨hf, hfield⟩ := allocateField_brings s f
    obtain ⟨hfs, hfields⟩ := allocateFields_brings (s.allocateField f).2 fs
    rw [allocateFields]
    refine ⟨hf.append hfs, ?_⟩
    rw [List.map_cons, hfields, Field.map_congr fun v hv => hf.value_eq hfs.grows.older hv, hfield]

theorem allocateField_brings (s : Store) (f : Field Value) :
    s.Brings (s.allocateField f).2 (s.allocateField f).1.values ∧
      (s.allocateField f).1.map (s.allocateField f).2.value = f := by
  match f with
  | ⟨name, accumulates, entries⟩ =>
    obtain ⟨hes, hentries⟩ := allocateEntries_brings s entries
    rw [allocateField]
    exact ⟨hes, congrArg (Field.mk name accumulates) hentries⟩

theorem allocateEntries_brings (s : Store) (es : List (Entry Value)) :
    s.Brings (s.allocateEntries es).2 ((s.allocateEntries es).1.map (·.value)) ∧
      (s.allocateEntries es).1.map (Entry.map (s.allocateEntries es).2.value) = es := by
  match es with
  | [] =>
    rw [allocateEntries]
    exact ⟨.nil s, rfl⟩
  | ⟨v, offset⟩ :: es =>
    obtain ⟨hv, hvalue⟩ := allocate_brings s v
    obtain ⟨hes, hentries⟩ := allocateEntries_brings (s.allocate v).2 es
    rw [allocateEntries]
    refine ⟨hv.append hes, ?_⟩
    rw [List.map_cons, hentries, Entry.map, hv.value_eq hes.grows.older List.mem_cons_self, hvalue]

end

/-- Results that are put in are new, and show what they were made from. -/
theorem allocateResults_brings (s : Store) (r : Packrat.Results) :
    s.Brings (s.allocateResults r).2 (s.allocateResults r).1.values ∧
      (s.allocateResults r).2.tree (s.allocateResults r).1 = r := by
  obtain ⟨tokens, fields, origin⟩ := r
  obtain ⟨ht, htokens⟩ := allocateAll_brings s tokens
  obtain ⟨hf, hfields⟩ := allocateFields_brings (s.allocateAll tokens).2 fields
  refine ⟨ht.append hf, ?_⟩
  have hkept := (List.map_congr_left fun v hv => ht.value_eq hf.grows.older hv).trans htokens
  exact congrArg₂ (fun tokens fields => ResultsOf.mk tokens fields origin) hkept hfields

/-- What an edit brings in is new, and shows what it was made from. -/
theorem allocateEdit_brings (s : Store) (e : Edit Value) :
    s.Brings (Registers.allocateEdit s e).2 (Registers.allocateEdit s e).1.values ∧
      (Registers.allocateEdit s e).1.map (Registers.allocateEdit s e).2.value = e := by
  cases e with
  | push v =>
    obtain ⟨hv, hvalue⟩ := allocate_brings s v
    exact ⟨hv, congrArg Edit.push hvalue⟩
  | insert i v =>
    obtain ⟨hv, hvalue⟩ := allocate_brings s v
    exact ⟨hv, congrArg (Edit.insert i) hvalue⟩
  | setField name v =>
    obtain ⟨hv, hvalue⟩ := allocate_brings s v
    exact ⟨hv, congrArg (Edit.setField name) hvalue⟩
  | appendField name v =>
    obtain ⟨hv, hvalue⟩ := allocate_brings s v
    exact ⟨hv, congrArg (Edit.appendField name) hvalue⟩
  | setTokens vs =>
    obtain ⟨hvs, hvalues⟩ := allocateAll_brings s vs
    exact ⟨hvs, congrArg Edit.setTokens hvalues⟩
  | extend r =>
    obtain ⟨hr, hvalues⟩ := allocateResults_brings s r
    exact ⟨hr, congrArg Edit.extend hvalues⟩
  | pop | clear | removeField name | reverse => exact ⟨.nil s, rfl⟩

end Store
end Shared
end Packrat
