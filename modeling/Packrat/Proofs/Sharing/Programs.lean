import Packrat.Proofs.Sharing.Operations

/-!
# `Packrat.Proofs.Sharing.Programs` — shared groups are values

Programs of operations on any number of names, run on registers that share groups and on trees that share nothing. Both
answer alike and show the same after every operation. So no program can tell a copy that shares its groups from one
that does not, but by asking for the groups themselves.

## Contents

* `Op`, `Registers.step`, `Trees.step`, `run` — programs, on registers and on trees;
* `Shows.step`, `Shows.run` — one operation, and a whole program;
* `shared_groups_are_values` — **copies are as good as deep copies, edits stay in their own name, and deep copies share
  nothing**.
-/

namespace Packrat
namespace Shared

/-- An operation on named results. -/
inductive Op
  | assign (name : String) (r : Packrat.Results)
  | copy (name source : String)
  | deepCopy (name source : String)
  | append (name other : String)
  | pushGroup (name other : String)
  | edit (name : String) (path : List Nat) (c : Change)

/-- The operation with a deep copy in place of a copy. -/
def Op.deepened : Op → Op
  | .copy name source => .deepCopy name source
  | op => op

/-- The answers of a program and what it leaves, from what one operation does. -/
def run {σ : Type} (step : σ → Op → Reply × σ) (s : σ) : List Op → List Reply × σ
  | [] => ([], s)
  | op :: ops => ((step s op).1 :: (run step (step s op).2 ops).1, (run step (step s op).2 ops).2)

/-- An operation on registers. -/
def Registers.step (g : Registers) : Op → Reply × Registers
  | .assign name r => (.taken none, g.assign name r)
  | .copy name source => (.taken none, g.copy name source)
  | .deepCopy name source => (.taken none, g.deepCopy name source)
  | .append name other => (.taken none, g.append name other)
  | .pushGroup name other => (.taken none, g.pushGroup name other)
  | .edit name path c => g.editAt name path c

/-- An operation on trees; copies are deep. -/
def Trees.step (t : Trees) : Op → Reply × Trees
  | .assign name r => (.taken none, Function.update t name r)
  | .copy name source | .deepCopy name source => (.taken none, Function.update t name (t source))
  | .append name other => (.taken none, Function.update t name ((t name).extend (t other)))
  | .pushGroup name other => (.taken none, Function.update t name ((t name).push (.group (t other))))
  | .edit name path c => t.editAt name path c

variable {g : Registers} {t : Trees}

namespace Registers

/-- **One operation** on registers answers as on the trees that they show, and leaves registers that show what is left
there. -/
theorem Shows.step (h : g.Shows t) (op : Op) :
    (g.step op).1 = (t.step op).1 ∧ (g.step op).2.Shows (t.step op).2 := by
  cases op with
  | assign name r => exact ⟨rfl, h.assign name r⟩
  | copy name source => exact ⟨rfl, h.copy name source⟩
  | deepCopy name source => exact ⟨rfl, h.deepCopy name source⟩
  | append name other => exact ⟨rfl, h.append name other⟩
  | pushGroup name other => exact ⟨rfl, h.pushGroup name other⟩
  | edit name path c => exact h.editAt name path c

/-- **A program** on registers answers as on the trees that they show, and leaves registers that show what is left
there. -/
theorem Shows.run (h : g.Shows t) (ops : List Op) :
    (Shared.run Registers.step g ops).1 = (Shared.run Trees.step t ops).1 ∧
      (Shared.run Registers.step g ops).2.Shows (Shared.run Trees.step t ops).2 := by
  induction ops generalizing g t with
  | nil => exact ⟨rfl, h⟩
  | cons op ops ih =>
    obtain ⟨hreply, hstep⟩ := h.step op
    obtain ⟨hreplies, hrun⟩ := ih hstep
    refine ⟨?_, hrun⟩
    show (g.step op).1 :: _ = (t.step op).1 :: _
    rw [hreply, hreplies]

end Registers

/-- On trees a copy is a deep copy. -/
theorem run_deepened (t : Trees) (ops : List Op) :
    run Trees.step t (ops.map Op.deepened) = run Trees.step t ops := by
  induction ops generalizing t with
  | nil => rfl
  | cons op ops ih =>
    have hstep : t.step op.deepened = t.step op := by cases op <;> rfl
    rw [List.map_cons, run, run, hstep, ih]

/-- An edit of a group on trees changes one token of one name. -/
theorem Trees.editAt_group (t : Trees) (name : String) (i : Nat) (path : List Nat) (c : Change) :
    (∀ other, other ≠ name → (t.editAt name (i :: path) c).2 other = t other) ∧
      ((t.editAt name (i :: path) c).2 name).fields = (t name).fields ∧
      ∀ j, j ≠ i → ((t.editAt name (i :: path) c).2 name).tokens[j]? = (t name).tokens[j]? := by
  have hset (new : Packrat.Results) : ((t name).setGroupAt (i :: path) new).fields = (t name).fields ∧
      ∀ j, j ≠ i → ((t name).setGroupAt (i :: path) new).tokens[j]? = (t name).tokens[j]? := by
    rw [ResultsOf.setGroupAt]
    split
    · exact ⟨rfl, fun j hj => List.getElem?_set_ne (Ne.symm hj)⟩
    · exact ⟨rfl, fun _ _ => rfl⟩
  unfold Trees.editAt
  split
  · exact ⟨fun _ _ => rfl, rfl, fun _ _ => rfl⟩
  · split
    · exact ⟨fun _ _ => rfl, rfl, fun _ _ => rfl⟩
    · rename_i taken r _
      refine ⟨fun other hne => Function.update_of_ne hne _ _, ?_⟩
      simp only [Function.update_self]
      exact hset r

/-- **Shared groups are values**, whatever names, fields and groups share when a program starts.

* The program answers as it does on trees that share nothing, and leaves names that show what is left there.
* With every copy made deep it answers the same, and the names show the same.
* After it, an edit of a group token of a name, or of a group further down, changes neither what another name shows nor
  the fields of this one, nor another token.
* A deep copy made then shows what its source does, and no group that it reaches, through tokens and fields at any
  depth, could be reached from a name before, or can be from another name afterwards. -/
theorem shared_groups_are_values (h : g.Sound) (ops : List Op) :
    let after := (run Registers.step g ops).2
    ((run Registers.step g ops).1 = (run Trees.step g.tree ops).1 ∧ after.tree = (run Trees.step g.tree ops).2) ∧
    ((run Registers.step g (ops.map Op.deepened)).1 = (run Registers.step g ops).1 ∧
      (run Registers.step g (ops.map Op.deepened)).2.tree = after.tree) ∧
    (∀ name i path c,
      (∀ other, other ≠ name → (after.editAt name (i :: path) c).2.tree other = after.tree other) ∧
      ((after.editAt name (i :: path) c).2.tree name).fields = (after.tree name).fields ∧
      ∀ j, j ≠ i → ((after.editAt name (i :: path) c).2.tree name).tokens[j]? = (after.tree name).tokens[j]?) ∧
    ∀ name source, (after.deepCopy name source).tree name = after.tree source ∧
      ∀ a, (after.deepCopy name source).Reaches (.name name) (.group a) → ∀ other,
        ¬after.Reaches (.name other) (.group a) ∧
        (other ≠ name → ¬(after.deepCopy name source).Reaches (.name other) (.group a)) := by
  intro after
  obtain ⟨hreplies, hafter⟩ := h.shows.run ops
  obtain ⟨hdeep, hdeepened⟩ := h.shows.run (ops.map Op.deepened)
  rw [run_deepened] at hdeep hdeepened
  refine ⟨⟨hreplies, hafter.tree_eq⟩, ⟨hdeep.trans hreplies.symm, hdeepened.tree_eq.trans hafter.tree_eq.symm⟩,
    fun name i path c => ?_, fun name source => ⟨?_, fun a hreach other => ?_⟩⟩
  · rw [(hafter.sound.shows.editAt name (i :: path) c).2.tree_eq]
    exact Trees.editAt_group after.tree name i path c
  · rw [(hafter.sound.shows.deepCopy name source).tree_eq]
    exact Function.update_self _ _ _
  · obtain ⟨hnew, hothers⟩ := hafter.reaches_assign name (after.tree source)
    have hle : after.store.cells.length ≤ a := hnew a hreach
    have hold (hreach' : after.Reaches (.name other) (.group a)) : False :=
      Nat.not_lt.mpr hle ((hafter.sound (.name other) trivial).of_reaches hreach').has
    exact ⟨hold, fun hne hreach' => hold (hothers other a hne hreach')⟩

/-- Without names there is nothing to follow. -/
theorem Registers.sound_empty : ({} : Registers).Sound := by
  intro x hx
  cases x with
  | group a => exact hx.elim
  | name n => exact .intro _ trivial fun a ha => by cases ha
  | hand => exact .intro _ trivial fun a ha => by cases ha

/-- Two names that share a group, each as a token and in a field. -/
def twoNames : List Op :=
  [.assign "r" { tokens := [.group (.ofTokens [.str "a"])] }, .edit "r" [] (.held (.setField "f" (.token "r" 0))),
    .copy "s" "r"]

theorem shared_groups_are_values_twoNames :
    ({} : Registers).Sound ∧
      let after := (run Registers.step {} twoNames).2
      let edited := (after.editAt "r" [0] (.made (.push (.str "b")))).2
      after.sharesGroup "r" "s" 0 = true ∧ edited.sharesGroup "r" "s" 0 = false ∧
        edited.tree "s" = after.tree "s" ∧ (edited.tree "r").fields = (after.tree "r").fields ∧
        (after.deepCopy "s" "r").tree "s" = after.tree "r" := by
  obtain ⟨-, -, hedit, hdeep⟩ := shared_groups_are_values Registers.sound_empty twoNames
  obtain ⟨hothers, hfields, -⟩ := hedit "r" 0 [] (.made (.push (.str "b")))
  exact ⟨Registers.sound_empty, rfl, rfl, hothers "s" (by decide), hfields, (hdeep "s" "r").1⟩

end Shared
end Packrat
