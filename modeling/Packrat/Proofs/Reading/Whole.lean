import Packrat.Proofs.Reading.Classes
import Packrat.Proofs.Reading.Groups

/-!
# `Packrat.Proofs.Reading.Whole` — whole patterns, one item after another

Reading a pattern goes from item to item: what it does with the next one depends on the text, and on the groups around
only where a group is closed. So the groups around can be exchanged, and a parenthesis can be put behind the text, as long
as neither is met.

## Contents

* `Reading` — a pattern that is being read, with `advance?` for the next item and `accepted?` for the end;
* `Reading.run`, `run_eq` — reading to the end, with all the steps it takes;
* `readsAt_advance?` — an item with a parenthesis behind the text;
* `advance?_under` — an item under further groups.
-/

namespace Packrat.Pattern

open Unread

/-- A pattern that is being read: what is left, the alternatives of the innermost group, and the groups around. -/
structure Reading where
  reader : Reader
  earlier : List Expr
  items : Items
  outer : List OpenGroup

instance : Unread Reading where
  left σ := σ.reader.rest
  followedBy σ w := { σ with reader := σ.reader.at (σ.reader.rest ++ w) }
  left_followedBy _ _ := rfl

@[simp] theorem left_reading (σ : Reading) : left σ = σ.reader.rest := rfl

@[simp] theorem followedBy_reading (σ : Reading) (w : Text) :
    followedBy σ w = { σ with reader := σ.reader.at (σ.reader.rest ++ w) } := rfl

/-- What a group is when it is closed. -/
def OpenGroup.close (g : OpenGroup) (body : Expr) : Expr :=
  match g.index with
  | some i => .capture i body
  | none => body

namespace Reading

variable (σ : Reading)

/-! ## Items -/

/-- With a further item read. -/
def add (item : Option Expr) (r : Reader) : Reading := { σ with reader := r, items := item :: σ.items }

/-- With the last item under a repetition. -/
def repeated? (min : Nat) (max : Option Nat) (r : Reader) : Option Reading :=
  (repeatLast? σ.items min max (readLazy r).1).map fun items => { σ with reader := (readLazy r).2, items }

/-- After the opening of a group. -/
def opened (o : Opening) (r : Reader) : Reading :=
  match o with
  | .flags => σ.add none r
  | .plain => ⟨r, [], [], ⟨none, σ.reader.flags, σ.earlier, σ.items⟩ :: σ.outer⟩
  | .capture i => ⟨r, [], [], ⟨some i, σ.reader.flags, σ.earlier, σ.items⟩ :: σ.outer⟩

/-- All that has been read of the innermost group. -/
def body : Expr := toAlternatives σ.items.toExpr σ.earlier

/-- After the end of the innermost group. -/
def closed? (t : Text) : Option Reading :=
  match σ.outer with
  | [] => none
  | g :: outer =>
    some ⟨{ σ.reader with rest := t, flags := g.flags }, g.earlier, some (g.close σ.body) :: g.items, outer⟩

/-- Reads an item, after its first character. -/
def item? (c : Char) (t : Text) : Option Reading :=
  match c with
  | '(' => (openGroup? σ.reader t).map fun x => σ.opened x.1 x.2
  | ')' => σ.closed? t
  | '|' => some ⟨σ.reader.at t, σ.items.toExpr :: σ.earlier, [], σ.outer⟩
  | '[' => (readClass? (σ.reader.at ('[' :: t))).map fun x => σ.add (some (.one x.1)) x.2
  | '?' => σ.repeated? 0 (some 1) (σ.reader.at t)
  | '*' => σ.repeated? 0 none (σ.reader.at t)
  | '+' => σ.repeated? 1 none (σ.reader.at t)
  | '\x7b' => (readBounds? (σ.reader.at t)).bind fun x => σ.repeated? x.1 x.2.1 x.2.2
  | c => (readPrimitive? σ.reader c t).map fun x => σ.add (some x.1) x.2

/-- Reads the next item, blanks left out before it. -/
def advance? : Option Reading :=
  match σ.reader.skipBlanks.rest with
  | [] => none
  | c :: t => { σ with reader := σ.reader.skipBlanks }.item? c t

/-- What has been read, when nothing but blanks is left and no group is open. -/
def accepted? : Option (Expr × Reader) :=
  match σ.reader.skipBlanks.rest, σ.outer with
  | [], [] => some (σ.body, σ.reader.skipBlanks)
  | _, _ => none

/-- A character that does not begin anything is an item. -/
theorem item?_other {c : Char} (h : c ∉ ['(', ')', '|', '[', '?', '*', '+', '\x7b']) (t : Text) :
    σ.item? c t = (readPrimitive? σ.reader c t).map fun x => σ.add (some x.1) x.2 := by
  unfold item?
  split
  all_goals first | rfl | exact absurd (by simp) h

end Reading

/-- One step of reading a pattern. -/
theorem readAll?_succ (n : Nat) (σ : Reading) :
    readAll? (n + 1) σ.reader σ.earlier σ.items σ.outer =
      match σ.advance? with
      | some τ => readAll? n τ.reader τ.earlier τ.items τ.outer
      | none => σ.accepted? := by
  obtain ⟨r, earlier, items, outer⟩ := σ
  conv_lhs => unfold readAll?
  unfold Reading.advance? Reading.accepted?
  dsimp only
  generalize r.skipBlanks = s
  obtain ⟨t, flags, index, names⟩ := s
  dsimp only
  split
  · cases outer with
    | nil => rfl
    | cons g outer => rfl
  · next t =>
    cases hopen : openGroup? ⟨'(' :: t, flags, index, names⟩ t with
    | none => simp [Reading.item?, hopen]
    | some x =>
      obtain ⟨o, s⟩ := x
      simp only [Reading.item?, hopen, Option.map_some]
      cases o with
      | flags => rfl
      | plain => rfl
      | capture i => rfl
  · next t =>
    cases outer with
    | nil => rfl
    | cons g outer => rfl
  · rfl
  · next t =>
    cases hclass : readClass? ⟨'[' :: t, flags, index, names⟩ with
    | none => simp [Reading.item?, Reader.at, hclass]
    | some x => simp [Reading.item?, Reader.at, hclass, Reading.add]
  · next t => cases hlast : repeatLast? items 0 (some 1) (readLazy ⟨t, flags, index, names⟩).1 with
    | none => simp [Reading.item?, Reading.repeated?, Reader.at, hlast]
    | some items => simp [Reading.item?, Reading.repeated?, Reader.at, hlast]
  · next t => cases hlast : repeatLast? items 0 none (readLazy ⟨t, flags, index, names⟩).1 with
    | none => simp [Reading.item?, Reading.repeated?, Reader.at, hlast]
    | some items => simp [Reading.item?, Reading.repeated?, Reader.at, hlast]
  · next t => cases hlast : repeatLast? items 1 none (readLazy ⟨t, flags, index, names⟩).1 with
    | none => simp [Reading.item?, Reading.repeated?, Reader.at, hlast]
    | some items => simp [Reading.item?, Reading.repeated?, Reader.at, hlast]
  · next t =>
    cases hbounds : readBounds? ⟨t, flags, index, names⟩ with
    | none => simp [Reading.item?, Reader.at, hbounds]
    | some x =>
      cases hlast : repeatLast? items x.1 x.2.1 (readLazy x.2.2).1 with
      | none => simp [Reading.item?, Reading.repeated?, Reader.at, hbounds, hlast]
      | some items => simp [Reading.item?, Reading.repeated?, Reader.at, hbounds, hlast]
  · next c t _ _ _ _ _ _ _ _ =>
    -- what is left is no character that begins something
    have hother : c ∉ ['(', ')', '|', '[', '?', '*', '+', '\x7b'] := by
      intro hc
      simp only [List.mem_cons, List.not_mem_nil, or_false] at hc
      rcases hc with rfl | rfl | rfl | rfl | rfl | rfl | rfl | rfl
      all_goals simp_all
    cases hread : readPrimitive? ⟨c :: t, flags, index, names⟩ c t with
    | none => simp [Reading.item?_other _ hother, hread]
    | some x => simp [Reading.item?_other _ hother, hread, Reading.add]

/-! ## One item -/

namespace Reading

theorem readsAt_repeated? (σ : Reading) (min : Nat) (max : Option Nat) (r : Reader) :
    ReadsAt (σ.repeated? min max) r := by
  refine ReadsAt.of_eq (f := σ.repeated? min max) ((readsAt_readLazy r).bind (g := fun x : Bool × Reader =>
    (repeatLast? σ.items min max x.1).map fun items => { σ with reader := x.2, items }) fun x => ?_) rfl (fun _ => rfl)
    List.suffix_rfl
  refine .decided _ rfl (fun y hy => ?_) fun v => ?_
  · obtain ⟨items, -, rfl⟩ := Option.map_eq_some_iff.mp hy
    exact List.suffix_rfl
  · rw [Option.map_map]
    rfl

/-- An item, after its first character. -/
theorem readsAt_item? (σ : Reading) (c : Char) (t : Text) : ReadsAt (σ.item? c) t := by
  have hrepeated (min : Nat) (max : Option Nat) : ReadsAt (fun t => σ.repeated? min max (σ.reader.at t)) t :=
    (σ.readsAt_repeated? min max (σ.reader.at t)).same rfl (fun _ => rfl) rfl
  by_cases hc : c ∈ ['(', ')', '|', '[', '?', '*', '+', '\x7b']
  · simp only [List.mem_cons, List.not_mem_nil, or_false] at hc
    rcases hc with rfl | rfl | rfl | rfl | rfl | rfl | rfl | rfl
    · refine (readsAt_openGroup? σ.reader t).map (g := fun x => σ.opened x.1 x.2) (fun ⟨o, s⟩ => ?_) fun ⟨o, s⟩ w => ?_
      · cases o <;> rfl
      · cases o <;> rfl
    · change ReadsAt σ.closed? t
      obtain ⟨r, earlier, items, outer⟩ := σ
      cases outer with
      | nil => exact .refused t
      | cons g outer => exact .within _ rfl List.suffix_rfl fun _ => rfl
    · exact .within _ rfl List.suffix_rfl fun _ => rfl
    · exact (readsAt_readClass? σ.reader t).map (g := fun x => σ.add (some (.one x.1)) x.2) (fun _ => rfl) fun _ _ => rfl
    · exact hrepeated 0 (some 1)
    · exact hrepeated 0 none
    · exact hrepeated 1 none
    · have hbounds : ReadsAt (fun t => readBounds? (σ.reader.at t)) t :=
        (readsAt_readBounds? (σ.reader.at t)).same rfl (fun _ => rfl) rfl
      exact hbounds.bind (g := fun x => σ.repeated? x.1 x.2.1 x.2.2) fun x =>
        (σ.readsAt_repeated? x.1 x.2.1 x.2.2).same rfl (fun _ => rfl) rfl
  · exact ReadsAt.congr ((readsAt_readPrimitive? σ.reader c t).map (g := fun x => σ.add (some x.1) x.2) (fun _ => rfl)
      fun _ _ => rfl) (σ.item?_other hc)

/-- What else is left does not matter to an item. -/
theorem item?_at (σ : Reading) (u : Text) (c : Char) (t : Text) :
    ({ σ with reader := σ.reader.at u } : Reading).item? c t = σ.item? c t := by
  unfold item?
  split
  all_goals rfl

/-- The next item, blanks and comments before it. -/
theorem readsAt_advance? (σ : Reading) : ReadsAt advance? σ := by
  have hblanks := (Reader.readsAt_skipBlanks σ.reader).map (g := fun r => ({ σ with reader := r } : Reading)) (fun _ => rfl)
    fun _ _ => rfl
  have hskip : ReadsAt (fun σ : Reading => some { σ with reader := σ.reader.skipBlanks }) σ :=
    hblanks.same rfl (fun _ => rfl) rfl
  have hitem (τ : Reading) : ReadsAt (fun τ : Reading => match τ.reader.rest with
      | [] => none
      | c :: t => τ.item? c t) τ := by
    obtain ⟨⟨t, flags, index, names⟩, earlier, items, outer⟩ := τ
    cases t with
    | nil =>
      refine .fails rfl fun v x hx => ?_
      cases outer with
      | nil => exact absurd hx (by simp [Reader.at, item?, closed?])
      | cons g outer => exact Option.some.inj hx ▸ le_rfl
    | cons c t =>
      let τ : Reading := ⟨⟨c :: t, flags, index, names⟩, earlier, items, outer⟩
      exact (τ.readsAt_item? c t).of_eq rfl (fun v => τ.item?_at _ c _) (List.suffix_cons _ _)
  refine (hskip.bind hitem).of_eq ?_ (fun v => ?_) List.suffix_rfl
  · rfl
  · rfl

/-- An item takes at least a character. -/
theorem advance?_length {σ τ : Reading} (h : σ.advance? = some τ) :
    τ.reader.rest.length < σ.reader.rest.length := by
  unfold advance? at h
  split at h
  · exact absurd h (by simp)
  · next c t heq =>
    have hle := ((readsAt_item? _ c t).shrinks τ h).length_le
    have hskip := length_skipBlanks_le σ.reader
    rw [heq, List.length_cons] at hskip
    exact Nat.lt_of_le_of_lt hle hskip

/-- Under further groups. -/
def under (σ : Reading) (groups : List OpenGroup) : Reading := { σ with outer := σ.outer ++ groups }

/-- Further groups do not matter, unless the innermost of them is closed. -/
theorem item?_under (σ : Reading) (groups : List OpenGroup) {c : Char} (h : σ.outer ≠ [] ∨ c ≠ ')') (t : Text) :
    (σ.under groups).item? c t = (σ.item? c t).map (·.under groups) := by
  have hrepeated (min : Nat) (max : Option Nat) (r : Reader) :
      (σ.under groups).repeated? min max r = (σ.repeated? min max r).map (·.under groups) := by
    unfold repeated?
    rw [Option.map_map]
    rfl
  by_cases hc : c ∈ ['(', ')', '|', '[', '?', '*', '+', '\x7b']
  · simp only [List.mem_cons, List.not_mem_nil, or_false] at hc
    rcases hc with rfl | rfl | rfl | rfl | rfl | rfl | rfl | rfl
    · simp only [item?, Option.map_map]
      congr 1
      funext ⟨o, s⟩
      cases o <;> rfl
    · obtain ⟨r, earlier, items, outer⟩ := σ
      cases outer with
      | nil => simp at h
      | cons g outer => rfl
    · rfl
    · simp only [item?, Option.map_map]
      rfl
    · exact hrepeated 0 (some 1) _
    · exact hrepeated 0 none _
    · exact hrepeated 1 none _
    · simp only [item?, Option.map_bind]
      exact Option.bind_congr fun x _ => hrepeated _ _ _
  · rw [item?_other _ hc, item?_other _ hc, Option.map_map]
    rfl

/-- An item under further groups is the same, unless it closes the innermost of them. -/
theorem advance?_under (σ : Reading) (groups : List OpenGroup)
    (h : σ.outer ≠ [] ∨ σ.reader.skipBlanks.rest.head? ≠ some ')') :
    (σ.under groups).advance? = σ.advance?.map (·.under groups) := by
  have hskip : (σ.under groups).reader.skipBlanks = σ.reader.skipBlanks := rfl
  unfold advance?
  rw [hskip]
  split
  · rfl
  · next c t heq =>
    refine item?_under { σ with reader := σ.reader.skipBlanks } groups (h.imp_right fun hhead => ?_) t
    rw [heq] at hhead
    simpa using hhead

/-! ## Reading to the end -/

/-- Reads to the end. -/
def run (σ : Reading) : Option (Expr × Reader) :=
  readAll? (σ.reader.rest.length + 1) σ.reader σ.earlier σ.items σ.outer

theorem readAll?_same {n m : Nat} {σ : Reading} (hn : σ.reader.rest.length < n) (hm : σ.reader.rest.length < m) :
    readAll? n σ.reader σ.earlier σ.items σ.outer = readAll? m σ.reader σ.earlier σ.items σ.outer := by
  induction n generalizing m σ with
  | zero => omega
  | succ n ih =>
    obtain ⟨m, rfl⟩ : ∃ k, m = k + 1 := ⟨m - 1, by omega⟩
    rw [readAll?_succ, readAll?_succ]
    cases h : σ.advance? with
    | none => rfl
    | some τ =>
      have hlt := advance?_length h
      exact ih (by omega) (by omega)

theorem run_eq (σ : Reading) : σ.run = match σ.advance? with
    | some τ => τ.run
    | none => σ.accepted? := by
  rw [run, readAll?_succ]
  cases h : σ.advance? with
  | none => rfl
  | some τ => exact readAll?_same (advance?_length h) (Nat.lt_succ_self _)

end Reading
end Packrat.Pattern
