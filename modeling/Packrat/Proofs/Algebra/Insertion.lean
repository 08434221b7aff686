import Packrat.Proofs.Algebra.Concatenation

/-!
# `Packrat.Proofs.Algebra.Insertion` — inserting a token, and where entries point

An entry of a field carries the number of tokens before its value, and so points at a token. Both concatenation and
insertion move entries along with the tokens they point at: concatenation those of the second results by the tokens of
the first, insertion those from the place of the new token on by one. At the end of the first results these meet: a token
inserted there comes before everything that is appended, and whether it is inserted before or after makes no difference.

## Contents

* `ResultsOf.addFields_of_disjoint`, `empty_extend` — **results without tokens and fields are neutral**;
* `withToken_extend` — **inserting commutes with appending**;
* `entriesOf_extend`, `entriesOf_withToken` — what becomes of the entries of each name;
* `Carries` — entries moved along with the tokens they point at;
* `concatenation_laws` — all of this together.
-/

namespace Packrat

variable {α : Type}

/-- An entry after a token is inserted at `i`: one that points there or further moves along. -/
def Entry.makeRoom (i : Nat) (e : Entry α) : Entry α := if i ≤ e.offset then e.shift 1 else e

theorem Entry.value_makeRoom (i : Nat) (e : Entry α) : (e.makeRoom i).value = e.value := by
  unfold makeRoom
  split <;> rfl

/-- Past the place of the new token entries move along by one more. -/
theorem Entry.makeRoom_shift {i n : Nat} (h : i ≤ n) (e : Entry α) : (e.shift n).makeRoom i = e.shift (n + 1) := by
  have hpast : i ≤ (e.shift n).offset := Nat.le_trans h (Nat.le_add_left n e.offset)
  rw [makeRoom, if_pos hpast]
  rfl

namespace ResultsOf

variable {a b c : ResultsOf α}

/-! ## The empty results -/

theorem addField_of_notMem {f : Field α} {fs : List (Field α)} (h : f.name ∉ fs.map (·.name)) :
    addField f fs = fs ++ [f] := by
  induction fs with
  | nil => rfl
  | cons g gs ih =>
    obtain ⟨hne, hgs⟩ : ¬ f.name = g.name ∧ f.name ∉ gs.map (·.name) := by simpa using h
    rw [addField, if_neg fun h => hne h.symm, ih hgs, List.cons_append]

/-- Fields of new names that are different from each other become the last fields. -/
theorem addFields_of_disjoint {fs gs : List (Field α)} (hgs : (gs.map (·.name)).Nodup)
    (hnew : ∀ g ∈ gs, g.name ∉ fs.map (·.name)) : addFields fs gs = fs ++ gs := by
  induction gs generalizing fs with
  | nil => simp
  | cons g gs ih =>
    obtain ⟨hg, hgs⟩ := List.nodup_cons.mp hgs
    rw [addFields_cons, addField_of_notMem (hnew g List.mem_cons_self), ih hgs, List.append_assoc, List.singleton_append]
    intro g' hg' hmem
    rw [List.map_append, List.mem_append] at hmem
    rcases hmem with hmem | hmem
    · exact hnew g' (.tail _ hg') hmem
    · exact hg (List.mem_singleton.mp hmem ▸ List.mem_map_of_mem hg')

theorem extend_nothing (a : ResultsOf α) (origin : Option ExprId) : a.extend ⟨[], [], origin⟩ = a := by
  cases a
  simp [extend]

/-- Appended to nothing, results of fields with different names stay as they are, but for their origin. -/
theorem empty_extend (ha : a.names.Nodup) (origin : Option ExprId) :
    (⟨[], [], origin⟩ : ResultsOf α).extend a = { a with origin } := by
  have hmove : a.fields.map (Field.mapEntries (Entry.shift 0)) = a.fields := by
    refine List.map_id'' (fun f => ?_) a.fields
    have hentries : f.entries.map (Entry.shift 0) = f.entries := List.map_id'' (fun _ => rfl) f.entries
    rw [Field.mapEntries, hentries]
  have hfields : ((⟨[], [], origin⟩ : ResultsOf α).extend a).fields = a.fields := by
    rw [fields_extend]
    exact (congrArg (addFields []) hmove).trans (addFields_of_disjoint ha (by simp))
  calc (⟨[], [], origin⟩ : ResultsOf α).extend a
      = ⟨a.tokens, ((⟨[], [], origin⟩ : ResultsOf α).extend a).fields, origin⟩ := rfl
    _ = { a with origin } := by rw [hfields]

/-! ## Inserting -/

/-- Results with a token in front of the one at `i`. -/
def withToken (i : Nat) (v : α) (a : ResultsOf α) : ResultsOf α :=
  { a with
    tokens := a.tokens.take i ++ v :: a.tokens.drop i
    fields := a.fields.map (Field.mapEntries (Entry.makeRoom i)) }

theorem insert?_eq {i : Nat} (hi : i ≤ a.length) (v : α) : a.insert? i v = some (a.withToken i v) := if_pos hi

theorem length_withToken {i : Nat} (hi : i ≤ a.length) (v : α) : (a.withToken i v).length = a.length + 1 := by
  have htake : (a.tokens.take i).length = i := List.length_take_of_le hi
  show (a.tokens.take i ++ v :: a.tokens.drop i).length = a.tokens.length + 1
  rw [List.length_append, List.length_cons, htake, List.length_drop]
  have hi : i ≤ a.tokens.length := hi
  omega

/-- **Inserting commutes with appending**, up to the end of what is appended to. -/
theorem withToken_extend {i : Nat} (hi : i ≤ a.length) (v : α) (b : ResultsOf α) :
    (a.extend b).withToken i v = (a.withToken i v).extend b := by
  have htokens : ((a.extend b).withToken i v).tokens = ((a.withToken i v).extend b).tokens := by
    show (a.tokens ++ b.tokens).take i ++ v :: (a.tokens ++ b.tokens).drop i
      = (a.tokens.take i ++ v :: a.tokens.drop i) ++ b.tokens
    rw [List.take_append_of_le_length hi, List.drop_append_of_le_length hi, List.append_assoc, List.cons_append]
  have hmove (f : Field α) : (f.mapEntries (Entry.shift a.length)).mapEntries (Entry.makeRoom i)
      = f.mapEntries (Entry.shift (a.length + 1)) := by
    simp only [Field.mapEntries, List.map_map]
    exact congrArg (fun entries => ({ f with entries } : Field α))
      (List.map_congr_left fun e _ => Entry.makeRoom_shift hi e)
  have hfields : ((a.extend b).withToken i v).fields = ((a.withToken i v).extend b).fields := by
    rw [fields_extend (a.withToken i v), length_withToken hi, withToken, withToken, fields_extend, map_addFields,
      List.map_map]
    exact congrArg (addFields _) (List.map_congr_left fun f _ => hmove f)
  calc (a.extend b).withToken i v
      = ⟨((a.extend b).withToken i v).tokens, ((a.extend b).withToken i v).fields, a.origin⟩ := rfl
    _ = ⟨((a.withToken i v).extend b).tokens, ((a.withToken i v).extend b).fields, a.origin⟩ := by rw [htokens, hfields]
    _ = (a.withToken i v).extend b := rfl

/-! ## The entries of a name -/

/-- The entries of a name in a table. -/
def tableEntries (name : String) (fs : List (Field α)) : List (Entry α) :=
  ((fs.find? (·.name == name)).map (·.entries)).getD []

/-- The entries of a name. -/
def entriesOf (name : String) (r : ResultsOf α) : List (Entry α) := tableEntries name r.fields

theorem tableEntries_cons (name : String) (f : Field α) (fs : List (Field α)) :
    tableEntries name (f :: fs) = if f.name = name then f.entries else tableEntries name fs := by
  by_cases h : f.name = name <;> simp [tableEntries, h]

theorem tableEntries_of_notMem {name : String} {fs : List (Field α)} (h : name ∉ fs.map (·.name)) :
    tableEntries name fs = [] := by
  induction fs with
  | nil => rfl
  | cons f fs ih =>
    obtain ⟨hne, hfs⟩ : ¬ name = f.name ∧ name ∉ fs.map (·.name) := by simpa using h
    rw [tableEntries_cons, if_neg fun h => hne h.symm, ih hfs]

theorem tableEntries_map (name : String) (move : Entry α → Entry α) (fs : List (Field α)) :
    tableEntries name (fs.map (Field.mapEntries move)) = (tableEntries name fs).map move := by
  induction fs with
  | nil => rfl
  | cons f fs ih =>
    rw [List.map_cons, tableEntries_cons, tableEntries_cons, Field.name_mapEntries, ih]
    split <;> rfl

theorem tableEntries_addField (name : String) (f : Field α) (fs : List (Field α)) :
    tableEntries name (addField f fs) = tableEntries name fs ++ if f.name = name then f.entries else [] := by
  induction fs with
  | nil => rw [addField, tableEntries_cons]; rfl
  | cons g gs ih =>
    by_cases hname : g.name = f.name
    · rw [addField, if_pos hname, tableEntries_cons, tableEntries_cons, Field.name_append, hname]
      split <;> simp [Field.append]
    · rw [addField, if_neg hname, tableEntries_cons, tableEntries_cons, ih]
      by_cases hg : g.name = name
      · have hf : ¬ f.name = name := fun hf => hname (hg.trans hf.symm)
        rw [if_pos hg, if_pos hg, if_neg hf, List.append_nil]
      · rw [if_neg hg, if_neg hg]

theorem tableEntries_addFields (name : String) (fs : List (Field α)) {gs : List (Field α)}
    (hgs : (gs.map (·.name)).Nodup) :
    tableEntries name (addFields fs gs) = tableEntries name fs ++ tableEntries name gs := by
  induction gs generalizing fs with
  | nil => simp [tableEntries]
  | cons g gs ih =>
    obtain ⟨hg, hgs⟩ := List.nodup_cons.mp hgs
    rw [addFields_cons, ih _ hgs, tableEntries_addField, List.append_assoc, tableEntries_cons]
    by_cases hname : g.name = name
    · have hnone : tableEntries name gs = [] := tableEntries_of_notMem (hname ▸ hg)
      rw [if_pos hname, if_pos hname, hnone, List.append_nil]
    · rw [if_neg hname, if_neg hname, List.nil_append]

/-- The entries of a name in the second results come after those in the first, moved along by the tokens of the first. -/
theorem entriesOf_extend (name : String) (a : ResultsOf α) (hb : b.names.Nodup) :
    (a.extend b).entriesOf name = a.entriesOf name ++ (b.entriesOf name).map (Entry.shift a.length) := by
  have hnames : ((b.fields.map (Field.mapEntries (Entry.shift a.length))).map (·.name)).Nodup := by
    rw [List.map_map]
    exact hb
  rw [entriesOf, fields_extend, tableEntries_addFields name _ hnames, tableEntries_map]
  rfl

/-- Inserting a token makes room for it in the entries of each name. -/
theorem entriesOf_withToken (name : String) (i : Nat) (v : α) (a : ResultsOf α) :
    (a.withToken i v).entriesOf name = (a.entriesOf name).map (Entry.makeRoom i) :=
  tableEntries_map name (Entry.makeRoom i) a.fields

/-! ## Where entries point -/

/-- Entries are moved from some results to others with the tokens they point at. -/
def Carries (move : Entry α → Entry α) (r r' : ResultsOf α) : Prop :=
  ∀ e t, r.tokens[e.offset]? = some t → (move e).value = e.value ∧ r'.tokens[(move e).offset]? = some t

theorem carries_extend_left (a b : ResultsOf α) : Carries id a (a.extend b) := by
  intro e t ht
  obtain ⟨hlt, -⟩ := List.getElem?_eq_some_iff.mp ht
  exact ⟨rfl, (List.getElem?_append_left hlt).trans ht⟩

theorem carries_extend_right (a b : ResultsOf α) : Carries (Entry.shift a.length) b (a.extend b) := by
  intro e t ht
  have hle : a.tokens.length ≤ e.offset + a.tokens.length := Nat.le_add_left _ _
  refine ⟨rfl, (List.getElem?_append_right hle).trans ?_⟩
  rw [Nat.add_sub_cancel]
  exact ht

theorem carries_withToken {i : Nat} (hi : i ≤ a.length) (v : α) : Carries (Entry.makeRoom i) a (a.withToken i v) := by
  intro e t ht
  refine ⟨e.value_makeRoom i, ?_⟩
  have htake : (a.tokens.take i).length = i := List.length_take_of_le hi
  show (a.tokens.take i ++ v :: a.tokens.drop i)[(e.makeRoom i).offset]? = some t
  by_cases hpast : i ≤ e.offset
  · -- what comes after the new token is one further along
    have hoffset : (e.makeRoom i).offset = (a.tokens.take i).length + (e.offset - i + 1) := by
      rw [Entry.makeRoom, if_pos hpast, htake]
      show e.offset + 1 = i + (e.offset - i + 1)
      omega
    rw [hoffset, List.getElem?_append_right (Nat.le_add_right _ _), Nat.add_sub_cancel_left, List.getElem?_cons_succ,
      List.getElem?_drop, Nat.add_sub_cancel' hpast, ht]
  · have hlt : e.offset < i := Nat.lt_of_not_le hpast
    rw [Entry.makeRoom, if_neg hpast, List.getElem?_append_left (htake.symm ▸ hlt), List.getElem?_take_of_lt hlt, ht]

/-! ## The laws together -/

/-- **Results under concatenation are a monoid that insertion commutes with**, as long as the fields of each have different
names. The results without tokens and fields are neutral, on the left up to the origin. A token can be inserted, up to the
end of the first results, before or after others are appended. Of each name the entries stay in order, those of the first
results before those of the second, and each that points at a token is moved along with it. -/
theorem concatenation_laws (ha : a.names.Nodup) (hb : b.names.Nodup) (c : ResultsOf α) (origin : Option ExprId) (v : α)
    {i : Nat} (hi : i ≤ a.length) :
    ((a.extend b).extend c = a.extend (b.extend c) ∧ a.extend ⟨[], [], origin⟩ = a ∧
      (⟨[], [], origin⟩ : ResultsOf α).extend a = { a with origin }) ∧
    (∃ inserted, a.insert? i v = some inserted ∧ (a.extend b).insert? i v = some (inserted.extend b) ∧
      (∀ name, inserted.entriesOf name = (a.entriesOf name).map (Entry.makeRoom i)) ∧
      Carries (Entry.makeRoom i) a inserted) ∧
    (∀ name, (a.extend b).entriesOf name = a.entriesOf name ++ (b.entriesOf name).map (Entry.shift a.length)) ∧
    Carries id a (a.extend b) ∧ Carries (Entry.shift a.length) b (a.extend b) := by
  have hi' : i ≤ (a.extend b).length := by
    rw [length_extend]
    exact Nat.le_add_right_of_le hi
  refine ⟨⟨extend_assoc a hb c, extend_nothing a origin, empty_extend ha origin⟩, ?_,
    fun name => entriesOf_extend name a hb, carries_extend_left a b, carries_extend_right a b⟩
  refine ⟨a.withToken i v, insert?_eq hi v, ?_, fun name => entriesOf_withToken name i v a, carries_withToken hi v⟩
  rw [insert?_eq hi', withToken_extend hi]

/-- Two names in either order, recorded up to the end of the tokens and past it, with a token inserted at that end. -/
theorem concatenation_laws_twoNames :
    let a : ResultsOf String := ⟨["x", "y"], [⟨"n", false, [⟨"x", 0⟩, ⟨"z", 3⟩]⟩, ⟨"m", true, [⟨"y", 1⟩, ⟨"", 2⟩]⟩], some 4⟩
    let b : ResultsOf String := ⟨["z"], [⟨"m", false, [⟨"z", 0⟩]⟩, ⟨"n", true, [⟨"", 1⟩]⟩], some 5⟩
    (a.names.Nodup ∧ b.names.Nodup ∧ 2 ≤ a.length) ∧
    ((a.extend b).extend a = a.extend (b.extend a) ∧ a.extend ⟨[], [], none⟩ = a ∧
      (⟨[], [], none⟩ : ResultsOf String).extend a = { a with origin := none }) ∧
    (∃ inserted, a.insert? 2 "v" = some inserted ∧ (a.extend b).insert? 2 "v" = some (inserted.extend b) ∧
      (∀ name, inserted.entriesOf name = (a.entriesOf name).map (Entry.makeRoom 2)) ∧
      Carries (Entry.makeRoom 2) a inserted) ∧
    (∀ name, (a.extend b).entriesOf name = a.entriesOf name ++ (b.entriesOf name).map (Entry.shift a.length)) ∧
    Carries id a (a.extend b) ∧ Carries (Entry.shift a.length) b (a.extend b) := by
  intro a b
  have ha : a.names.Nodup := by decide
  have hb : b.names.Nodup := by decide
  have hi : 2 ≤ a.length := by decide
  exact ⟨⟨ha, hb, hi⟩, concatenation_laws ha hb a none "v" hi⟩

end ResultsOf
end Packrat
