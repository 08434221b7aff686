import Packrat.Grammar.Builder
import Packrat.Matching.Attempt
import Packrat.Proofs.Placement.Boundary
import Packrat.Proofs.Reading.Wrapped

/-!
# `Packrat.Proofs.Reading.Anchored` — patterns at a place

A node of a pattern is to match where it is attempted and nowhere further on. So the pattern is put, as text, in a group
behind a start assertion. That does what it should for every pattern that stays in the group: its program begins with the
assertion, which no later place satisfies.

## Contents

* `IsWhole`, `EndsInComment`, `EscapesGroup` — texts as patterns, with and without a parenthesis behind them;
* `readAnchored?_cases` — a pattern in its group, next to the pattern alone;
* `IsAnchored`, `find?_start` — programs that match at the start only;
* `pattern_anchored` — **a pattern is built as what it is alone**, and matches where it is attempted.
-/

namespace Packrat.Pattern

open Unread

/-! ## Patterns as texts -/

/-- A pattern of which nothing has been read. -/
def Reading.start (flags : Flags) (t : Text) : Reading := ⟨{ rest := t, flags }, [], [], []⟩

theorem read?_eq (flags : Flags) (t : Text) :
    read? flags t = (Reading.start flags t).run.map fun x => ⟨x.1.program, x.2.names⟩ := rfl

/-- A text is a pattern, and a parenthesis behind it closes nothing. -/
def IsWhole (flags : Flags) (t : Text) : Prop := (read? flags t).isSome = true ∧ read? flags (t ++ [')']) = none

/-- A text is a pattern, and so it is with a parenthesis behind it, which is part of a comment. -/
def EndsInComment (flags : Flags) (t : Text) : Prop :=
  (read? flags t).isSome = true ∧ (read? flags (t ++ [')'])).isSome = true

/-- A text is read in a group, and the group is closed after a front of it that is a pattern. -/
def EscapesGroup (flags : Flags) (source : String) : Prop :=
  (readAnchored? flags source).isSome = true ∧ ∃ u v, source.toList = u ++ ')' :: v ∧ IsWhole flags u

/-- The group around a pattern, with the start assertion before it. -/
def anchor (flags : Flags) : OpenGroup := ⟨none, flags, [], [some (.assertion .startText)]⟩

theorem advance?_startText (flags : Flags) (t : Text) :
    (Reading.start flags ('\\' :: 'A' :: '(' :: t)).advance? =
      some ⟨{ rest := '(' :: t, flags }, [], [some (.assertion .startText)], []⟩ := by
  have hskip : (Reading.start flags ('\\' :: 'A' :: '(' :: t)).reader.skipBlanks =
      { rest := '\\' :: 'A' :: '(' :: t, flags } :=
    skipBlanks_of_head rfl (by decide) (by decide)
  rw [Reading.advance?, hskip]
  rfl

theorem advance?_openGroup (flags : Flags) (items : Items) (t : Text) :
    (⟨{ rest := '(' :: '?' :: ':' :: t, flags }, [], items, []⟩ : Reading).advance? =
      some ⟨{ rest := t, flags }, [], [], [⟨none, flags, [], items⟩]⟩ := by
  have hskip : ({ rest := '(' :: '?' :: ':' :: t, flags } : Reader).skipBlanks =
      { rest := '(' :: '?' :: ':' :: t, flags } :=
    skipBlanks_of_head rfl (by decide) (by decide)
  have hpast : ({ rest := '(' :: '?' :: ':' :: t, flags } : Reader).past ('?' :: ':' :: t) =
      { rest := '?' :: ':' :: t, flags } :=
    skipBlanks_of_head rfl (by decide) (by decide)
  rw [Reading.advance?, hskip]
  simp only [Reading.item?, openGroup?, hpast]
  rfl

/-- A pattern in its group, behind the start assertion. -/
theorem readAnchored?_eq (flags : Flags) (source : String) :
    readAnchored? flags source =
      ((followedBy (Reading.start flags source.toList) [')']).under [anchor flags]).run.map fun x =>
        ⟨x.1.program, x.2.names⟩ := by
  have htext : "\\A(?:".toList ++ source.toList ++ [')'] = '\\' :: 'A' :: '(' :: '?' :: ':' :: (source.toList ++ [')']) :=
    rfl
  rw [readAnchored?, htext, read?_eq, Reading.run_of_advance? (advance?_startText flags _),
    Reading.run_of_advance? (advance?_openGroup flags _ _)]
  rfl

/-! ## Programs -/

/-- What a pattern does first is to test whether the text starts here. -/
def IsAnchored (p : Pattern) : Prop := ∃ next, p.program.code[p.program.start]? = some (.assertion .startText next)

theorem compile_startText (next : Nat) (code : List Instr) :
    let p := (Expr.assertion .startText).compile next code
    p.code[p.start]? = some (.assertion .startText next) := by
  simp [Expr.compile, emit]

/-- A pattern in its group is what it is alone, behind the start assertion. -/
theorem isAnchored_toExpr (e : Expr) (names : List GroupName) :
    IsAnchored ⟨(Items.toExpr [some e, some (.assertion .startText)]).program, names⟩ := by
  cases e with
  | empty => exact ⟨_, compile_startText _ _⟩
  | _ => exact ⟨_, compile_startText _ _⟩

variable {p : Pattern} {t : Text}

/-- After a character the text does not start. -/
theorem findFrom_of_isAnchored (h : p.IsAnchored) (c : Char) (offset : Nat) (rest : Text) :
    p.findFrom (some c) offset rest = none := by
  obtain ⟨next, hnext⟩ := h
  induction rest generalizing c offset with
  | nil =>
    rw [findFrom]
    simp [exploreFuel, explore, hnext, Instr.follow, Cursor.satisfies]
  | cons d r ih =>
    rw [findFrom]
    simp [exploreFuel, explore, hnext, Instr.follow, Cursor.satisfies, ih]

/-- An anchored pattern matches at the start of a text only. -/
theorem find?_start (h : p.IsAnchored) {m : Match} (hm : p.find? t = some m) : m.start = 0 := by
  rw [find?, findFrom.eq_def] at hm
  split at hm
  · exact Option.some.inj hm ▸ rfl
  · split at hm
    · exact absurd hm (by simp)
    · rw [findFrom_of_isAnchored h] at hm
      exact absurd hm (by simp)

/-! ## The pattern in its group -/

/-- **A pattern in its group**, next to the pattern alone: either both are read; or it ends in a comment; or the group is
closed too early; or neither is read. -/
theorem readAnchored?_cases (flags : Flags) (source : String) :
    (∃ p, readAnchored? flags source = some p ∧ p.IsAnchored ∧ (read? flags source.toList).isSome = true ∧
        ∀ v, read? flags (source.toList ++ ')' :: v) = none) ∨
      (EndsInComment flags source.toList ∧ readAnchored? flags source = none) ∨
      (read? flags source.toList = none ∧ ∃ u v, source.toList = u ++ ')' :: v ∧ IsWhole flags u) ∨
      (read? flags source.toList = none ∧ readAnchored? flags source = none) := by
  let σ := Reading.start flags source.toList
  have halone : read? flags source.toList = σ.run.map fun x => ⟨x.1.program, x.2.names⟩ := rfl
  have hbehind (v : Text) : read? flags (source.toList ++ ')' :: v) =
      (followedBy σ (')' :: v)).run.map fun x => ⟨x.1.program, x.2.names⟩ := rfl
  rcases Reading.run_wrapped σ (anchor flags) with ⟨e, r, hrun, hunmatched, hin⟩ | ⟨hrun, hsame, hin⟩ | ⟨hrun, hcloses⟩ |
    ⟨hrun, hin⟩
  · refine .inl ⟨_, ?_, isAnchored_toExpr e r.names, ?_, fun v => ?_⟩
    · rw [readAnchored?_eq, hin, Reading.run_after]
      rfl
    · rw [halone, hrun]
      rfl
    · rw [hbehind, hunmatched, Option.map_none]
  · refine .inr (.inl ⟨⟨?_, ?_⟩, ?_⟩)
    · rw [halone, Option.isSome_map, hrun]
    · rw [hbehind, Option.isSome_map, hsame]
    · rw [readAnchored?_eq, hin, Option.map_none]
  · refine .inr (.inr (.inl ⟨by rw [halone, hrun, Option.map_none], ?_⟩))
    obtain ⟨u, v, hrest, hsome, hnone⟩ := hcloses
    refine ⟨u, v, hrest, ?_, ?_⟩
    · have hu : read? flags u = (σ.at u).run.map fun x => ⟨x.1.program, x.2.names⟩ := rfl
      rw [hu, Option.isSome_map, hsome]
    · have hu : read? flags (u ++ [')']) = (σ.at (u ++ [')'])).run.map fun x => ⟨x.1.program, x.2.names⟩ := rfl
      rw [hu, hnone, Option.map_none]
  · refine .inr (.inr (.inr ⟨by rw [halone, hrun, Option.map_none], ?_⟩))
    rw [readAnchored?_eq, hin, Option.map_none]

/-- A whole pattern is not one with any text behind a parenthesis that closes nothing. -/
theorem IsWhole.read?_eq_none {flags : Flags} {u : Text} (h : IsWhole flags u) (v : Text) :
    read? flags (u ++ ')' :: v) = none := by
  have hcases := readAnchored?_cases flags (String.ofList u)
  rw [String.toList_ofList] at hcases
  rcases hcases with ⟨p, -, -, -, hnone⟩ | ⟨hcomment, -⟩ | ⟨hnone, -⟩ | ⟨hnone, -⟩
  · exact hnone v
  · exact absurd hcomment.2 (by simp [h.2])
  · exact absurd h.1 (by simp [hnone])
  · exact absurd h.1 (by simp [hnone])

/-- A pattern is read in its group exactly if it is read alone, as long as it stays in the group and does not end in a
comment; and not otherwise. -/
theorem isSome_readAnchored?_iff (flags : Flags) (source : String) :
    ((readAnchored? flags source).isSome = true ↔ (read? flags source.toList).isSome = true) ↔
      ¬ EscapesGroup flags source ∧ ¬ EndsInComment flags source.toList := by
  have hstays (hsome : (read? flags source.toList).isSome = true) : ¬ EscapesGroup flags source := by
    rintro ⟨-, u, v, hsource, hwhole⟩
    rw [hsource, hwhole.read?_eq_none v] at hsome
    exact absurd hsome (by simp)
  rcases readAnchored?_cases flags source with ⟨p, hp, -, hsome, hnone⟩ | ⟨hcomment, hp⟩ | ⟨halone, hcloses⟩ | ⟨halone, hp⟩
  · have hends : ¬ EndsInComment flags source.toList := fun h => absurd h.2 (by rw [hnone []]; simp)
    simp [hp, hsome, hstays hsome, hends]
  · simp [hp, hcomment.1, hcomment]
  · have hends : ¬ EndsInComment flags source.toList := fun h => absurd h.1 (by rw [halone]; simp)
    have hescapes : EscapesGroup flags source ↔ (readAnchored? flags source).isSome = true :=
      ⟨And.left, fun h => ⟨h, hcloses⟩⟩
    simp [halone, hends, hescapes]
  · have hends : ¬ EndsInComment flags source.toList := fun h => absurd h.1 (by rw [halone]; simp)
    have hescapes : ¬ EscapesGroup flags source := fun h => absurd h.1 (by rw [hp]; simp)
    simp [halone, hp, hends, hescapes]

/-- A pattern that stays in its group is anchored. -/
theorem isAnchored_of_readAnchored? {flags : Flags} {source : String} (h : readAnchored? flags source = some p)
    (hstays : ¬ EscapesGroup flags source) : p.IsAnchored := by
  have hsome : (readAnchored? flags source).isSome = true := by rw [h]; rfl
  rcases readAnchored?_cases flags source with ⟨q, hq, hanchored, -⟩ | ⟨-, hnone⟩ | ⟨-, hcloses⟩ | ⟨-, hnone⟩
  · exact Option.some.inj (h.symm.trans hq) ▸ hanchored
  · rw [hnone] at hsome
    exact absurd hsome (by simp)
  · exact absurd ⟨hsome, hcloses⟩ hstays
  · rw [hnone] at hsome
    exact absurd hsome (by simp)

/-! ## Matches -/

/-- Named groups are fields; the token is the text of the match. -/
theorem tokens_patternResults (p : Pattern) (t : Text) (m : Match) :
    (patternResults p t m).tokens = [Value.ofText (t.slice m.start m.stop)] := by
  unfold patternResults
  generalize hr : ResultsOf.single (Value.ofText (t.slice m.start m.stop)) = r
  have htokens : r.tokens = [Value.ofText (t.slice m.start m.stop)] := hr ▸ rfl
  clear hr
  induction p.names generalizing r with
  | nil => exact htokens
  | cons name names ih =>
    refine ih _ ?_
    dsimp only
    split
    · exact htokens
    · exact htokens

/-- A match of an anchored pattern is the text from where it is attempted on. -/
theorem token_of_isAnchored (h : p.IsAnchored) {rule : Rule} {source : String} (hkind : rule.kind = .pattern source p)
    {start stop : Nat} (hstart : t.IsBoundary start) {r : Results} (hr : matchToken rule t start = .matched stop r) :
    ∃ token, t.slice? start stop = some token ∧ r.tokens = [Value.ofText token] := by
  have hstop := isBoundary_matchToken hstart rule
  have hle := le_place_matchToken rule t start
  rw [hr] at hstop hle
  refine ⟨t.slice start stop, hstart.slice? hstop hle, ?_⟩
  simp only [matchToken, hkind] at hr
  split at hr
  · next m hm =>
    obtain ⟨rfl, rfl⟩ := Step.matched.inj hr
    have hslice : (t.rest start).slice 0 m.stop = t.slice start (start + m.stop) := by
      simp only [Text.slice, Text.slice?, if_pos (Nat.zero_le _), if_pos (Nat.le_add_right _ _), Text.drop?_zero,
        hstart.drop?, Nat.add_sub_cancel_left, Nat.sub_zero, Option.bind_some]
    rw [tokens_patternResults, find?_start h hm, hslice]
  · exact absurd hr (by simp [Step.failAt])

end Pattern

/-! ## Nodes -/

open Pattern

/-- Every match of a node of a kind has one token, which is the text from where the node is attempted to the end of the
match. -/
def NodeKind.TakesInPlace (kind : NodeKind) : Prop :=
  ∀ (rule : Rule), rule.kind = kind → ∀ (attempt : Attempt) (c : Context) (i : ExprId) (start : Nat) (acts : Bool),
    c.text.IsBoundary start → ∀ (s : State) (stop : Nat) (r : Results) (s' : State),
      matchNode attempt c i rule start acts s = .ok (.matched stop r) s' →
        ∃ token, c.text.slice? start stop = some token ∧ r.tokens = [Value.ofText token]

theorem Builder.pattern_eq {b : Builder} {source : String} {flags : Flags} {p : Pattern}
    (h : readAnchored? flags source = some p) :
    b.pattern source flags = .ok (b.pushSkipping (.pattern source p)) := by
  rw [Builder.pattern, h]

theorem takesInPlace_of_isAnchored {p : Pattern} (h : p.IsAnchored) (source : String) :
    (NodeKind.pattern source p).TakesInPlace := by
  intro rule hkind attempt c i start acts hstart s stop r s' hr
  have hnode : matchNode attempt c i rule start acts = pure (matchToken rule c.text start) := by
    simp only [matchNode, hkind]
  rw [hnode] at hr
  exact token_of_isAnchored h hkind hstart (EStateM.Result.ok.inj hr).1

/-- **A pattern is built as what it is alone**, exactly if it stays in its group and does not end in a comment. If it stays
in its group, it matches at the start of a text only, and its token is the text from where it is attempted on. -/
theorem pattern_anchored (b : Builder) (source : String) (flags : Flags) :
    (((∃ x, b.pattern source flags = .ok x) ↔ (read? flags source.toList).isSome = true) ↔
        ¬ EscapesGroup flags source ∧ ¬ EndsInComment flags source.toList) ∧
      (¬ EscapesGroup flags source → ∀ (i : ExprId) (b' : Builder), b.pattern source flags = .ok (i, b') →
        ∃ p, kindOf? b'.nodes i = some (.pattern source p) ∧ (∀ t m, p.find? t = some m → m.start = 0) ∧
          (NodeKind.pattern source p).TakesInPlace) := by
  have hbuilds : (∃ x, b.pattern source flags = .ok x) ↔ (readAnchored? flags source).isSome = true := by
    unfold Builder.pattern
    cases readAnchored? flags source with
    | none => simp
    | some p => simp
  refine ⟨by rw [hbuilds]; exact isSome_readAnchored?_iff flags source, fun hstays i b' hb => ?_⟩
  unfold Builder.pattern at hb
  split at hb
  · next p hp =>
    obtain ⟨rfl, rfl⟩ := Prod.mk.inj (Except.ok.inj hb)
    have hanchored := isAnchored_of_readAnchored? hp hstays
    exact ⟨p, by simp [kindOf?], fun t m => find?_start hanchored, takesInPlace_of_isAnchored hanchored source⟩
  · exact absurd hb (by simp)

/-- A choice between a letter and a pair stays in its group. -/
theorem pattern_anchored_letterOrPair :
    ∃ p, ({} : Builder).pattern "a|bc" {} = .ok (({} : Builder).pushSkipping (.pattern "a|bc" p)) ∧
      (∀ t m, p.find? t = some m → m.start = 0) ∧ (NodeKind.pattern "a|bc" p).TakesInPlace := by
  obtain ⟨hiff, hplace⟩ := pattern_anchored {} "a|bc" {}
  obtain ⟨p, hp⟩ : ∃ p, readAnchored? {} "a|bc" = some p := Option.isSome_iff_exists.mp (by decide +kernel)
  have hbuilds := Builder.pattern_eq (b := {}) hp
  have hstays := (hiff.mp (iff_of_true ⟨_, hbuilds⟩ (by decide +kernel))).1
  obtain ⟨q, hq, hstart, htakes⟩ := hplace hstays _ _ hbuilds
  obtain ⟨-, rfl⟩ := NodeKind.pattern.inj (Option.some.inj hq)
  exact ⟨p, hbuilds, hstart, htakes⟩

/-- The second branch of this pattern is outside of the group, and so matches further on; the pattern alone is none. -/
theorem not_pattern_anchored_escapingBranch :
    read? {} "x)|(?:y".toList = none ∧
      ∃ p, ({} : Builder).pattern "x)|(?:y" {} = .ok (({} : Builder).pushSkipping (.pattern "x)|(?:y" p)) ∧
        (∃ m, p.find? "ay".toList = some m ∧ m.start = 1) ∧
        ∀ (rule : Rule), rule.kind = .pattern "x)|(?:y" p →
          ∃ r, matchToken rule "ay".toList 0 = .matched 2 r ∧ r.tokens = [Value.str "y"] := by
  let p : Pattern := ⟨⟨[.accept, .one (.ranges [(120, 120)]) 0, .assertion .startText 1, .one (.ranges [(121, 121)]) 0,
    .split 2 3], 4⟩, []⟩
  have hp : readAnchored? {} "x)|(?:y" = some p := by decide +kernel
  have hfind : p.find? "ay".toList = some ⟨1, 2, []⟩ := by
    have htext : "ay".toList = ['a', 'y'] := rfl
    have ha : Char.utf8Size 'a' = 1 := by decide
    have hy : Char.utf8Size 'y' = 1 := by decide
    have hxa : (CharClass.ranges [(120, 120)]).contains 'a' = false := by decide
    have hya : (CharClass.ranges [(121, 121)]).contains 'a' = false := by decide
    have hyy : (CharClass.ranges [(121, 121)]).contains 'y' = true := by decide
    rw [htext, find?, findFrom, exploreFuel]
    simp [explore, Instr.follow, Cursor.satisfies, Cursor.step?, findFrom, exploreFuel, p, ha, hy, hxa, hya, hyy]
  refine ⟨by decide +kernel, p, Builder.pattern_eq hp, ⟨_, hfind, rfl⟩, fun rule hrule => ?_⟩
  refine ⟨patternResults p "ay".toList ⟨1, 2, []⟩, ?_, tokens_patternResults _ _ _⟩
  have hrest : Text.rest "ay".toList 0 = "ay".toList := rfl
  simp only [matchToken, hrule, hrest, hfind]

/-- A parenthesis behind a comment is part of the comment, so that the group is not closed. -/
example : (read? ⟨false, false, false, true, false⟩ "a # b".toList).isSome = true ∧
    readAnchored? ⟨false, false, false, true, false⟩ "a # b" = none := by
  decide +kernel

end Packrat
