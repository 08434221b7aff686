import Packrat.Results.View
import Packrat.Proofs.Placement.Boundary

/-!
# `Packrat.Proofs.Region.Spelling` — results that spell what they take

The leaves of results, one after the other, are a text. Where nothing between the tokens of a match is passed over and no
token is changed, that text is the slice of the input that the match takes.

## Contents

* `IsBoundary.slice_of_rest`, `IsBoundary.slice_append` — slices between places;
* `ResultsOf.spelling` — the text of the leaves, and how the operations on results change it;
* `Tiles`, `Step.Spells` — matches that spell the slice they take;
* `NodeKind.keepsText` — the expressions that spell what they take if what is in them does;
* `spells_matchToken`, `spells_testPosition` — terminals.
-/

namespace Packrat

/-! ## Slices between places -/

namespace Text

variable {t x y : Text} {p q s : Nat}

/-- A front of the rest is the slice that it takes up. -/
theorem IsBoundary.slice_of_rest (h : t.IsBoundary p) (hr : t.rest p = x ++ y) : t.slice p (p + x.size) = x := by
  rw [slice, Text.slice?, if_pos (Nat.le_add_right _ _), h.drop?, Option.bind_some, hr, Nat.add_sub_cancel_left,
    take?_append, Option.getD_some]

theorem IsBoundary.slice_self (h : t.IsBoundary p) : t.slice p p = [] := h.slice_of_rest (x := []) rfl

/-- Between two places in their order lies a front of the rest of the first one. -/
theorem IsBoundary.exists_rest (hp : t.IsBoundary p) (hq : t.IsBoundary q) (hle : p ≤ q) :
    ∃ x y, t.rest p = x ++ y ∧ p + x.size = q := by
  obtain ⟨x, y, hrest, hsize⟩ := isBoundary_iff.mp (hp.in_rest hq hle)
  exact ⟨x, y, hrest, by rw [hsize, Nat.add_sub_cancel' hle]⟩

/-- Two slices, of which one ends where the other starts, make up one. -/
theorem IsBoundary.slice_append (hp : t.IsBoundary p) (hq : t.IsBoundary q) (hs : t.IsBoundary s) (hpq : p ≤ q)
    (hqs : q ≤ s) : t.slice p q ++ t.slice q s = t.slice p s := by
  obtain ⟨x, y, hx, rfl⟩ := hp.exists_rest hq hpq
  obtain ⟨z, w, hz, rfl⟩ := hq.exists_rest hs hqs
  have hrest : t.rest p = (x ++ z) ++ w := by rw [hx, ← hp.rest_add hx, hz, List.append_assoc]
  have hwhole := hp.slice_of_rest hrest
  rw [size_append, ← Nat.add_assoc] at hwhole
  rw [hp.slice_of_rest hx, hq.slice_of_rest hz, hwhole]

end Text

/-! ## The text of the leaves -/

theorem Value.leavesOf_append (vs ws : List Value) :
    Value.leavesOf (vs ++ ws) = Value.leavesOf vs ++ Value.leavesOf ws := by
  induction vs with
  | nil => rw [List.nil_append, Value.leavesOf, List.nil_append]
  | cons v vs ih => rw [List.cons_append, Value.leavesOf, Value.leavesOf, ih, List.append_assoc]

namespace ResultsOf

/-- The leaves of the tokens, each as text, one after the other. -/
def spelling (r : Results) : Text := r.strings.flatMap String.toList

variable {r r' : Results}

/-- Fields and origin do not count. -/
theorem spelling_congr (h : r.tokens = r'.tokens) : r.spelling = r'.spelling := by
  rw [spelling, spelling, strings, strings, leaves, leaves, h]

theorem spelling_of_tokens_nil (h : r.tokens = []) : r.spelling = [] := by
  rw [spelling, strings, leaves, h]
  rfl

@[simp] theorem spelling_str (s : String) : (ResultsOf.single (Value.str s) : Results).spelling = s.toList :=
  List.append_nil _

@[simp] theorem spelling_ofText (x : Text) : (ResultsOf.single (Value.ofText x) : Results).spelling = x := by
  rw [Value.ofText, spelling_str, String.toList_ofList]

/-- A group spells what is in it. -/
@[simp] theorem spelling_group (r : Results) : (ResultsOf.single (.group r) : Results).spelling = r.spelling := by
  obtain ⟨tokens, fields, origin⟩ := r
  rw [spelling, strings, leaves, ResultsOf.single, ResultsOf.ofTokens, Value.leavesOf, Value.leaves, Value.leavesOf,
    List.append_nil]
  rfl

@[simp] theorem spelling_extend (a b : Results) : (a.extend b).spelling = a.spelling ++ b.spelling := by
  rw [spelling, strings, leaves, ResultsOf.extend, Value.leavesOf_append, List.map_append, List.flatMap_append]
  rfl

@[simp] theorem spelling_withOrigin (i : ExprId) (r : Results) : (r.withOrigin i).spelling = r.spelling := rfl

/-- Naming a match keeps its tokens. -/
theorem tokens_nameTokens (name : String) (accumulates asList : Bool) (r : Results) :
    (r.nameTokens name accumulates asList).tokens = r.tokens := by
  unfold ResultsOf.nameTokens
  split <;> rfl

/-- Recording groups by their keys keeps the tokens. -/
theorem tokens_nameGroupsByKey (r : Results) : r.nameGroupsByKey.tokens = r.tokens := by
  have hfold (tokens : List (Value × Nat)) (out : Results) (f : Results → Value × Nat → Results)
      (hf : ∀ out x, (f out x).tokens = out.tokens) : (tokens.foldl f out).tokens = out.tokens := by
    induction tokens generalizing out with
    | nil => rfl
    | cons x tokens ih => rw [List.foldl_cons, ih, hf]
  refine hfold _ _ _ fun out x => ?_
  dsimp only
  split
  · rfl
  · rfl

/-- Leaves joined without anything between them are the spelling. -/
theorem intercalate_strings (r : Results) : "".intercalate r.strings = String.ofList r.spelling := by
  have hjoin (parts : List Text) : [].intercalate parts = parts.flatten := by
    induction parts with
    | nil => rfl
    | cons x parts ih =>
      cases parts with
      | nil => rw [List.intercalate_singleton, List.flatten_cons, List.flatten_nil, List.append_nil]
      | cons y parts => rw [List.intercalate_cons_cons, ih, List.append_nil, ← List.flatten_cons]
  apply String.toList_inj.mp
  rw [String.toList_intercalate, spelling, List.flatMap_def]
  exact (hjoin _).trans String.toList_ofList.symm

/-- The token of a combined match is the spelling. -/
theorem tokens_joined (r : Results) :
    (r.setTokens [Value.str ("".intercalate r.strings)]).tokens = [Value.ofText r.spelling] := by
  rw [intercalate_strings]
  rfl

/-- Joining the tokens changes nothing of what they spell. -/
theorem spelling_joined (r : Results) :
    (r.setTokens [Value.str ("".intercalate r.strings)]).spelling = r.spelling :=
  (spelling_congr (r.tokens_joined)).trans (spelling_ofText r.spelling)

end ResultsOf

/-! ## Matches that spell what they take -/

/-- Results of a match spell the slice that it takes. -/
structure Tiles (t : Text) (start stop : Nat) (r : Results) : Prop where
  place : Sites.places.From t start stop
  spelling : r.spelling = t.slice start stop

namespace Tiles

variable {t x y : Text} {p q s : Nat} {r r' : Results}

/-- A match of nothing. -/
theorem nothing (hp : t.IsBoundary p) (hr : r.tokens = []) : Tiles t p p r :=
  ⟨Sites.From.self hp, by rw [ResultsOf.spelling_of_tokens_nil hr, hp.slice_self]⟩

/-- A match of a front of the rest. -/
theorem front (hp : t.IsBoundary p) (hrest : t.rest p = x ++ y) (hr : r.spelling = x) : Tiles t p (p + x.size) r :=
  ⟨⟨hp.add hrest, Nat.le_add_right _ _⟩, by rw [hr, hp.slice_of_rest hrest]⟩

/-- A match whose only token is the slice. -/
theorem slice (h : Sites.places.From t p q) : Tiles t p q (ResultsOf.single (Value.ofText (t.slice p q))) :=
  ⟨h, ResultsOf.spelling_ofText _⟩

theorem congr (h : Tiles t p q r) (hr : r'.spelling = r.spelling) : Tiles t p q r' := ⟨h.place, hr.trans h.spelling⟩

/-- One match after the other. -/
theorem extend (hp : t.IsBoundary p) (h : Tiles t p q r) (h' : Tiles t q s r') : Tiles t p s (r.extend r') := by
  refine ⟨h'.place.mono h.place.le, ?_⟩
  rw [ResultsOf.spelling_extend, h.spelling, h'.spelling,
    hp.slice_append h.place.site h'.place.site h.place.le h'.place.le]

end Tiles

/-- A match spells the slice that it takes; of a failure nothing is said. -/
def Step.Spells (t : Text) (start : Nat) : Step → Prop
  | .matched stop r => Tiles t start stop r
  | .failed _ => True

namespace Step.Spells

variable {t : Text} {p : Nat} {step : Step}

theorem mapResults (h : step.Spells t p) {f : Results → Results} (hf : ∀ r, (f r).spelling = r.spelling) :
    (step.mapResults f).Spells t p := by
  cases step with
  | matched stop r => exact Tiles.congr h (hf r)
  | failed d => trivial

end Step.Spells

/-! ## Expressions -/

/-- Whether an expression changes nothing of the text that it takes, its children apart: not the case of its letters, not
the tokens of its child, and that it puts nothing in place of what is absent or between what it joins. -/
def NodeKind.keepsText : NodeKind → Bool
  | .literal _ caseless | .keyword _ caseless _ => !caseless
  | .optional _ default => default.isNone
  | .combine _ joiner => joiner == ""
  | .pattern _ _ | .transform _ _ | .suppress _ => false
  | _ => true

/-! ## Terminals -/

/-- A literal in its own case is what it takes. -/
theorem matchLiteral?_exact {literal rest : Text} {n : Nat} (h : matchLiteral? false literal rest = some n) :
    ∃ y, rest = literal ++ y ∧ literal.size = n := by
  induction literal generalizing rest n with
  | nil => exact ⟨rest, rfl, Option.some.inj h⟩
  | cons ch literal ih =>
    cases rest with
    | nil => exact absurd h (by simp [matchLiteral?])
    | cons d rest =>
      rw [matchLiteral?] at h
      split at h
      · next heq =>
        obtain rfl : ch = d := by simpa using heq
        obtain ⟨m, hm, rfl⟩ := Option.map_eq_some_iff.mp h
        obtain ⟨y, rfl, rfl⟩ := ih hm
        exact ⟨y, rfl, rfl⟩
      · exact absurd h (by simp)

section Terminals

variable {t : Text} {p : Nat} (hp : t.IsBoundary p)
include hp

theorem tiles_literal {text : String} {n : Nat} (h : matchLiteral? false text.toList (t.rest p) = some n) :
    Tiles t p (p + n) (ResultsOf.single (Value.str text)) := by
  obtain ⟨y, hrest, rfl⟩ := matchLiteral?_exact h
  exact Tiles.front hp hrest (ResultsOf.spelling_str text)

theorem spells_tokenStep {token y : Text} (h : t.rest p = token ++ y) : (tokenStep p token).Spells t p :=
  Tiles.front hp h (ResultsOf.spelling_ofText token)

/-- Literals and keywords in their own case, words and excluded runs spell what they take. -/
theorem spells_matchToken (rule : Rule) (hrule : rule.kind.keepsText = true) : (matchToken rule t p).Spells t p := by
  have hrun (token? : Option Text) (hfront : ∀ token, token? = some token → ∃ y, t.rest p = token ++ y) :
      ((token?.map (tokenStep p)).getD (Step.failAt p rule)).Spells t p := by
    cases token? with
    | none => trivial
    | some token =>
      obtain ⟨y, hy⟩ := hfront token rfl
      exact spells_tokenStep hp hy
  unfold matchToken
  cases hk : rule.kind with
  | literal text caseless =>
    obtain rfl : caseless = false := by simpa [hk, NodeKind.keepsText] using hrule
    dsimp only
    split
    · next n hn => exact tiles_literal hp hn
    · trivial
  | keyword text caseless identChars =>
    obtain rfl : caseless = false := by simpa [hk, NodeKind.keepsText] using hrule
    dsimp only
    split
    · next n hn =>
      split
      · trivial
      · exact tiles_literal hp hn
    · trivial
  | word init body min max => exact hrun _ fun token h => wordAt?_prefix h
  | charsNotIn excluded min max => exact hrun _ fun token h => excludedAt?_prefix h
  | pattern source compiled => exact absurd hrule (by simp [hk, NodeKind.keepsText])
  | _ => trivial

/-- Tests of a place take nothing, except the end of a line, which takes that. -/
theorem spells_testPosition (rule : Rule) : (testPosition rule t p).Spells t p := by
  have hanswer (b : Bool) : (if b = true then Step.matched p {} else Step.failAt p rule).Spells t p := by
    cases b with
    | true => exact Tiles.nothing hp rfl
    | false => trivial
  unfold testPosition
  cases hk : rule.kind with
  | lineEnd =>
    dsimp only
    split
    · next hch =>
      obtain ⟨y, hy⟩ : ∃ y, t.rest p = ['\n'] ++ y := by
        cases hrest : t.rest p with
        | nil => simp [Text.charAt?, hrest] at hch
        | cons ch y =>
          obtain rfl : ch = '\n' := by simpa [Text.charAt?, hrest] using hch
          exact ⟨y, rfl⟩
      exact Tiles.front hp hy (ResultsOf.spelling_str "\n")
    · exact hanswer _
  | stringEnd | lineStart | wordStart | wordEnd => exact hanswer _
  | _ => trivial

end Terminals
end Packrat
