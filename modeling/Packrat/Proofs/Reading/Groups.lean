import Packrat.Proofs.Reading.Escapes

/-!
# `Packrat.Proofs.Reading.Groups` — repetitions and groups

The marks that change what stands before them or after them: bounds of repetitions, and the openings of groups with their
flags and names. All are read with a parenthesis behind the text.

## Contents

* `readsAt_readBounds?`, `readsAt_readLazy` — repetitions;
* `readsAt_openGroup?` — openings of groups, which may end with the parenthesis.
-/

namespace Packrat.Pattern

open Unread

/-! ## Repetitions -/

/-- Counts, which a parenthesis ends. -/
theorem readsAt_readCount? (t : Text) : ReadsAt readCount? t := by
  have hblank : Text.isBlank ')' = false := by decide
  have hdigit : Char.isDigit ')' = false := by decide
  refine .decided _ rfl (fun x hx => ?_) fun v => ?_
  · unfold readCount? at hx
    dsimp only at hx
    split at hx
    · exact absurd hx (by simp)
    · split at hx
      · exact absurd hx (by simp)
      · obtain rfl := Option.some.inj hx
        exact (List.dropWhile_suffix _).trans ((List.dropWhile_suffix _).trans (List.dropWhile_suffix _))
  · simp only [followedBy, readCount?, dropWhile_stop hblank, takeWhile_stop hdigit, dropWhile_stop hdigit]
    split
    · rfl
    · split
      · rfl
      · rfl

/-- What follows both bounds. -/
def afterUpper? (r : Reader) (min max : Nat) : Text → Option (Nat × Option Nat × Reader) :=
  onHead '\x7d' (fun t => if min ≤ max then some (min, some max, r.past t) else none) fun _ => none

/-- What follows the lower bound and its comma. -/
def afterComma? (r : Reader) (min : Nat) : Text → Option (Nat × Option Nat × Reader) :=
  onHead '\x7d' (fun t => some (min, none, r.past t)) fun t => (readCount? t).bind fun x => afterUpper? r min x.1 x.2

/-- What follows the lower bound. -/
def afterLower? (r : Reader) (min : Nat) : Text → Option (Nat × Option Nat × Reader) :=
  onHead '\x7d' (fun t => some (min, some min, r.past t)) <|
    onHead ',' (fun t => (some (r.past t)).bind fun s => afterComma? r min s.rest) fun _ => none

theorem readBounds?_eq (r : Reader) :
    readBounds? r = ((some r.skipBlanks).bind fun s => readCount? s.rest).bind fun x => afterLower? r x.1 x.2 := by
  unfold readBounds?
  refine Option.bind_congr fun x hx => ?_
  obtain ⟨min, t⟩ := x
  dsimp only
  split
  · rw [afterLower?, onHead_cons]
    rfl
  · rw [afterLower?, onHead_other (by simp), onHead_cons, Option.bind_some]
    split
    · next heq =>
      rw [heq, afterComma?, onHead_cons]
      rfl
    · next hbrace =>
      rw [afterComma?, onHead_other hbrace]
      refine Option.bind_congr fun y hy => ?_
      obtain ⟨max, u⟩ := y
      dsimp only
      split
      · rw [afterUpper?, onHead_cons]
        rfl
      · next hbrace => rw [afterUpper?, onHead_other hbrace]
  · next hbrace hcomma => rw [afterLower?, onHead_other hbrace, onHead_other hcomma]

section

variable (r : Reader)

theorem readsAt_bounds (min : Nat) (max : Option Nat) (t : Text) : ReadsAt (fun t => some (min, max, r.past t)) t :=
  (Reader.readsAt_past r t).map (g := fun s => (min, max, s)) (fun _ => rfl) fun _ _ => rfl

theorem readsAt_afterUpper? (min max : Nat) (t : Text) : ReadsAt (afterUpper? r min max) t :=
  .onHead (by decide) (fun t => (readsAt_bounds r min (some max) t).ite (.refused t)) .refused t

theorem readsAt_afterComma? (min : Nat) (t : Text) : ReadsAt (afterComma? r min) t :=
  .onHead (by decide) (readsAt_bounds r min none)
    (fun t => (readsAt_readCount? t).bind fun x => (readsAt_afterUpper? r min x.1 x.2).same rfl (fun _ => rfl) rfl) t

theorem readsAt_afterLower? (min : Nat) (t : Text) : ReadsAt (afterLower? r min) t := by
  have hcomma (t : Text) : ReadsAt (fun t => (some (r.past t)).bind fun s => afterComma? r min s.rest) t :=
    (Reader.readsAt_past r t).bind fun s => (readsAt_afterComma? r min s.rest).same rfl (fun _ => rfl) rfl
  exact .onHead (by decide) (readsAt_bounds r min (some min)) (.onHead (by decide) hcomma .refused) t

/-- Bounds, read up to their closing brace and the blanks after it. -/
theorem readsAt_readBounds? : ReadsAt readBounds? r := by
  have hcount : ReadsAt (fun r : Reader => (some r.skipBlanks).bind fun s => readCount? s.rest) r :=
    (Reader.readsAt_skipBlanks r).bind fun s => (readsAt_readCount? s.rest).same rfl (fun _ => rfl) rfl
  have hafter := hcount.bind fun x : Nat × Text =>
    (readsAt_afterLower? r x.1 x.2).same (f := fun x : Nat × Text => afterLower? r x.1 x.2) rfl (fun _ => rfl) rfl
  exact hafter.of_eq (readBounds?_eq r) (fun v => readBounds?_eq _) List.suffix_rfl

end

theorem readsAt_readLazy (r : Reader) : ReadsAt (fun r => some (readLazy r)) r := by
  obtain ⟨t, flags, index, names⟩ := r
  cases t with
  | nil => exact .within _ rfl List.suffix_rfl fun v => rfl
  | cons c t =>
    by_cases hc : c = '?'
    · subst hc
      exact .within _ rfl (List.suffix_cons _ _) fun v => rfl
    · have hread (t : Text) : readLazy ⟨c :: t, flags, index, names⟩ = (!flags.swapGreed, ⟨c :: t, flags, index, names⟩) := by
        unfold readLazy
        split
        · next heq => exact absurd (List.cons.inj heq).1 hc
        · rfl
      exact .within _ (congrArg some (hread t)) List.suffix_rfl fun v => congrArg some (hread _)

/-! ## Groups -/

/-- A name, if the characters make one. -/
def groupName? (t : Text) : Option String :=
  match t with
  | c :: cs => if isNameChar true c && cs.all (isNameChar false) then some (String.ofList (c :: cs)) else none
  | [] => none

theorem groupName?_of_mem {t : Text} (h : ')' ∈ t) : groupName? t = none := by
  have hparen (first : Bool) : isNameChar first ')' = false := by cases first <;> decide +kernel
  cases t with
  | nil => rfl
  | cons c cs =>
    have hbad : (isNameChar true c && cs.all (isNameChar false)) = false := by
      rcases List.mem_cons.mp h with rfl | h
      · rw [hparen, Bool.false_and]
      · rw [Bool.and_eq_false_iff]
        exact .inr (List.all_eq_false.mpr ⟨')', h, by simp [hparen]⟩)
    exact if_neg (by simp [hbad])

theorem readName?_eq (t : Text) : readName? t = upTo? '>' groupName? t := by
  unfold readName? upTo? groupName?
  dsimp only
  cases t.takeWhile (· != '>') with
  | nil => cases t.dropWhile (· != '>') with
    | nil => rfl
    | cons d after => rfl
  | cons c cs => cases t.dropWhile (· != '>') with
    | nil => rfl
    | cons d after =>
      dsimp only
      split
      · rfl
      · rfl

/-- Names, up to their closing angle bracket; no name has a parenthesis. -/
theorem readsAt_readName? (t : Text) : ReadsAt readName? t :=
  (readsAt_upTo? (by decide) (fun _ => groupName?_of_mem) t).congr readName?_eq

theorem readsAt_openNamed? (r : Reader) (t : Text) : ReadsAt (openNamed? r) t := by
  have hopen (t : Text) : openNamed? r t = (readName? t).bind fun x =>
      if r.names.any (·.name == x.1) then none
      else some (.capture r.nextIndex,
        { r with rest := x.2, nextIndex := r.nextIndex + 1, names := r.names ++ [⟨r.nextIndex, x.1⟩] }) := rfl
  refine ReadsAt.congr ((readsAt_readName? t).bind fun x => ?_) hopen
  by_cases hgiven : r.names.any (·.name == x.1)
  · exact .refuses (if_pos hgiven) fun v => if_pos hgiven
  · exact .within _ (if_neg hgiven) List.suffix_rfl fun v => if_neg hgiven

/-- Letters end in the text, or with the parenthesis. -/
theorem readFlags?_cases (value : Bool) (seen : List Char) (f : Flags) (t : Text) :
    (∃ f' seen' c r, readFlags? value seen f t = some (f', seen', c :: r) ∧ c :: r <:+ t ∧
        ∀ w, readFlags? value seen f (t ++ w) = some (f', seen', c :: (r ++ w))) ∨
      (readFlags? value seen f t = none ∧
        ∀ v x, readFlags? value seen f (t ++ ')' :: v) = some x → x.2.2 = ')' :: v) := by
  induction t generalizing value seen f with
  | nil =>
    refine .inr ⟨rfl, fun v x hx => ?_⟩
    simp only [List.nil_append, readFlags?, or_true, if_true] at hx
    split at hx
    · exact absurd hx (by simp)
    · exact Option.some.inj hx ▸ rfl
  | cons c t ih =>
    -- a letter that sets a flag, or the hyphen: it goes on with the next one
    have hgo {value' : Bool} {seen' : List Char} {f' : Flags}
        (hnext : ∀ r, readFlags? value seen f (c :: r) = readFlags? value' seen' f' r) :
        (∃ f' seen' d r, readFlags? value seen f (c :: t) = some (f', seen', d :: r) ∧ d :: r <:+ c :: t ∧
            ∀ w, readFlags? value seen f (c :: t ++ w) = some (f', seen', d :: (r ++ w))) ∨
          (readFlags? value seen f (c :: t) = none ∧
            ∀ v x, readFlags? value seen f (c :: t ++ ')' :: v) = some x → x.2.2 = ')' :: v) := by
      simp only [List.cons_append, hnext]
      rcases ih value' seen' f' with ⟨f', seen', d, r, hread, hsuffix, hw⟩ | h
      · exact .inl ⟨f', seen', d, r, hread, hsuffix.trans (List.suffix_cons _ _), hw⟩
      · exact .inr h
    -- what is no such letter is refused, whatever follows
    have hfail (hnone : ∀ r, readFlags? value seen f (c :: r) = none) :
        readFlags? value seen f (c :: t) = none ∧
          ∀ v x, readFlags? value seen f (c :: t ++ ')' :: v) = some x → x.2.2 = ')' :: v :=
      ⟨hnone t, fun v x hx => absurd hx (by simp [hnone])⟩
    by_cases hstop : c = ':' ∨ c = ')'
    · by_cases hdash : seen.head? == some '-'
      · exact .inr (hfail fun r => by rw [readFlags?, if_pos hstop, if_pos hdash])
      · have hread (r : Text) : readFlags? value seen f (c :: r) = some (f, seen, c :: r) := by
          rw [readFlags?, if_pos hstop, if_neg hdash]
        exact .inl ⟨f, seen, c, t, hread t, List.suffix_rfl, fun w => hread _⟩
    · by_cases hseen : seen.contains c
      · exact .inr (hfail fun r => by rw [readFlags?, if_neg hstop, if_pos hseen])
      · by_cases hc : c = '-'
        · exact hgo fun r => by rw [readFlags?, if_neg hstop, if_neg hseen, if_pos hc]
        · cases hflag : setFlag? value f c with
          | none => exact .inr (hfail fun r => by rw [readFlags?, if_neg hstop, if_neg hseen, if_neg hc, hflag]; rfl)
          | some f' => exact hgo fun r => by rw [readFlags?, if_neg hstop, if_neg hseen, if_neg hc, hflag]; rfl

/-- What follows the question mark of a group that has no name. -/
def afterLetters? (r : Reader) (t : Text) : Option (Opening × Reader) :=
  match readFlags? true [] r.flags t with
  | some (f, _, ':' :: t) => some (.plain, { r with rest := t, flags := f })
  | some (f, _ :: _, ')' :: t) => some (.flags, { r with rest := t, flags := f })
  | _ => none

/-- What follows the angle bracket of a group, which may be look-behind. -/
def afterAngle? (r : Reader) : Text → Option (Opening × Reader) :=
  onHead '=' (fun _ => none) (onHead '!' (fun _ => none) (openNamed? r))

/-- What follows the letter of a named group, which sets no flag. -/
def afterLetterP? (r : Reader) : Text → Option (Opening × Reader) := onHead '<' (openNamed? r) fun _ => none

/-- What follows the question mark of a group. -/
def afterMark? (r : Reader) : Text → Option (Opening × Reader) :=
  onHead 'P' (afterLetterP? r) (onHead '<' (afterAngle? r) (afterLetters? r))

/-- What follows an opening parenthesis and the blanks after it. -/
def afterParen? (r : Reader) : Text → Option (Opening × Reader) :=
  onHead '?' (afterMark? r) fun t => some (.capture r.nextIndex, { r with rest := t, nextIndex := r.nextIndex + 1 })

theorem openGroup?_eq (r : Reader) (t : Text) :
    openGroup? r t = (some (r.past t)).bind fun s => afterParen? r s.rest := by
  -- the letter of a named group sets no flag
  have hletter (t : Text) : afterLetters? r ('P' :: t) = none := by simp [afterLetters?, readFlags?, setFlag?]
  have hmarked (t : Text) : afterParen? r ('?' :: t) = afterMark? r t := onHead_cons ..
  have hangled (t : Text) : afterMark? r ('<' :: t) = afterAngle? r t := by
    rw [afterMark?, onHead_other (by simp), onHead_cons]
  unfold openGroup?
  rw [Option.bind_some]
  split
  · next heq => rw [heq, hmarked, afterMark?, onHead_cons, afterLetterP?, onHead_cons]
  · next heq => rw [heq, hmarked, hangled, afterAngle?, onHead_cons]
  · next heq => rw [heq, hmarked, hangled, afterAngle?, onHead_other (by simp), onHead_cons]
  · next hequals hmark heq =>
    rw [heq, hmarked, hangled, afterAngle?, onHead_other hequals, onHead_other hmark]
  · next t hnamed _ _ hangle heq =>
    rw [heq, hmarked]
    change afterLetters? r t = afterMark? r t
    by_cases hp : ∃ u, t = 'P' :: u
    · obtain ⟨u, rfl⟩ := hp
      rw [hletter, afterMark?, onHead_cons, afterLetterP?, onHead_other fun u hu => hnamed u (by rw [hu])]
    · rw [afterMark?, onHead_other fun u hu => hp ⟨u, hu⟩, onHead_other hangle]
  · next hmark => rw [afterParen?, onHead_other hmark]

/-- Letters, up to the colon or the parenthesis that ends them, which may be the one behind the text. -/
theorem readsAt_afterLetters? (r : Reader) (t : Text) : ReadsAt (afterLetters? r) t := by
  rcases readFlags?_cases true [] r.flags t with ⟨f, seen, c, u, hread, hsuffix, hw⟩ | ⟨hnone, hw⟩
  · let opening? := if c = ':' then some Opening.plain else if c = ')' ∧ seen ≠ [] then some .flags else none
    have hopen {t u : Text} (hread : readFlags? true [] r.flags t = some (f, seen, c :: u)) :
        afterLetters? r t = opening?.map (·, { r with rest := u, flags := f }) := by
      unfold afterLetters? opening?
      rw [hread]
      by_cases hcolon : c = ':'
      · subst hcolon
        rfl
      · rw [if_neg hcolon]
        by_cases hparen : c = ')'
        · subst hparen
          cases seen with
          | nil => rfl
          | cons d seen => rfl
        · rw [if_neg fun h => hparen h.1]
          split
          · next heq => exact absurd (by simp_all) hcolon
          · next heq => exact absurd (by simp_all) hparen
          · rfl
    refine .decided _ (hopen hread) (fun x hx => ?_) fun v => ?_
    · obtain ⟨o, -, rfl⟩ := Option.map_eq_some_iff.mp hx
      exact (List.suffix_cons c u).trans hsuffix
    · rw [Option.map_map]
      exact hopen (hw _)
  · refine .fails (by rw [afterLetters?, hnone]) fun v x hx => ?_
    simp only [followedBy_text, afterLetters?] at hx
    split at hx
    · next heq =>
      obtain ⟨-, rfl⟩ := List.cons.inj (hw v _ heq)
      exact Option.some.inj hx ▸ le_rfl
    · next heq =>
      obtain ⟨-, rfl⟩ := List.cons.inj (hw v _ heq)
      exact Option.some.inj hx ▸ le_rfl
    · exact absurd hx (by simp)

theorem readsAt_afterMark? (r : Reader) (t : Text) : ReadsAt (afterMark? r) t := by
  have hletterP (t : Text) : ReadsAt (afterLetterP? r) t := .onHead (by decide) (readsAt_openNamed? r) .refused t
  have hangle (t : Text) : ReadsAt (afterAngle? r) t :=
    .onHead (by decide) .refused (.onHead (by decide) .refused (readsAt_openNamed? r)) t
  exact .onHead (by decide) hletterP (.onHead (by decide) hangle (readsAt_afterLetters? r)) t

/-- Openings of groups. -/
theorem readsAt_openGroup? (r : Reader) (t : Text) : ReadsAt (openGroup? r) t := by
  have hcapture (t : Text) : ReadsAt (fun t => some (Opening.capture r.nextIndex,
      ({ r with rest := t, nextIndex := r.nextIndex + 1 } : Reader))) t :=
    .within _ rfl List.suffix_rfl fun _ => rfl
  have hparen (t : Text) : ReadsAt (afterParen? r) t := .onHead (by decide) (readsAt_afterMark? r) hcapture t
  have hopen := (Reader.readsAt_past r t).bind fun s : Reader =>
    (hparen s.rest).same (f := fun s : Reader => afterParen? r s.rest) rfl (fun _ => rfl) rfl
  exact hopen.congr (openGroup?_eq r)

end Packrat.Pattern
