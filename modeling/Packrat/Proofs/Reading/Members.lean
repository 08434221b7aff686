import Packrat.Proofs.Reading.Escapes

/-!
# `Packrat.Proofs.Reading.Members` — members of bracketed classes

What stands in a bracketed class, read with a parenthesis behind the text. There the parenthesis is a member like any other
character.

## Contents

* `readsAt_readMember?`, `readAscii?_followed` — single members and named classes;
* `hyphens`, `openedAt`, `openClass?_bind` — the opening of a class, after which hyphens and a bracket are members;
* `readRange?_eq` — ranges, by their first member.
-/

namespace Packrat.Pattern

open Unread

/-! ## Members -/

/-- What an escape is as a member. -/
def Escape.member? : Escape → Option Member
  | .char c => some (.char c)
  | .set c => some (.set c)
  | .test _ => none

theorem readMember?_escape (r : Reader) (t : Text) :
    readMember? (r.at ('\\' :: t)) =
      (readEscape? r.flags.caseless t).bind fun x => x.1.member?.map (·, r.at x.2) := by
  simp only [readMember?, Reader.at]
  cases readEscape? r.flags.caseless t with
  | none => rfl
  | some x =>
    obtain ⟨e, t⟩ := x
    cases e with
    | char c => rfl
    | set c => rfl
    | test a => rfl

theorem readMember?_other (r : Reader) {c : Char} (hc : c ≠ '\\') (t : Text) :
    readMember? (r.at (c :: t)) = some (.char c, r.at t) := by
  simp only [readMember?, Reader.at]

/-- Members, of which the parenthesis is one. -/
theorem readsAt_readMember? (r : Reader) : ReadsAt readMember? r := by
  suffices htext : ReadsAt (fun t => readMember? (r.at t)) r.rest from htext.same rfl (fun _ => rfl) rfl
  have hmember (x : Escape × Text) : ReadsAt (fun x : Escape × Text => x.1.member?.map (·, r.at x.2)) x := by
    refine .decided _ rfl (fun y hy => ?_) fun v => ?_
    · obtain ⟨m, -, rfl⟩ := Option.map_eq_some_iff.mp hy
      exact List.suffix_rfl
    · rw [Option.map_map]
      rfl
  refine .headOf '\\' (by decide) (fun t _ => (readsAt_readEscape? _ t).bind hmember) (fun hhead => ?_)
    (readMember?_escape r) (fun t _ => rfl)
  cases hrest : r.rest with
  | nil =>
    refine .fails rfl fun v x hx => ?_
    rw [followedBy_text, List.nil_append, readMember?_other r (by decide)] at hx
    exact Option.some.inj hx ▸ le_rfl
  | cons c t =>
    have hc : c ≠ '\\' := by simpa [hrest] using hhead
    exact .within _ (readMember?_other r hc t) (List.suffix_cons _ _) fun v => readMember?_other r hc _

/-- A member takes at least a character. -/
theorem readMember?_length {r s : Reader} {m : Member} (h : readMember? r = some (m, s)) : s.rest.length < r.rest.length := by
  obtain ⟨t, flags, index, names⟩ := r
  cases t with
  | nil => exact absurd h (by simp [readMember?])
  | cons c t =>
    by_cases hc : c = '\\'
    · subst hc
      have hescape := readMember?_escape ⟨'\\' :: t, flags, index, names⟩ t
      rw [Reader.at] at hescape
      rw [hescape] at h
      obtain ⟨x, hx, hmember⟩ := Option.bind_eq_some_iff.mp h
      obtain ⟨m', -, heq⟩ := Option.map_eq_some_iff.mp hmember
      have hsuffix := (readsAt_readEscape? flags.caseless t).shrinks x hx
      obtain ⟨rfl, rfl⟩ := Prod.mk.inj heq
      exact Nat.lt_succ_of_le hsuffix.length_le
    · have hother := readMember?_other ⟨c :: t, flags, index, names⟩ hc t
      rw [Reader.at] at hother
      rw [hother] at h
      obtain ⟨rfl, rfl⟩ := Prod.mk.inj (Option.some.inj h)
      exact Nat.lt_succ_self _

theorem ascii?_of_mem {t : Text} (h : ')' ∈ t) : CharClass.ascii? (String.ofList t) = none := by
  unfold CharClass.ascii?
  split
  all_goals first | rfl | exact absurd h (not_mem_of_ofList_eq (by assumption) (by decide))

/-- Reads the name of an ASCII class, after what begins it. -/
def asciiName? (negated : Bool) (t : Text) : Option (CharClass × Text) :=
  match t.dropWhile (· != ':') with
  | ':' :: ']' :: after =>
    (CharClass.ascii? (String.ofList (t.takeWhile (· != ':')))).map fun c => (.negateIf negated c, after)
  | _ => none

/-- The names of classes have no parenthesis. -/
theorem asciiName?_followed (negated : Bool) (t v : Text) :
    asciiName? negated (t ++ ')' :: v) = (asciiName? negated t).map fun x => (x.1, x.2 ++ ')' :: v) := by
  rcases upTo_cases (p := (· != ':')) (by decide) t with ⟨c, r, hdrop, hw⟩ | ⟨hnil, hw⟩
  · unfold asciiName?
    rw [(hw _).1, (hw _).2, hdrop]
    by_cases hend : ∃ after, c :: r = ':' :: ']' :: after
    · obtain ⟨after, heq⟩ := hend
      obtain ⟨rfl, rfl⟩ := List.cons.inj heq
      simp only [List.cons_append, Option.map_map, Function.comp_def]
    · have hendw : ¬ ∃ after, c :: (r ++ ')' :: v) = ':' :: ']' :: after := by
        rintro ⟨after, heq⟩
        obtain ⟨hc, htail⟩ := List.cons.inj heq
        cases r with
        | nil => exact absurd (List.cons.inj htail).1 (by decide)
        | cons d r => exact hend ⟨r, by rw [hc, (List.cons.inj htail).1]⟩
      split
      · next heq => exact absurd ⟨_, heq⟩ hendw
      · split
        · next heq => exact absurd ⟨_, heq⟩ hend
        · rfl
  · have hnone : asciiName? negated t = none := by simp [asciiName?, hnil]
    rw [hnone]
    unfold asciiName?
    rw [ascii?_of_mem (hw v)]
    split
    · rfl
    · rfl

theorem asciiName?_suffix {negated : Bool} {t : Text} {x : CharClass × Text} (h : asciiName? negated t = some x) :
    x.2 <:+ t := by
  unfold asciiName? at h
  split at h
  · next after heq =>
    obtain ⟨c, -, rfl⟩ := Option.map_eq_some_iff.mp h
    have hsuffix : ':' :: ']' :: after <:+ t := heq ▸ List.dropWhile_suffix _
    exact ((List.suffix_cons _ _).trans (List.suffix_cons _ _)).trans hsuffix
  · exact absurd h (by simp)

theorem readAscii?_eq (t : Text) : readAscii? ('[' :: ':' :: '^' :: t) = asciiName? true t := rfl

theorem readAscii?_eq_of_head {t : Text} (h : t.head? ≠ some '^') :
    readAscii? ('[' :: ':' :: t) = asciiName? false t := by
  cases t with
  | nil => rfl
  | cons c t =>
    have hc : c ≠ '^' := by simpa using h
    simp only [readAscii?, List.cons.injEq, hc, false_and, imp_self, implies_true]
    rfl

theorem readAscii?_none {t : Text} (h : ¬ ∃ r, t = '[' :: ':' :: r) : readAscii? t = none := by
  unfold readAscii?
  split
  · exact absurd ⟨_, rfl⟩ h
  · rfl

/-- A class that has a name is read the same whatever follows. -/
theorem readAscii?_followed (t v : Text) :
    readAscii? (t ++ ')' :: v) = (readAscii? t).map fun x => (x.1, x.2 ++ ')' :: v) := by
  by_cases hopen : ∃ r, t = '[' :: ':' :: r
  · obtain ⟨r, rfl⟩ := hopen
    by_cases hcaret : r.head? = some '^'
    · obtain ⟨r, rfl⟩ := List.head?_eq_some_iff.mp hcaret
      exact asciiName?_followed true r v
    · have hcaretw : (r ++ ')' :: v).head? ≠ some '^' := by
        cases r with
        | nil => simp
        | cons c r => simpa using hcaret
      rw [readAscii?_eq_of_head hcaret, ← asciiName?_followed]
      exact readAscii?_eq_of_head hcaretw
  · rw [readAscii?_none hopen]
    refine readAscii?_none ?_
    rintro ⟨r, heq⟩
    match t with
    | [] => exact absurd (List.cons.inj heq).1 (by decide)
    | [c] => exact absurd (List.cons.inj (List.cons.inj heq).2).1 (by decide)
    | c :: d :: t =>
      obtain ⟨hc, htail⟩ := List.cons.inj heq
      exact hopen ⟨t, by rw [hc, (List.cons.inj htail).1]⟩

/-! ## Openings -/

/-- Leading hyphens, all of them. -/
def hyphens (r : Reader) (o : OpenClass) : OpenClass × Reader := readHyphens r o r.rest.length

/-- Enough steps for the hyphens there are read all of them. -/
theorem readHyphens_eq (r : Reader) (o : OpenClass) {n : Nat} (hn : r.rest.length ≤ n) : readHyphens r o n = hyphens r o := by
  have hsame (n m : Nat) (r : Reader) (o : OpenClass) (hn : r.rest.length ≤ n) (hm : r.rest.length ≤ m) :
      readHyphens r o n = readHyphens r o m := by
    induction n generalizing m r o with
    | zero =>
      have hnil : r.rest = [] := List.eq_nil_of_length_eq_zero (by omega)
      cases m with
      | zero => rfl
      | succ m => simp [readHyphens, hnil]
    | succ n ih =>
      cases m with
      | zero =>
        have hnil : r.rest = [] := List.eq_nil_of_length_eq_zero (by omega)
        simp [readHyphens, hnil]
      | succ m =>
        unfold readHyphens
        split
        · next t heq =>
          have hle := length_past_le r t
          rw [heq, List.length_cons] at hn hm
          exact ih m _ _ (by omega) (by omega)
        · rfl
  exact hsame n _ r o hn le_rfl

theorem hyphens_cons (r : Reader) (o : OpenClass) (t : Text) :
    hyphens (r.at ('-' :: t)) o = hyphens (r.past t) (o.add (.single '-')) :=
  readHyphens_eq (r.past t) _ (length_past_le r t)

theorem hyphens_other {r : Reader} (o : OpenClass) (h : r.rest.head? ≠ some '-') : hyphens r o = (o, r) := by
  unfold hyphens
  cases hrest : r.rest with
  | nil => rfl
  | cons c t =>
    rw [List.length_cons, readHyphens]
    split
    · next heq => exact absurd (by rw [heq]; rfl) h
    · rfl

theorem readHyphens_suffix (n : Nat) (r : Reader) (o : OpenClass) : (readHyphens r o n).2.rest <:+ r.rest := by
  induction n generalizing r o with
  | zero => exact List.suffix_rfl
  | succ n ih =>
    unfold readHyphens
    split
    · next t heq =>
      have hpast : (r.past t).rest <:+ t := (Reader.readsAt_past r t).shrinks _ rfl
      exact ((ih _ _).trans hpast).trans (heq ▸ List.suffix_cons _ _)
    · exact List.suffix_rfl

theorem readsAt_hyphens (r : Reader) (o : OpenClass) : ReadsAt (fun r => some (hyphens r o)) r := by
  obtain ⟨n, hn⟩ : ∃ n, r.rest.length ≤ n := ⟨_, le_rfl⟩
  induction n generalizing r o with
  | zero =>
    have hnil : r.rest = [] := List.eq_nil_of_length_eq_zero (by omega)
    refine .within (o, r) (by rw [hyphens_other o (by simp [hnil])]) List.suffix_rfl fun v => ?_
    rw [hyphens_other o (by simp [hnil, Reader.at])]
    rfl
  | succ n ih =>
    suffices htext : ReadsAt (fun t => some (hyphens (r.at t) o)) r.rest from
      htext.same rfl (fun _ => rfl) rfl
    have hmore (t : Text) (ht : r.rest = '-' :: t) :
        ReadsAt (fun t => (some (r.past t)).bind fun s => some (hyphens s (o.add (.single '-')))) t := by
      refine (Reader.readsAt_past r t).bindOf (fun s hs => ih s _ ?_) ?_
      · have hle := length_past_le r t
        rw [ht, List.length_cons] at hn
        rw [← Option.some.inj hs]
        omega
      · rintro s _ ⟨⟩
        exact readHyphens_suffix _ _ _
    exact .headOf '-' (by decide) hmore (fun _ => .within (o, r) rfl List.suffix_rfl fun _ => rfl)
      (fun t => congrArg some (hyphens_cons r o t)) fun t ht => congrArg some (hyphens_other o ht)

/-- The opening of a class after its bracket and caret: hyphens, or a bracket that stands for itself. -/
def opening (r : Reader) (o : OpenClass) : OpenClass × Reader :=
  onHead ']' (fun t => (o.add (.single ']'), r.past t)) (fun _ => hyphens r o) r.rest

theorem opening_bracket {r : Reader} {t : Text} (h : r.rest = ']' :: t) (o : OpenClass) :
    opening r o = (o.add (.single ']'), r.past t) := by
  rw [opening, h, onHead_cons]

theorem opening_other {r : Reader} (h : r.rest.head? ≠ some ']') (o : OpenClass) : opening r o = hyphens r o :=
  if_neg h

theorem readsAt_opening (r : Reader) (o : OpenClass) : ReadsAt (fun r => some (opening r o)) r := by
  suffices htext : ReadsAt (fun t => some (opening (r.at t) o)) r.rest from
    htext.same rfl (fun _ => rfl) rfl
  have hbracket (t : Text) : ReadsAt (fun t => some (o.add (.single ']'), r.past t)) t :=
    (Reader.readsAt_past r t).map (g := fun s => (o.add (.single ']'), s)) (fun _ => rfl) fun _ _ => rfl
  have hhyphens (t : Text) : ReadsAt (fun t => some (hyphens (r.at t) o)) t :=
    (readsAt_hyphens (r.at t) o).same rfl (fun _ => rfl) rfl
  exact .head ']' (by decide) hbracket hhyphens (fun t => rfl) (fun t ht => congrArg some (opening_other ht o)) r.rest

/-- A caret, which negates a class. -/
def caret (r : Reader) : Bool × Reader :=
  match r.rest with
  | '^' :: t => (true, r.past t)
  | _ => (false, r)

theorem readsAt_caret (r : Reader) : ReadsAt (fun r => some (caret r)) r := by
  suffices htext : ReadsAt (fun t => some (caret (r.at t))) r.rest from htext.same rfl (fun _ => rfl) rfl
  have hcaret (t : Text) : ReadsAt (fun t => some (true, r.past t)) t :=
    (Reader.readsAt_past r t).map (g := fun s => (true, s)) (fun _ => rfl) fun _ _ => rfl
  have hplain (t : Text) : ReadsAt (fun t => some (false, r.at t)) t := .within _ rfl List.suffix_rfl fun _ => rfl
  refine .head '^' (by decide) hcaret hplain (fun t => rfl) (fun t ht => ?_) r.rest
  unfold caret
  split
  · next heq => exact absurd (congrArg List.head? heq) ht
  · rfl

/-- The opening of a class after its bracket and the blanks after it. -/
def openedAt (r : Reader) : OpenClass × Reader := opening (caret r).2 ⟨(caret r).1, none, .none⟩

theorem readsAt_openedAt (r : Reader) : ReadsAt (fun r => some (openedAt r)) r :=
  (readsAt_caret r).bind fun x =>
    (readsAt_opening x.2 ⟨x.1, none, .none⟩).of_eq (f := fun x : Bool × Reader => some (opening x.2 ⟨x.1, none, .none⟩))
      rfl (fun _ => rfl) List.suffix_rfl

/-- Hyphens and a bracket after them, as they are told from a bracket that comes first. -/
theorem opening_bind {β : Type} (r : Reader) (o : OpenClass) (k : OpenClass × Reader → Option β)
    (hk : ∀ o r, r.rest = [] → k (o, r) = none) :
    (match (hyphens r o).2.rest with
      | [] => none
      | ']' :: t =>
        if (hyphens r o).2.rest.length = r.rest.length then some ((hyphens r o).1.add (.single ']'), (hyphens r o).2.past t)
        else some (hyphens r o)
      | _ => some (hyphens r o)).bind k = k (opening r o) := by
  by_cases hhyphen : ∃ t, r.rest = '-' :: t
  · -- after a hyphen less is left than before, so that a bracket is not the first member
    obtain ⟨t, ht⟩ := hhyphen
    have hshort : (hyphens r o).2.rest.length < r.rest.length := by
      have hmore : hyphens r o = hyphens (r.past t) (o.add (.single '-')) := by
        rw [← hyphens_cons, Reader.at, ← ht]
      have hsuffix : (hyphens r o).2.rest <:+ (r.past t).rest := hmore ▸ readHyphens_suffix _ _ _
      rw [ht, List.length_cons]
      exact Nat.lt_succ_of_le (hsuffix.length_le.trans (length_past_le r t))
    rw [opening_other (by simp [ht])]
    split
    · next heq => exact (hk _ _ heq).symm
    · rw [if_neg (Nat.ne_of_lt hshort)]
      rfl
    · rfl
  · have hnone : hyphens r o = (o, r) := by
      refine hyphens_other o fun hhead => hhyphen ?_
      obtain ⟨t, ht⟩ := List.head?_eq_some_iff.mp hhead
      exact ⟨t, ht⟩
    rw [hnone]
    dsimp only
    split
    · next heq =>
      rw [opening_other (by simp [heq]), hnone]
      exact (hk _ _ heq).symm
    · next t heq =>
      rw [if_pos rfl, opening_bracket heq]
      rfl
    · next hother =>
      rw [opening_other, hnone]
      · rfl
      · intro hhead
        obtain ⟨t, ht⟩ := List.head?_eq_some_iff.mp hhead
        exact hother t ht

/-- What follows the bracket of a class, with a reading after it that fails at the end of the text. -/
theorem openClass?_bind {β : Type} (r : Reader) (t : Text) (k : OpenClass × Reader → Option β)
    (hk : ∀ o r, r.rest = [] → k (o, r) = none) :
    (openClass? (r.at ('[' :: t))).bind k = k (openedAt (r.past t)) := by
  rw [openedAt, ← opening_bind _ _ k hk]
  rfl

/-! ## Ranges -/

theorem readAscii?_suffix {t u : Text} {c : CharClass} (h : readAscii? t = some (c, u)) : ∃ r, t = '[' :: r ∧ u <:+ r := by
  by_cases hopen : ∃ r, t = '[' :: ':' :: r
  · obtain ⟨t, rfl⟩ := hopen
    refine ⟨_, rfl, ?_⟩
    by_cases hcaret : t.head? = some '^'
    · obtain ⟨t, rfl⟩ := List.head?_eq_some_iff.mp hcaret
      exact ((asciiName?_suffix (readAscii?_eq t ▸ h)).trans (List.suffix_cons _ _)).trans (List.suffix_cons _ _)
    · exact (asciiName?_suffix (readAscii?_eq_of_head hcaret ▸ h)).trans (List.suffix_cons _ _)
  · exact absurd (readAscii?_none hopen ▸ h) (by simp)

theorem readAscii?_length {t u : Text} {c : CharClass} (h : readAscii? t = some (c, u)) : u.length < t.length := by
  obtain ⟨r, rfl, hsuffix⟩ := readAscii?_suffix h
  exact Nat.lt_succ_of_le hsuffix.length_le

theorem openClass?_suffix {r s : Reader} {o : OpenClass} (h : openClass? r = some (o, s)) :
    ∃ t, r.rest = '[' :: t ∧ s.rest <:+ t := by
  obtain ⟨t, ht⟩ : ∃ t, r.rest = '[' :: t := by
    unfold openClass? at h
    split at h
    · next t heq => exact ⟨t, heq⟩
    · exact absurd h (by simp)
  refine ⟨t, ht, ?_⟩
  by_cases hnil : s.rest = []
  · exact hnil ▸ List.nil_suffix
  -- at the end of the text an opening is not told apart, so look past it with a reading that fails there
  · let k : OpenClass × Reader → Option (OpenClass × Reader) := fun x => if x.2.rest = [] then none else some x
    have hbind := openClass?_bind r t k fun _ _ hnil => if_pos hnil
    rw [Reader.at, ← ht, show ({ r with rest := r.rest } : Reader) = r from rfl, h, Option.bind_some] at hbind
    have hopened : openedAt (r.past t) = (o, s) := by
      simp only [k, if_neg hnil] at hbind
      split at hbind
      · exact absurd hbind (by simp)
      · exact (Option.some.inj hbind).symm
    have hsuffix := (readsAt_openedAt (r.past t)).shrinks _ rfl
    rw [hopened] at hsuffix
    exact hsuffix.trans ((Reader.readsAt_past r t).shrinks _ rfl)

theorem openClass?_length {r s : Reader} {o : OpenClass} (h : openClass? r = some (o, s)) :
    s.rest.length < r.rest.length := by
  obtain ⟨t, ht, hsuffix⟩ := openClass?_suffix h
  rw [ht]
  exact Nat.lt_succ_of_le hsuffix.length_le

/-- What two members are the ends of. -/
def Member.range? (first last : Member) : Option CharClass :=
  match first, last with
  | .char a, .char b => if a ≤ b then some (.ranges [(a.toNat, b.toNat)]) else none
  | _, _ => none

/-- What follows the first member of what may be a range, and the blanks after it. -/
def afterFirst? (first : Member) (r : Reader) : Option (CharClass × Reader) :=
  if r.rest.head? == some '-' && r.peek? != some ']' && r.peek? != some '-' then
    (readMember? (r.past (r.rest.drop 1))).bind fun x => (first.range? x.1).map (·, x.2)
  else some (first.toClass, r)

theorem readRange?_eq (r : Reader) :
    readRange? r = (readMember? r).bind fun x => afterFirst? x.1 x.2.skipBlanks := by
  have hrange (first last : Member) (s : Reader) : (match first, last with
      | .char a, .char b => if a ≤ b then some (.ranges [(a.toNat, b.toNat)], s) else none
      | _, _ => none) = (first.range? last).map (·, s) := by
    cases first with
    | set c => rfl
    | char a =>
      cases last with
      | set c => rfl
      | char b =>
        unfold Member.range?
        dsimp only
        split
        · rfl
        · rfl
  unfold readRange? afterFirst?
  simp only [Bool.not_eq_true', Bool.eq_false_iff, ne_eq, ite_not, ← hrange]
  rfl

theorem afterFirst?_suffix {first : Member} {r s : Reader} {c : CharClass} (h : afterFirst? first r = some (c, s)) :
    s.rest <:+ r.rest := by
  unfold afterFirst? at h
  split at h
  · obtain ⟨⟨last, u⟩, hlast, h⟩ := Option.bind_eq_some_iff.mp h
    have hmember : u.rest <:+ (r.past (r.rest.drop 1)).rest := (readsAt_readMember? _).shrinks _ hlast
    have hpast : (r.past (r.rest.drop 1)).rest <:+ r.rest.drop 1 := (Reader.readsAt_past r _).shrinks _ rfl
    obtain ⟨k, -, hk⟩ := Option.map_eq_some_iff.mp h
    obtain ⟨-, rfl⟩ := Prod.mk.inj hk
    exact (hmember.trans hpast).trans (List.drop_suffix 1 _)
  · obtain ⟨-, rfl⟩ := Prod.mk.inj (Option.some.inj h)
    exact List.suffix_rfl

/-- A range leaves what its first member leaves, or less. -/
theorem readRange?_suffix {r s : Reader} {c : CharClass} (h : readRange? r = some (c, s)) :
    ∃ m u, readMember? r = some (m, u) ∧ s.rest <:+ u.rest := by
  rw [readRange?_eq] at h
  obtain ⟨⟨m, u⟩, hm, h⟩ := Option.bind_eq_some_iff.mp h
  exact ⟨m, u, hm, (afterFirst?_suffix h).trans ((Reader.readsAt_skipBlanks u).shrinks _ rfl)⟩

theorem readRange?_length {r s : Reader} {c : CharClass} (h : readRange? r = some (c, s)) :
    s.rest.length < r.rest.length := by
  obtain ⟨m, u, hmember, hsuffix⟩ := readRange?_suffix h
  exact hsuffix.length_le.trans_lt (readMember?_length hmember)

end Packrat.Pattern
