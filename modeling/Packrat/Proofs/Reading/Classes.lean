import Packrat.Proofs.Reading.Members

/-!
# `Packrat.Proofs.Reading.Classes` — bracketed classes

A bracketed class, read with a parenthesis behind the text. A class that is not closed in the text goes on behind it, with
the parenthesis as a member.

## Contents

* `members?` — the members up to the closing bracket, with all the steps it takes, and `members?_eq` for one step;
* `members?_suffix` — they leave an end of the text;
* `readsAt_members?`, `readsAt_readClass?` — classes.
-/

namespace Packrat.Pattern

open Unread

/-! ## Members up to the closing bracket -/

/-- Enough steps for the members there are read all of them. -/
theorem readMembers?_same {n m : Nat} {r : Reader} (o : OpenClass) (outer : List OpenClass) (hn : r.rest.length < n)
    (hm : r.rest.length < m) : readMembers? n r o outer = readMembers? m r o outer := by
  induction n generalizing m r o outer with
  | zero => omega
  | succ n ih =>
    obtain ⟨m, rfl⟩ : ∃ k, m = k + 1 := ⟨m - 1, by omega⟩
    have hskip := length_skipBlanks_le r
    unfold readMembers?
    dsimp only
    generalize r.skipBlanks = s at hskip ⊢
    have hagain {u : Reader} (o : OpenClass) (outer : List OpenClass) (hu : u.rest.length < s.rest.length) :
        readMembers? n u o outer = readMembers? m u o outer := ih o outer (by omega) (by omega)
    have hoperator {t : Text} (o : OpenClass) {c d : Char} (ht : s.rest = c :: d :: t) :
        readMembers? n (s.at t) o outer = readMembers? m (s.at t) o outer :=
      hagain o outer (by rw [ht, Reader.at_rest, List.length_cons, List.length_cons]; omega)
    split
    · rfl
    · split
      · next heq => exact hagain _ _ (readAscii?_length heq)
      · exact Option.bind_congr fun x hx => hagain _ _ (openClass?_length hx)
    · next t heq =>
      split
      · rfl
      · exact hagain _ _ (by rw [heq]; exact Nat.lt_succ_self _)
    · next heq => exact hoperator _ heq
    · next heq => exact hoperator _ heq
    · next heq => exact hoperator _ heq
    · exact Option.bind_congr fun x hx => hagain _ _ (readRange?_length hx)

/-- The members of a class that is open, up to the bracket that closes the outermost one. -/
def members? (r : Reader) (o : OpenClass) (outer : List OpenClass) : Option (CharClass × Reader) :=
  readMembers? (r.rest.length + 1) r o outer

theorem readMembers?_eq {n : Nat} {r : Reader} (o : OpenClass) (outer : List OpenClass) (hn : r.rest.length < n) :
    readMembers? n r o outer = members? r o outer := readMembers?_same o outer hn (Nat.lt_succ_self _)

theorem members?_nil {r : Reader} (h : r.rest = []) (o : OpenClass) (outer : List OpenClass) :
    members? r o outer = none := by
  have hskip : r.skipBlanks.rest = [] := List.eq_nil_of_length_eq_zero (by simpa [h] using length_skipBlanks_le r)
  rw [members?, readMembers?]
  dsimp only
  rw [hskip]

/-- The operator between members that a text begins with. -/
def setOp? (t : Text) : Option (SetOp × Text) :=
  match t with
  | '&' :: '&' :: t => some (.inter, t)
  | '-' :: '-' :: t => some (.diff, t)
  | '~' :: '~' :: t => some (.symDiff, t)
  | _ => none

theorem setOp?_none {c d : Char} (h : (c, d) ∉ [('&', '&'), ('-', '-'), ('~', '~')]) (t : Text) :
    setOp? (c :: d :: t) = none := by
  unfold setOp?
  split
  all_goals first | rfl | simp_all

theorem setOp?_followed (t v : Text) : setOp? (t ++ ')' :: v) = (setOp? t).map fun x => (x.1, x.2 ++ ')' :: v) := by
  match t with
  | [] => rfl
  | [c] =>
    have hsingle : setOp? [c] = none := by
      unfold setOp?
      split
      all_goals first | rfl | simp_all
    rw [hsingle]
    exact setOp?_none (d := ')') (by simp) v
  | c :: d :: t =>
    by_cases h : (c, d) ∈ [('&', '&'), ('-', '-'), ('~', '~')]
    · simp only [List.mem_cons, List.not_mem_nil, or_false, Prod.mk.injEq] at h
      rcases h with ⟨rfl, rfl⟩ | ⟨rfl, rfl⟩ | ⟨rfl, rfl⟩
      · rfl
      · rfl
      · rfl
    · rw [setOp?_none h]
      exact setOp?_none h _

theorem setOp?_suffix {t u : Text} {op : SetOp} (h : setOp? t = some (op, u)) : u <:+ t ∧ u.length < t.length := by
  have hsuffix {c d : Char} (u : Text) : u <:+ c :: d :: u ∧ u.length < (c :: d :: u).length :=
    ⟨(List.suffix_cons d u).trans (List.suffix_cons c _), by simp⟩
  unfold setOp? at h
  split at h
  · exact (Prod.mk.inj (Option.some.inj h)).2 ▸ hsuffix _
  · exact (Prod.mk.inj (Option.some.inj h)).2 ▸ hsuffix _
  · exact (Prod.mk.inj (Option.some.inj h)).2 ▸ hsuffix _
  · exact absurd h (by simp)

/-- What is read of members that begin with an operator, or with a member. -/
def memberOrOp? (r : Reader) (o : OpenClass) (outer : List OpenClass) : Option (CharClass × Reader) :=
  match setOp? r.rest with
  | some (op, t) => members? (r.at t) (o.operator r.flags.caseless op) outer
  | none => (readRange? r).bind fun x => members? x.2 (o.add x.1) outer

/-- What is read of members, blanks left out. -/
def membersAt? (r : Reader) (o : OpenClass) (outer : List OpenClass) : Option (CharClass × Reader) :=
  match r.rest with
  | [] => none
  | '[' :: t =>
    match readAscii? r.rest with
    | some (c, t) => members? (r.at t) (o.add c) outer
    | none => members? (openedAt (r.past t)).2 (openedAt (r.past t)).1 (o :: outer)
  | ']' :: t =>
    match outer with
    | [] => some (o.close r.flags.caseless, r.at t)
    | parent :: outer => members? (r.at t) (parent.add (o.close r.flags.caseless)) outer
  | _ => memberOrOp? r o outer

theorem membersAt?_other {r : Reader} {c : Char} {t : Text} (hr : r.rest = c :: t) (hopen : c ≠ '[') (hclose : c ≠ ']')
    (o : OpenClass) (outer : List OpenClass) : membersAt? r o outer = memberOrOp? r o outer := by
  unfold membersAt?
  split
  · next heq => exact absurd (hr.symm.trans heq) (by simp)
  · next heq => exact absurd (List.cons.inj (hr.symm.trans heq)).1 hopen
  · next heq => exact absurd (List.cons.inj (hr.symm.trans heq)).1 hclose
  · rfl

theorem members?_eq (r : Reader) (o : OpenClass) (outer : List OpenClass) :
    members? r o outer = membersAt? r.skipBlanks o outer := by
  have hskip := length_skipBlanks_le r
  unfold members? readMembers? membersAt?
  dsimp only
  generalize r.skipBlanks = s at hskip ⊢
  have hagain {u : Reader} (o : OpenClass) (outer : List OpenClass) (hu : u.rest.length < s.rest.length) :
      readMembers? r.rest.length u o outer = members? u o outer := readMembers?_eq o outer (by omega)
  obtain ⟨t, flags, index, names⟩ := s
  dsimp only at hagain ⊢
  split
  · rfl
  · next t =>
    cases hascii : readAscii? ('[' :: t) with
    | some x => exact hagain _ _ (readAscii?_length (t := '[' :: t) hascii)
    | none =>
      have hopen := openClass?_bind ⟨'[' :: t, flags, index, names⟩ t (fun x => members? x.2 x.1 (o :: outer))
        fun o r hnil => members?_nil hnil _ _
      exact (Option.bind_congr fun x hx => hagain _ _ (openClass?_length hx)).trans hopen
  · cases outer with
    | nil => rfl
    | cons parent outer => exact hagain _ _ (Nat.lt_succ_self _)
  · exact hagain _ _ (by simp)
  · exact hagain _ _ (by simp)
  · exact hagain _ _ (by simp)
  · next hnil hbracket hclosing hinter hdiff hsymDiff =>
    have hnone : setOp? t = none := by
      unfold setOp?
      split
      · exact absurd rfl (hinter _)
      · exact absurd rfl (hdiff _)
      · exact absurd rfl (hsymDiff _)
      · rfl
    split
    · exact absurd rfl hnil
    · exact absurd rfl (hbracket _)
    · exact absurd rfl (hclosing _)
    · rw [memberOrOp?, hnone]
      exact Option.bind_congr fun x hx => hagain _ _ (readRange?_length hx)

theorem openedAt_suffix (r : Reader) (t : Text) : (openedAt (r.past t)).2.rest <:+ t :=
  ((readsAt_openedAt (r.past t)).shrinks _ rfl).trans ((Reader.readsAt_past r t).shrinks _ rfl)

/-- One step leaves an end of what there was, if this is so of the steps after it. -/
theorem membersAt?_suffixOf {r s : Reader} {c : CharClass} {o : OpenClass} {outer : List OpenClass}
    (hmore : ∀ {u o outer}, u.rest.length < r.rest.length → members? u o outer = some (c, s) → s.rest <:+ u.rest)
    (h : membersAt? r o outer = some (c, s)) : s.rest <:+ r.rest := by
  have hagain {u : Reader} {o : OpenClass} {outer : List OpenClass} (hlt : u.rest.length < r.rest.length)
      (hsuffix : u.rest <:+ r.rest) (h : members? u o outer = some (c, s)) : s.rest <:+ r.rest :=
    (hmore hlt h).trans hsuffix
  unfold membersAt? at h
  split at h
  · exact absurd h (by simp)
  · next t heq =>
    split at h
    · next hascii =>
      obtain ⟨u, hu, hsuffix⟩ := readAscii?_suffix hascii
      exact hagain (readAscii?_length hascii) (hu ▸ hsuffix.trans (List.suffix_cons _ _)) h
    · have hsuffix := openedAt_suffix r t
      refine hagain ?_ (heq ▸ hsuffix.trans (List.suffix_cons _ _)) h
      rw [heq]
      exact Nat.lt_succ_of_le hsuffix.length_le
  · next t heq =>
    have hsuffix : t <:+ r.rest := heq ▸ List.suffix_cons _ _
    split at h
    · obtain ⟨-, rfl⟩ := Prod.mk.inj (Option.some.inj h)
      exact hsuffix
    · exact hagain (by rw [heq]; exact Nat.lt_succ_self _) hsuffix h
  · unfold memberOrOp? at h
    split at h
    · next hop =>
      obtain ⟨hsuffix, hlt⟩ := setOp?_suffix hop
      exact hagain hlt hsuffix h
    · obtain ⟨⟨d, x⟩, hrange, h⟩ := Option.bind_eq_some_iff.mp h
      obtain ⟨m, y, hmember, hsuffix⟩ := readRange?_suffix hrange
      exact hagain (readRange?_length hrange) (hsuffix.trans ((readsAt_readMember? r).shrinks _ hmember)) h

/-- What is left when a class is closed is an end of what was left: by induction on how much that was. -/
theorem members?_suffix {r s : Reader} {c : CharClass} {o : OpenClass} {outer : List OpenClass}
    (h : members? r o outer = some (c, s)) : s.rest <:+ r.rest := by
  obtain ⟨n, hn⟩ : ∃ n, r.rest.length < n := ⟨_, Nat.lt_succ_self _⟩
  induction n generalizing r o outer with
  | zero => omega
  | succ n ih =>
    have hskip := length_skipBlanks_le r
    rw [members?_eq] at h
    exact (membersAt?_suffixOf (fun hu h => ih h (by omega)) h).trans (skipBlanks_suffix r)

theorem membersAt?_suffix {r s : Reader} {c : CharClass} {o : OpenClass} {outer : List OpenClass}
    (h : membersAt? r o outer = some (c, s)) : s.rest <:+ r.rest :=
  membersAt?_suffixOf (fun _ => members?_suffix) h

/-! ## Classes -/

/-- A hyphen is read with the blanks after it. -/
theorem members?_hyphen {r s : Reader} {c : CharClass} {o : OpenClass} {outer : List OpenClass} {t : Text}
    (hr : r.rest = '-' :: t) (h : members? r o outer = some (c, s)) : s.rest <:+ (r.past t).rest := by
  rw [members?_eq, skipBlanks_of_head hr (by decide) (by decide), membersAt?_other hr (by decide) (by decide),
    memberOrOp?] at h
  cases hop : setOp? r.rest with
  | some x =>
    -- another hyphen follows, and there are no blanks before it
    obtain ⟨u, rfl⟩ : ∃ u, t = '-' :: u := by
      rw [hr] at hop
      unfold setOp? at hop
      split at hop
      all_goals simp_all
    rw [hop] at h
    obtain rfl : x = (.diff, u) := by
      rw [hr] at hop
      exact (Option.some.inj hop).symm
    have hpast : r.past ('-' :: u) = r.at ('-' :: u) := skipBlanks_of_head rfl (by decide) (by decide)
    rw [hpast]
    exact (members?_suffix h).trans (List.suffix_cons _ _)
  | none =>
    rw [hop] at h
    dsimp only at h
    rw [readRange?_eq] at h
    obtain ⟨⟨d, x⟩, hrange, h⟩ := Option.bind_eq_some_iff.mp h
    obtain ⟨⟨m, y⟩, hmember, hrange⟩ := Option.bind_eq_some_iff.mp hrange
    have hfirst : readMember? r = some (.char '-', r.at t) := by
      obtain ⟨rest, flags, index, names⟩ := r
      obtain rfl : rest = '-' :: t := hr
      exact readMember?_other ⟨'-' :: t, flags, index, names⟩ (by decide) t
    obtain ⟨-, rfl⟩ := Prod.mk.inj (Option.some.inj (hfirst.symm.trans hmember))
    exact (members?_suffix h).trans (afterFirst?_suffix hrange)

theorem peek?_eq {r : Reader} {c : Char} {t : Text} (h : r.rest = c :: t) : r.peek? = (r.past t).rest.head? := by
  rw [Reader.peek?, h]
  rfl

/-- The members after a range, or after a member that begins none. -/
def afterRange? (o : OpenClass) (outer : List OpenClass) (x : CharClass × Reader) : Option (CharClass × Reader) :=
  members? x.2 (o.add x.1) outer

theorem afterFirst?_range {first : Member} {r : Reader} {t : Text} (hr : r.rest = '-' :: t)
    (hpeek : ¬ ((r.past t).rest.head? = some ']' ∨ (r.past t).rest.head? = some '-')) :
    afterFirst? first r = (readMember? (r.past t)).bind fun x => (first.range? x.1).map (·, x.2) := by
  rw [not_or] at hpeek
  rw [afterFirst?, peek?_eq hr, if_pos (by simp [hr, hpeek.1, hpeek.2]), hr, List.drop_one, List.tail_cons]

theorem afterFirst?_single {first : Member} {r : Reader} (h : ∀ t, r.rest = '-' :: t →
    (r.past t).rest.head? = some ']' ∨ (r.past t).rest.head? = some '-') :
    afterFirst? first r = some (first.toClass, r) := by
  refine if_neg fun hrange => ?_
  simp only [Bool.and_eq_true, beq_iff_eq, bne_iff_ne, ne_eq] at hrange
  obtain ⟨⟨hhyphen, hbracket⟩, hhyphen'⟩ := hrange
  obtain ⟨t, ht⟩ := List.head?_eq_some_iff.mp hhyphen
  rw [peek?_eq ht] at hbracket hhyphen'
  exact (h t ht).elim hbracket hhyphen'

section

variable {n : Nat} (outer : List OpenClass)
  (ih : ∀ {r : Reader} (o : OpenClass) (outer : List OpenClass), r.rest.length < n →
    ReadsAt (fun r => members? r o outer) r)
include ih

theorem readsAt_afterRange? (o : OpenClass) {x : CharClass × Reader} (hx : x.2.rest.length < n) :
    ReadsAt (afterRange? o outer) x :=
  (ih (o.add x.1) outer hx).same rfl (fun _ => rfl) rfl

/-- The last member of a range, and the members after the range. -/
theorem readsAt_lastMember (first : Member) (o : OpenClass) {r : Reader} (hr : r.rest.length < n) :
    ReadsAt (fun r => ((readMember? r).bind fun x => (first.range? x.1).map (·, x.2)).bind (afterRange? o outer)) r := by
  have hlast : ReadsAt (fun r => (readMember? r).bind fun x => (first.range? x.1).map (·, x.2)) r := by
    refine (readsAt_readMember? r).bind fun x => .decided _ rfl (fun y hy => ?_) fun v => ?_
    · obtain ⟨k, -, rfl⟩ := Option.map_eq_some_iff.mp hy
      exact List.suffix_rfl
    · rw [Option.map_map]
      rfl
  refine hlast.bindOf (fun x hx => ?_) fun x y hy => members?_suffix hy
  exact readsAt_afterRange? outer ih o ((hlast.shrinks x hx).length_le.trans_lt hr)

/-- What follows the first member of what may be a range. A hyphen before a comment that the parenthesis is in makes a range
without it, and may make none with it; but then the comment is read. -/
theorem readsAt_afterFirst? (first : Member) (o : OpenClass) {r : Reader} (hr : r.rest.length < n) :
    ReadsAt (fun r => (afterFirst? first r).bind (afterRange? o outer)) r := by
  have hsingle (h : ∀ t, r.rest = '-' :: t → (r.past t).rest.head? = some ']' ∨ (r.past t).rest.head? = some '-')
      (hw : ∀ v t, r.rest ++ ')' :: v = '-' :: t → (r.past t).rest.head? = some ']' ∨ (r.past t).rest.head? = some '-') :
      ReadsAt (fun r => (afterFirst? first r).bind (afterRange? o outer)) r := by
    refine (ih (o.add first.toClass) outer hr).of_eq ?_ (fun v => ?_) List.suffix_rfl
    · rw [afterFirst?_single h]
      rfl
    · rw [afterFirst?_single (hw v)]
      rfl
  by_cases hhyphen : ∃ t, r.rest = '-' :: t
  · obtain ⟨t, ht⟩ := hhyphen
    have htw (v : Text) : r.rest ++ ')' :: v = '-' :: (t ++ ')' :: v) := by rw [ht, List.cons_append]
    have hlt : (r.past t).rest.length < n := by
      have hle := length_past_le r t
      rw [ht, List.length_cons] at hr
      omega
    rcases (Reader.readsAt_past r t).cases with ⟨p, hp, hpw⟩ | hexhausts
    · -- the blanks after the hyphen end before the parenthesis: what comes after them is the same
      obtain rfl : r.past t = p := Option.some.inj hp
      have hpastw (v : Text) : r.past (t ++ ')' :: v) = followedBy (r.past t) (')' :: v) := Option.some.inj (hpw v)
      by_cases hpeek : (r.past t).rest.head? = some ']' ∨ (r.past t).rest.head? = some '-'
      · refine hsingle (fun u hu => ?_) fun v u hu => ?_
        · rwa [← (List.cons.inj (ht.symm.trans hu)).2]
        · rw [← (List.cons.inj ((htw v).symm.trans hu)).2, hpastw]
          rcases hpeek with hpeek | hpeek
          · exact .inl (by simp [List.head?_append, hpeek])
          · exact .inr (by simp [List.head?_append, hpeek])
      · have hpeekw (v : Text) : ¬ ((r.past (t ++ ')' :: v)).rest.head? = some ']' ∨
            (r.past (t ++ ')' :: v)).rest.head? = some '-') := by
          rw [hpastw]
          cases hrest : (r.past t).rest with
          | nil => simp [hrest]
          | cons c u => simpa [hrest] using hpeek
        refine (readsAt_lastMember outer ih first o hlt).of_eq ?_ (fun v => ?_) ?_
        · rw [afterFirst?_range ht hpeek]
        · have hrange : afterFirst? first (followedBy r (')' :: v)) =
              (readMember? (r.past (t ++ ')' :: v))).bind fun x => (first.range? x.1).map (·, x.2) :=
            afterFirst?_range (htw v) (hpeekw v)
          rw [hrange, hpastw]
        · exact ((Reader.readsAt_past r t).shrinks _ rfl).trans (by simp [ht])
    · -- the parenthesis is in a comment after the hyphen: no range can be read without it
      have hnil : (r.past t).rest = [] := hexhausts.nothing _ rfl
      have hshort (v : Text) : (r.past (t ++ ')' :: v)).rest.length ≤ v.length := hexhausts.beyond v _ rfl
      refine .fails ?_ fun v x hx => ?_
      · rw [afterFirst?_range ht (by simp [hnil])]
        have hmember : readMember? (r.past t) = none := by
          unfold readMember?
          rw [hnil]
        rw [hmember]
        rfl
      · obtain ⟨y, hy, hx⟩ := Option.bind_eq_some_iff.mp hx
        have hrest : (followedBy r (')' :: v)).rest = '-' :: (t ++ ')' :: v) := htw v
        by_cases hpeek : (r.past (t ++ ')' :: v)).rest.head? = some ']' ∨
            (r.past (t ++ ')' :: v)).rest.head? = some '-'
        · rw [afterFirst?_single fun u hu => (List.cons.inj (hrest.symm.trans hu)).2 ▸ hpeek] at hy
          obtain rfl := Option.some.inj hy
          exact (members?_hyphen hrest hx).length_le.trans (hshort v)
        · rw [afterFirst?_range hrest hpeek] at hy
          obtain ⟨z, hz, hy⟩ := Option.bind_eq_some_iff.mp hy
          obtain ⟨k, -, rfl⟩ := Option.map_eq_some_iff.mp hy
          have hmember := (readsAt_readMember? _).shrinks _ hz
          exact ((members?_suffix hx).trans hmember).length_le.trans (hshort v)
  · refine hsingle (fun t ht => absurd ⟨t, ht⟩ hhyphen) fun v t ht => ?_
    cases hrest : r.rest with
    | nil =>
      rw [hrest] at ht
      exact absurd (List.cons.inj ht).1 (by decide)
    | cons c u =>
      rw [hrest] at ht
      exact absurd ⟨u, by rw [hrest, (List.cons.inj ht).1]⟩ hhyphen

theorem readsAt_memberOrOp? (o : OpenClass) {r : Reader} (hr : r.rest.length ≤ n) :
    ReadsAt (fun r => memberOrOp? r o outer) r := by
  cases hop : setOp? r.rest with
  | some x =>
    obtain ⟨op, t⟩ := x
    obtain ⟨hsuffix, hlt⟩ := setOp?_suffix hop
    refine (ih (r := r.at t) (o.operator r.flags.caseless op) outer (hlt.trans_le hr)).of_eq ?_ (fun v => ?_) hsuffix
    · rw [memberOrOp?, hop]
    · have hopw : setOp? (followedBy r (')' :: v)).rest = some (op, t ++ ')' :: v) := by
        rw [followedBy_reader, Reader.at_rest, setOp?_followed, hop]
        rfl
      rw [memberOrOp?, hopw]
      rfl
  | none =>
    have hshrinks {m : Member} {s : Reader} {y : CharClass × Reader}
        (hy : (afterFirst? m s).bind (afterRange? o outer) = some y) : y.2.rest <:+ s.rest := by
      obtain ⟨z, hz, hy⟩ := Option.bind_eq_some_iff.mp hy
      exact (members?_suffix hy).trans (afterFirst?_suffix hz)
    have hafter {x : Member × Reader} (hx : x.2.rest.length < n) : ReadsAt (fun x : Member × Reader =>
        (some x.2.skipBlanks).bind fun s => (afterFirst? x.1 s).bind (afterRange? o outer)) x := by
      have hskip := (Reader.readsAt_skipBlanks x.2).bindOf (fun s hs => ?_) fun s y hy => hshrinks (m := x.1) hy
      · exact hskip.same rfl (fun _ => rfl) rfl
      · obtain rfl : x.2.skipBlanks = s := Option.some.inj hs
        exact readsAt_afterFirst? outer ih x.1 o ((length_skipBlanks_le x.2).trans_lt hx)
    have hrange : ReadsAt (fun r => (readMember? r).bind fun x =>
        (some x.2.skipBlanks).bind fun s => (afterFirst? x.1 s).bind (afterRange? o outer)) r := by
      refine (readsAt_readMember? r).bindOf (fun x hx => hafter ((readMember?_length hx).trans_le hr)) fun x y hy => ?_
      exact (hshrinks hy).trans (skipBlanks_suffix x.2)
    refine hrange.of_eq ?_ (fun v => ?_) List.suffix_rfl
    · rw [memberOrOp?, hop]
      dsimp only
      rw [readRange?_eq, Option.bind_assoc]
      rfl
    · have hopw : setOp? (followedBy r (')' :: v)).rest = none := by
        rw [followedBy_reader, Reader.at_rest, setOp?_followed, hop]
        rfl
      rw [memberOrOp?, hopw]
      dsimp only
      rw [readRange?_eq, Option.bind_assoc]
      rfl

theorem readsAt_membersAt? (o : OpenClass) {r : Reader} (hr : r.rest.length ≤ n) :
    ReadsAt (fun r => membersAt? r o outer) r := by
  obtain ⟨t, flags, index, names⟩ := r
  match t with
  | [] =>
    refine .fails rfl fun v x hx => ?_
    -- the parenthesis is read as a member
    have hparen : readMember? ⟨')' :: v, flags, index, names⟩ = some (.char ')', ⟨v, flags, index, names⟩) :=
      readMember?_other ⟨v, flags, index, names⟩ (by decide) v
    have hop : setOp? (')' :: v) = none := setOp?_followed [] v
    have hx : memberOrOp? ⟨')' :: v, flags, index, names⟩ o outer = some x := hx
    rw [memberOrOp?, hop] at hx
    obtain ⟨y, hy, hx⟩ := Option.bind_eq_some_iff.mp hx
    obtain ⟨m, u, hmember, hsuffix⟩ := readRange?_suffix hy
    obtain ⟨-, rfl⟩ := Prod.mk.inj (Option.some.inj (hparen.symm.trans hmember))
    exact ((members?_suffix hx).trans hsuffix).length_le
  | c :: t =>
    have hlt : t.length < n := by simpa using hr
    by_cases hopen : c = '['
    · subst hopen
      cases hascii : readAscii? ('[' :: t) with
      | some x =>
        obtain ⟨k, u⟩ := x
        obtain ⟨t', heq, hsuffix⟩ := readAscii?_suffix hascii
        obtain rfl : t = t' := (List.cons.inj heq).2
        have hread {t u : Text} (h : readAscii? ('[' :: t) = some (k, u)) :
            membersAt? ⟨'[' :: t, flags, index, names⟩ o outer = members? ⟨u, flags, index, names⟩ (o.add k) outer := by
          simp only [membersAt?, h]
          rfl
        have hascii' (v : Text) : readAscii? ('[' :: (t ++ ')' :: v)) = some (k, u ++ ')' :: v) := by
          rw [← List.cons_append, readAscii?_followed, hascii]
          rfl
        exact (ih (r := ⟨u, flags, index, names⟩) _ outer (hsuffix.length_le.trans_lt hlt)).of_eq (hread hascii)
          (fun v => hread (hascii' v)) (hsuffix.trans (List.suffix_cons _ _))
      | none =>
        let r : Reader := ⟨t, flags, index, names⟩
        have hread {t : Text} (h : readAscii? ('[' :: t) = none) :
            membersAt? ⟨'[' :: t, flags, index, names⟩ o outer
              = members? (openedAt (r.past t)).2 (openedAt (r.past t)).1 (o :: outer) := by
          simp only [membersAt?, h]
          rfl
        have hascii' (v : Text) : readAscii? ('[' :: (t ++ ')' :: v)) = none := by
          rw [← List.cons_append, readAscii?_followed, hascii]
          rfl
        have hopened : ReadsAt (fun t => (some (r.past t)).bind fun s => some (openedAt s)) t :=
          (Reader.readsAt_past r t).bind readsAt_openedAt
        have hinner := hopened.bindOf (g := fun x => members? x.2 x.1 (o :: outer)) (fun x hx => ?_) fun x y hy => ?_
        · exact hinner.of_eq (hread hascii) (fun v => hread (hascii' v)) (List.suffix_cons _ _)
        · have hle := (hopened.shrinks x hx).length_le
          exact (ih x.1 (o :: outer) (hle.trans_lt hlt)).of_eq
            (f := fun x : OpenClass × Reader => members? x.2 x.1 (o :: outer)) rfl (fun _ => rfl) List.suffix_rfl
        · exact members?_suffix hy
    · by_cases hclose : c = ']'
      · subst hclose
        cases outer with
        | nil => exact .within _ rfl (List.suffix_cons _ _) fun v => rfl
        | cons parent outer =>
          exact (ih (r := ⟨t, flags, index, names⟩) _ outer hlt).of_eq rfl (fun v => rfl) (List.suffix_cons _ _)
      · refine (readsAt_memberOrOp? outer ih o hr).of_eq (membersAt?_other rfl hopen hclose o outer) (fun v => ?_)
          List.suffix_rfl
        exact membersAt?_other (t := t ++ ')' :: v) rfl hopen hclose o outer

end

/-- The members of a class: by induction on how much is left to read. -/
theorem readsAt_members? (r : Reader) (o : OpenClass) (outer : List OpenClass) :
    ReadsAt (fun r => members? r o outer) r := by
  obtain ⟨n, hn⟩ : ∃ n, r.rest.length < n := ⟨_, Nat.lt_succ_self _⟩
  induction n generalizing r o outer with
  | zero => omega
  | succ n ih =>
    have hskip := length_skipBlanks_le r
    have hstep : ReadsAt (fun r : Reader => (some r.skipBlanks).bind fun s => membersAt? s o outer) r := by
      refine (Reader.readsAt_skipBlanks r).bindOf (fun s hs => ?_) fun s y hy => membersAt?_suffix hy
      obtain rfl : r.skipBlanks = s := Option.some.inj hs
      exact readsAt_membersAt? outer (fun o outer hr => ih _ o outer hr) o (by omega)
    exact hstep.congr fun r => members?_eq r o outer

/-- Classes in brackets. -/
theorem readsAt_readClass? (r : Reader) (t : Text) : ReadsAt (fun t => readClass? (r.at ('[' :: t))) t := by
  have hread (t : Text) : readClass? (r.at ('[' :: t)) = members? (openedAt (r.past t)).2 (openedAt (r.past t)).1 [] := by
    rw [← openClass?_bind r t (fun x => members? x.2 x.1 []) fun o s hnil => members?_nil hnil _ _]
    refine Option.bind_congr fun x hx => readMembers?_eq _ _ ?_
    exact (openClass?_length hx).trans (Nat.lt_succ_self _)
  have hopened : ReadsAt (fun t => (some (r.past t)).bind fun s => some (openedAt s)) t :=
    (Reader.readsAt_past r t).bind readsAt_openedAt
  have hclass := hopened.bind (g := fun x => members? x.2 x.1 []) fun x =>
    (readsAt_members? x.2 x.1 []).same rfl (fun _ => rfl) rfl
  exact hclass.congr hread

end Packrat.Pattern
