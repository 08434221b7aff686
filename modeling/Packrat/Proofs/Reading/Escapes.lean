import Packrat.Proofs.Reading.Basic

/-!
# `Packrat.Proofs.Reading.Escapes` — blanks, escapes and single characters

What a pattern is made of at its smallest, read with a parenthesis behind the text.

## Contents

* `Reader.readsAt_skipBlanks`, `readsAt_past` — blanks and comments, which may swallow the parenthesis;
* `readsAt_readEscape?` — escapes, which may escape it;
* `readsAt_readPrimitive?` — single characters.
-/

namespace Packrat.Pattern

open Unread

/-! ## Blanks and comments -/

namespace Reader

/-- A comment ends in the text, or with what follows the parenthesis. -/
theorem afterComment_cases (t : Text) :
    (∀ w, afterComment (t ++ w) = afterComment t ++ w) ∨
      (afterComment t = [] ∧ ∀ v, (afterComment (t ++ ')' :: v)).length ≤ v.length) := by
  unfold afterComment
  induction t with
  | nil =>
    refine .inr ⟨rfl, fun v => ?_⟩
    have hsuffix : (v.dropWhile (· != '\n')).drop 1 <:+ v := (List.drop_suffix 1 _).trans (List.dropWhile_suffix _)
    simpa using hsuffix.length_le
  | cons c t ih =>
    cases hc : c != '\n' with
    | false => exact .inl fun w => by simp [hc]
    | true => simpa [hc] using ih

theorem afterComment_suffix (t : Text) : afterComment t <:+ t :=
  (List.drop_suffix 1 _).trans (List.dropWhile_suffix _)

theorem dropBlanks_suffix (n : Nat) (t : Text) : dropBlanks n t <:+ t := by
  induction n generalizing t with
  | zero => exact List.suffix_rfl
  | succ n ih =>
    unfold dropBlanks
    split
    · exact ((ih _).trans (afterComment_suffix _)).trans (List.suffix_cons _ _)
    · split
      · exact (ih _).trans (List.suffix_cons _ _)
      · exact List.suffix_rfl
    · exact List.suffix_rfl

/-- Blanks and comments end in the text, or with what follows the parenthesis. -/
theorem dropBlanks_cases {n : Nat} {t : Text} (hn : t.length ≤ n) :
    (∀ v m, t.length + v.length + 1 ≤ m → dropBlanks m (t ++ ')' :: v) = dropBlanks n t ++ ')' :: v) ∨
      (dropBlanks n t = [] ∧
        ∀ v m, t.length + v.length + 1 ≤ m → (dropBlanks m (t ++ ')' :: v)).length ≤ v.length) := by
  have hparen (v : Text) (m : Nat) (hm : v.length + 1 ≤ m) : dropBlanks m (')' :: v) = ')' :: v := by
    obtain ⟨m, rfl⟩ : ∃ k, m = k + 1 := ⟨m - 1, by omega⟩
    have hblank : Text.isBlank ')' = false := by decide
    simp [dropBlanks, hblank]
  induction n generalizing t with
  | zero =>
    obtain rfl : t = [] := List.eq_nil_of_length_eq_zero (by omega)
    exact .inl fun v m hm => hparen v m (by simpa using hm)
  | succ n ih =>
    cases t with
    | nil => exact .inl fun v m hm => hparen v m (by simpa using hm)
    | cons c t =>
      simp only [List.length_cons] at hn ⊢
      -- after a blank, and after a comment that ends in the text, it goes on
      have hagain {r : Text} (hr : r.length ≤ t.length)
          (hw : ∀ k w, dropBlanks (k + 1) (c :: (t ++ w)) = dropBlanks k (r ++ w)) :
          (∀ v m, t.length + 1 + v.length + 1 ≤ m →
              dropBlanks m (c :: t ++ ')' :: v) = dropBlanks (n + 1) (c :: t) ++ ')' :: v) ∨
            (dropBlanks (n + 1) (c :: t) = [] ∧
              ∀ v m, t.length + 1 + v.length + 1 ≤ m → (dropBlanks m (c :: t ++ ')' :: v)).length ≤ v.length) := by
        have hnil : dropBlanks (n + 1) (c :: t) = dropBlanks n r := by simpa using hw n []
        have hstep (v : Text) (m : Nat) (hm : t.length + 1 + v.length + 1 ≤ m) :
            ∃ k, r.length + v.length + 1 ≤ k ∧ dropBlanks m (c :: t ++ ')' :: v) = dropBlanks k (r ++ ')' :: v) := by
          obtain ⟨k, rfl⟩ : ∃ k, m = k + 1 := ⟨m - 1, by omega⟩
          exact ⟨k, by omega, hw k _⟩
        rw [hnil]
        rcases ih (t := r) (by omega) with ih | ⟨hend, ih⟩
        · refine .inl fun v m hm => ?_
          obtain ⟨k, hk, heq⟩ := hstep v m hm
          rw [heq, ih v k hk]
        · refine .inr ⟨hend, fun v m hm => ?_⟩
          obtain ⟨k, hk, heq⟩ := hstep v m hm
          rw [heq]
          exact ih v k hk
      by_cases hc : c = '#'
      · subst hc
        rcases afterComment_cases t with hw | ⟨hnil, hw⟩
        · exact hagain (afterComment_suffix t).length_le fun k w => by rw [dropBlanks, hw]
        · refine .inr ⟨?_, fun v m hm => ?_⟩
          · rw [dropBlanks, hnil]
            exact List.suffix_nil.mp (dropBlanks_suffix n [])
          · obtain ⟨k, rfl⟩ : ∃ k, m = k + 1 := ⟨m - 1, by omega⟩
            rw [List.cons_append, dropBlanks]
            exact (dropBlanks_suffix _ _).length_le.trans (hw v)
      · cases hblank : Text.isBlank c with
        | true => exact hagain le_rfl fun k w => by simp [dropBlanks, hblank]
        | false =>
          refine .inl fun v m hm => ?_
          obtain ⟨k, rfl⟩ : ∃ k, m = k + 1 := ⟨m - 1, by omega⟩
          simp [dropBlanks, hblank]

/-- Blanks and comments are read up to the parenthesis, or with it. -/
theorem readsAt_skipBlanks (r : Reader) : ReadsAt (fun r : Reader => some r.skipBlanks) r := by
  cases hx : r.flags.ignoreBlanks with
  | false =>
    refine .within r (by simp [skipBlanks, hx]) List.suffix_rfl fun v => ?_
    simp [skipBlanks, followedBy, «at», hx]
  | true =>
    have hskip : r.skipBlanks = r.at (dropBlanks r.rest.length r.rest) := by simp [skipBlanks, hx, «at»]
    have hskipw (w : Text) : (followedBy r w).skipBlanks = r.at (dropBlanks (r.rest ++ w).length (r.rest ++ w)) := by
      simp [skipBlanks, followedBy, hx, «at»]
    rcases dropBlanks_cases (t := r.rest) le_rfl with hw | ⟨hnil, hw⟩
    · refine .within _ rfl ?_ fun v => ?_
      · rw [hskip]
        exact dropBlanks_suffix _ _
      · rw [hskipw, hw _ _ (by simp [Nat.add_assoc]), hskip]
        rfl
    · refine ⟨fun x h => ?_, .inr ⟨fun x h => ?_, fun v x h => ?_, fun x h => ?_⟩⟩
      · rw [← Option.some.inj h, hskip]
        exact dropBlanks_suffix _ _
      · rw [← Option.some.inj h, hskip]
        exact hnil
      · rw [← Option.some.inj h, hskipw]
        exact hw v _ (by simp [Nat.add_assoc])
      · have hlength := hw [] (r.rest ++ [')']).length (by simp)
        rw [← Option.some.inj h, hskipw, hskip, hnil, List.eq_nil_of_length_eq_zero (Nat.le_zero.mp hlength)]

/-- Going on further along, with blanks left out. -/
theorem readsAt_past (r : Reader) (t : Text) : ReadsAt (fun t => some (r.past t)) t :=
  (readsAt_skipBlanks (r.at t)).same rfl (fun _ => rfl) rfl

end Reader

theorem skipBlanks_suffix (r : Reader) : r.skipBlanks.rest <:+ r.rest :=
  (Reader.readsAt_skipBlanks r).shrinks _ rfl

theorem length_skipBlanks_le (r : Reader) : r.skipBlanks.rest.length ≤ r.rest.length :=
  ((Reader.readsAt_skipBlanks r).shrinks _ rfl).length_le

theorem length_past_le (r : Reader) (t : Text) : (r.past t).rest.length ≤ t.length :=
  ((Reader.readsAt_past r t).shrinks _ rfl).length_le

theorem skipBlanks_of_head {r : Reader} {c : Char} {t : Text} (h : r.rest = c :: t) (hc : c ≠ '#')
    (hblank : Text.isBlank c = false) : r.skipBlanks = r := by
  unfold Reader.skipBlanks
  split
  · obtain ⟨rest, flags, index, names⟩ := r
    obtain rfl : rest = c :: t := h
    simp [Reader.dropBlanks, hblank]
  · rfl

theorem skipBlanks_of_nil {r : Reader} (h : r.rest = []) : r.skipBlanks = r := by
  obtain ⟨rest, flags, index, names⟩ := r
  obtain rfl : rest = [] := h
  unfold Reader.skipBlanks
  split
  · rfl
  · rfl

/-! ## Escapes -/

theorem hexValue?_of_mem {t : Text} (h : ')' ∈ t) : hexValue? t = none := by
  have hfold (t : Text) (acc : Option Nat) (h : acc = none ∨ ')' ∈ t) :
      t.foldl (fun n c => n.bind fun n => (hexDigit? c).map (16 * n + ·)) acc = none := by
    induction t generalizing acc with
    | nil => simpa using h
    | cons c t ih =>
      rw [List.foldl_cons]
      refine ih _ ?_
      rcases h with rfl | h
      · exact .inl rfl
      · rcases List.mem_cons.mp h with rfl | h
        · have hdigit : hexDigit? ')' = none := by decide
          simp [hdigit]
        · exact .inr h
  exact hfold t _ (.inr h)

theorem not_mem_of_ofList_eq {t : Text} {s : String} (h : String.ofList t = s) (hs : ')' ∉ s.toList) : ')' ∉ t := by
  rwa [← h, String.toList_ofList] at hs

theorem property?_of_mem {t : Text} (h : ')' ∈ t) : property? t = none := by
  unfold property?
  split
  all_goals first | rfl | exact absurd h (not_mem_of_ofList_eq (by assumption) (by decide))

/-- The code point that digits in braces mean. -/
def bracedCodePoint? (digits : Text) : Option Char :=
  if digits.isEmpty then none else (hexValue? digits).bind charOfCode?

theorem readCodePoint?_braced (count : Nat) (t : Text) :
    readCodePoint? count ('\x7b' :: t) = upTo? '\x7d' bracedCodePoint? t := by
  simp only [readCodePoint?, upTo?, bracedCodePoint?]
  cases t.dropWhile (· != '\x7d') with
  | nil => rfl
  | cons c after =>
    dsimp only
    split
    · rfl
    · rw [Option.map_bind]
      rfl

/-- Code points are in braces, or are so many digits; a parenthesis is no digit. -/
theorem readsAt_readCodePoint? (n : Nat) (t : Text) : ReadsAt (readCodePoint? (n + 1)) t := by
  have hbraced (t : Text) : ReadsAt (upTo? '\x7d' bracedCodePoint?) t := by
    refine readsAt_upTo? (by decide) (fun t ht => ?_) t
    rw [bracedCodePoint?, hexValue?_of_mem ht]
    split
    · rfl
    · rfl
  let digits? (t : Text) : Option (Char × Text) :=
    if t.length < n + 1 then none
    else (hexValue? (t.take (n + 1))).bind fun k => (charOfCode? k).map (·, t.drop (n + 1))
  have hdigits (t : Text) : ReadsAt digits? t := by
    by_cases hshort : t.length < n + 1
    · -- with the parenthesis there may be enough characters, but it is one of them
      refine .refuses (if_pos hshort) fun v => ?_
      have hmem : ')' ∈ (t ++ ')' :: v).take (n + 1) := by
        obtain ⟨k, hk⟩ : ∃ k, n + 1 - t.length = k + 1 := ⟨n - t.length, by omega⟩
        rw [List.take_append, hk]
        simp
      simp only [digits?, followedBy_text, hexValue?_of_mem hmem]
      split
      · rfl
      · rfl
    · refine .decided _ (if_neg hshort) (fun x hx => ?_) fun v => ?_
      · obtain ⟨k, -, hx⟩ := Option.bind_eq_some_iff.mp hx
        obtain ⟨c, -, rfl⟩ := Option.map_eq_some_iff.mp hx
        exact List.drop_suffix _ _
      · have hle : n + 1 ≤ t.length := by omega
        have hlong : ¬ (t ++ ')' :: v).length < n + 1 := by
          rw [List.length_append]
          omega
        simp only [digits?, followedBy_text, if_neg hlong, List.take_append_of_le_length hle,
          List.drop_append_of_le_length hle, Option.map_bind, Option.map_map, Function.comp_def]
        rfl
  refine .head '\x7b' (by decide) hbraced hdigits (readCodePoint?_braced (n + 1)) (fun t ht => ?_) t
  rw [readCodePoint?]
  exact fun r hr => ht (by rw [hr]; rfl)

/-- Properties are named by a letter, or in braces; no name has a parenthesis. -/
theorem readsAt_readProperty? (t : Text) : ReadsAt readProperty? t := by
  let letter? (t : Text) : Option (CharClass × Text) :=
    match t with
    | c :: r => (property? [c]).map (·, r)
    | [] => none
  have hletter (t : Text) : ReadsAt letter? t := by
    cases t with
    | nil =>
      have hparen : property? [')'] = none := property?_of_mem (by simp)
      exact .refuses rfl fun v => by simp [letter?, followedBy, hparen]
    | cons c r =>
      refine .decided _ rfl (fun x hx => ?_) fun v => ?_
      · obtain ⟨c', -, rfl⟩ := Option.map_eq_some_iff.mp hx
        exact List.suffix_cons _ _
      · rw [Option.map_map]
        rfl
  have hbraced (t : Text) : ReadsAt (upTo? '\x7d' property?) t := readsAt_upTo? (by decide) (fun _ => property?_of_mem) t
  refine .head '\x7b' (by decide) hbraced hletter (fun t => rfl) (fun t ht => ?_) t
  unfold readProperty?
  split
  · exact absurd rfl ht
  · rfl
  · rfl

/-- The letter of an escape says what follows: a code point, a property, or nothing. -/
theorem readEscape?_cases (caseless : Bool) (c : Char) :
    (∃ n, ∀ r, readEscape? caseless (c :: r) = (readCodePoint? (n + 1) r).map fun (c, r) => (.char c, r)) ∨
      (∃ k : CharClass → CharClass, ∀ r, readEscape? caseless (c :: r) = (readProperty? r).map fun (c, r) => (.set (k c), r)) ∨
      ∃ e : Option Escape, ∀ r, readEscape? caseless (c :: r) = e.map (·, r) := by
  by_cases hcode : c ∈ ['x', 'u', 'U']
  · simp only [List.mem_cons, List.not_mem_nil, or_false] at hcode
    rcases hcode with rfl | rfl | rfl
    · exact .inl ⟨1, fun r => rfl⟩
    · exact .inl ⟨3, fun r => rfl⟩
    · exact .inl ⟨7, fun r => rfl⟩
  by_cases hproperty : c ∈ ['p', 'P']
  · simp only [List.mem_cons, List.not_mem_nil, or_false] at hproperty
    rcases hproperty with rfl | rfl
    · exact .inr (.inl ⟨CharClass.foldIf caseless, fun r => rfl⟩)
    · exact .inr (.inl ⟨fun c => .negate (CharClass.foldIf caseless c), fun r => rfl⟩)
  refine .inr (.inr ?_)
  by_cases hletter : c ∈ ['d', 's', 'w', 'D', 'S', 'W', 'a', 'f', 't', 'n', 'r', 'v', 'A', 'z', 'b', 'B']
  · simp only [List.mem_cons, List.not_mem_nil, or_false] at hletter
    rcases hletter with rfl | rfl | rfl | rfl | rfl | rfl | rfl | rfl | rfl | rfl | rfl | rfl | rfl | rfl | rfl | rfl
    all_goals exact ⟨some _, fun r => rfl⟩
  · refine ⟨if standsForItself c then some (.char c) else none, fun r => ?_⟩
    simp only [List.mem_cons, List.not_mem_nil, or_false, not_or] at hcode hproperty hletter
    rw [readEscape?, apply_ite (Option.map (·, r))]
    · rfl
    all_goals tauto

/-- Escapes, of which the shortest is that of the parenthesis. -/
theorem readsAt_readEscape? (caseless : Bool) (t : Text) : ReadsAt (readEscape? caseless) t := by
  cases t with
  | nil =>
    refine .fails rfl fun v x hx => ?_
    obtain rfl : (Escape.char ')', v) = x := Option.some.inj hx
    exact le_rfl
  | cons c r =>
    have hfollowed (v : Text) : followedBy (c :: r) (')' :: v) = c :: followedBy r (')' :: v) := rfl
    rcases readEscape?_cases caseless c with ⟨n, hread⟩ | ⟨k, hread⟩ | ⟨e, hread⟩
    · refine ReadsAt.of_eq ((readsAt_readCodePoint? n r).map (fun _ => rfl) fun _ _ => rfl) (hread r) (fun v => ?_)
        (List.suffix_cons _ _)
      rw [hfollowed, hread]
    · refine ReadsAt.of_eq ((readsAt_readProperty? r).map (fun _ => rfl) fun _ _ => rfl) (hread r) (fun v => ?_)
        (List.suffix_cons _ _)
      rw [hfollowed, hread]
    · refine .decided _ (hread r) (fun x hx => ?_) fun v => ?_
      · obtain ⟨e', -, rfl⟩ := Option.map_eq_some_iff.mp hx
        exact List.suffix_cons _ _
      · rw [hfollowed, hread, Option.map_map]
        rfl

/-! ## Single characters -/

/-- A backslash begins an escape, and any other character is all that is read. -/
theorem readPrimitive?_cases (r : Reader) (c : Char) :
    (∃ e : Escape → Expr, ∀ t, readPrimitive? r c t = (readEscape? r.flags.caseless t).map fun x => (e x.1, r.at x.2)) ∨
      ∃ e, ∀ t, readPrimitive? r c t = some (e, r.at t) := by
  by_cases hdot : c = '.'
  · exact .inr ⟨_, fun t => by rw [hdot]; rfl⟩
  by_cases hcaret : c = '^'
  · exact .inr ⟨_, fun t => by rw [hcaret]; rfl⟩
  by_cases hdollar : c = '$'
  · exact .inr ⟨_, fun t => by rw [hdollar]; rfl⟩
  by_cases hescape : c = '\\'
  · refine .inl ⟨Escape.rec (oneChar r.flags) .one .assertion, fun t => ?_⟩
    rw [hescape]
    refine congrArg (Option.map · _) (funext fun read => ?_)
    obtain ⟨escape, rest⟩ := read
    cases escape with
    | char | set | test => rfl
  refine .inr ⟨oneChar r.flags c, fun t => ?_⟩
  unfold readPrimitive?
  dsimp only
  split
  all_goals first | rfl | contradiction

/-- Characters, dots, assertions and escapes. -/
theorem readsAt_readPrimitive? (r : Reader) (c : Char) (t : Text) : ReadsAt (readPrimitive? r c) t := by
  rcases readPrimitive?_cases r c with ⟨e, hread⟩ | ⟨e, hread⟩
  · exact ReadsAt.congr ((readsAt_readEscape? _ t).map (fun _ => rfl) fun _ _ => rfl) hread
  · exact .within _ (hread t) List.suffix_rfl fun v => hread _

end Packrat.Pattern
