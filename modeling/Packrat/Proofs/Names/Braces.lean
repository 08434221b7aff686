import Mathlib.Tactic
import Packrat.Grammar.Names

/-!
# `Packrat.Proofs.Names.Braces` — braces of names, and what is left when they are stripped

Names of nodes are put together from texts without braces, from other names, and from braces around names. All of this
keeps braces balanced. The name of a sequence is the exception: braces at the two ends of its parts are stripped as long
as there are some, whether or not they belong together, and one pair is put back. So where a single pair was stripped
that did not belong together, it is there again. Where two such pairs were stripped, one is lost.

## Contents

* `Text.Balanced`, `KeptByNaming` — texts whose braces are balanced, and what putting names together keeps;
* `stripBraces_braced`, `bracedRec` — stripping, one pair of braces at a time;
* `evenBraces_stripBraces` — stripping takes as many opening as closing braces;
* `Doubled`, `balanced_of_not_doubled` — **one pair of braces is put back where it was**;
* `balanced_row_iff`, `balanced_join_iff` — **what stripping does to several parts in a row**.
-/

namespace Packrat

variable {s t u : Text}

/-! ## Balanced braces -/

namespace Text

/-- A text without braces. -/
def Braceless (t : Text) : Prop := '\x7b' ∉ t ∧ '\x7d' ∉ t

instance (t : Text) : Decidable t.Braceless := inferInstanceAs (Decidable ('\x7b' ∉ t ∧ '\x7d' ∉ t))

/-- A text with as many opening as closing braces. -/
def EvenBraces (t : Text) : Prop := t.count '\x7b' = t.count '\x7d'

/-- A text whose braces are balanced: it has as many opening as closing braces, and no front of it has more closing
than opening ones. -/
structure Balanced (t : Text) : Prop where
  front : ∀ n, (t.take n).count '\x7d' ≤ (t.take n).count '\x7b'
  even : t.EvenBraces

theorem Braceless.of_subset (h : t.Braceless) (hs : s ⊆ t) : s.Braceless :=
  ⟨fun hc => h.1 (hs hc), fun hc => h.2 (hs hc)⟩

theorem Braceless.append (hs : s.Braceless) (ht : t.Braceless) : Braceless (s ++ t) :=
  ⟨List.not_mem_append hs.1 ht.1, List.not_mem_append hs.2 ht.2⟩

end Text

open Text

@[simp]
theorem count_open_braced (t : Text) : (braced t).count '\x7b' = t.count '\x7b' + 1 := by simp [braced]

@[simp]
theorem count_close_braced (t : Text) : (braced t).count '\x7d' = t.count '\x7d' + 1 := by simp [braced]

/-- What holds of texts without braces, of texts put together if it holds of these, and of a text between braces if it
holds of the text. -/
structure KeptByNaming (P : Text → Prop) : Prop where
  braceless : ∀ {t}, t.Braceless → P t
  append : ∀ {s t}, P s → P t → P (s ++ t)
  braced : ∀ {t}, P t → P (braced t)

theorem keptByNaming_evenBraces : KeptByNaming EvenBraces := by
  refine ⟨fun ht => ?_, fun hs ht => ?_, fun ht => ?_⟩
  · rw [EvenBraces, List.count_eq_zero_of_not_mem ht.1, List.count_eq_zero_of_not_mem ht.2]
  · rw [EvenBraces, List.count_append, List.count_append, hs, ht]
  · rw [EvenBraces, count_open_braced, count_close_braced, ht]

theorem keptByNaming_balanced : KeptByNaming Balanced := by
  refine ⟨fun ht => ⟨fun n => ?_, keptByNaming_evenBraces.braceless ht⟩,
    fun hs ht => ⟨fun n => ?_, keptByNaming_evenBraces.append hs.even ht.even⟩,
    fun {t} ht => ⟨fun n => ?_, keptByNaming_evenBraces.braced ht.even⟩⟩
  · rw [List.count_eq_zero_of_not_mem fun hc => ht.2 (List.mem_of_mem_take hc)]
    exact Nat.zero_le _
  · rw [List.take_append, List.count_append, List.count_append]
    exact Nat.add_le_add (hs.front _) (ht.front _)
  · -- the brace in front pays for the one behind
    cases n with
    | zero => simp
    | succ n =>
      have hbehind : (['\x7d'].take (n - t.length)).count '\x7d' ≤ 1 := by
        cases n - t.length <;> simp
      rw [Packrat.braced, List.cons_append, List.take_succ_cons, List.take_append]
      calc ('\x7b' :: (t.take n ++ ['\x7d'].take (n - t.length))).count '\x7d'
          = (t.take n).count '\x7d' + (['\x7d'].take (n - t.length)).count '\x7d' := by simp
        _ ≤ (t.take n).count '\x7b' + 1 := Nat.add_le_add (ht.front n) hbehind
        _ ≤ ('\x7b' :: (t.take n ++ ['\x7d'].take (n - t.length))).count '\x7b' := by simp

@[simp]
theorem joinNames_nil (separator : String) : joinNames separator [] = [] := List.intercalate_nil

@[simp]
theorem joinNames_singleton (separator : String) (t : Text) : joinNames separator [t] = t := List.intercalate_singleton

theorem joinNames_cons_cons (separator : String) (s t : Text) (ts : List Text) :
    joinNames separator (s :: t :: ts) = s ++ separator.toList ++ joinNames separator (t :: ts) :=
  List.intercalate_cons_cons

/-- What is kept by naming is kept by putting names in a row. -/
theorem KeptByNaming.join {P : Text → Prop} (h : KeptByNaming P) {separator : String}
    (hsep : Braceless separator.toList) {ts : List Text} (hts : ∀ t ∈ ts, P t) : P (joinNames separator ts) := by
  induction ts with
  | nil => exact h.braceless (by decide : Braceless [])
  | cons t ts ih =>
    rw [List.forall_mem_cons] at hts
    cases ts with
    | nil =>
      rw [joinNames_singleton]
      exact hts.1
    | cons t' ts =>
      rw [joinNames_cons_cons]
      exact h.append (h.append hts.1 (h.braceless hsep)) (ih hts.2)

/-! ## Stripping -/

theorem stripBraces_braced (t : Text) : stripBraces (braced t) = stripBraces t := by
  rw [braced, List.cons_append, stripBraces]
  simp

theorem stripBraces_eq_self (h : ∀ u, t ≠ braced u) : stripBraces t = t := by
  unfold stripBraces
  split
  · next r =>
    rw [if_neg]
    intro hlast
    obtain ⟨u, rfl⟩ := List.getLast?_eq_some_iff.mp hlast
    exact h u rfl
  · rfl

/-- A text has no braces around it, or it is a text with braces around it: induction on how often these can be taken
off. -/
@[elab_as_elim]
theorem bracedRec {motive : Text → Prop} (bare : ∀ t, (∀ u, t ≠ braced u) → motive t)
    (around : ∀ u, motive u → motive (braced u)) (t : Text) : motive t := by
  induction hn : t.length using Nat.strong_induction_on generalizing t with
  | _ n ih =>
    by_cases h : ∃ u, t = braced u
    · obtain ⟨u, rfl⟩ := h
      have hlen : (braced u).length = u.length + 2 := by simp [braced]
      exact around u (ih u.length (by omega) u rfl)
    · exact bare t (not_exists.mp h)

/-- Nothing is left to strip of what was stripped. -/
theorem stripBraces_ne_braced (t u : Text) : stripBraces t ≠ braced u := by
  induction t using bracedRec with
  | bare t ht =>
    rw [stripBraces_eq_self ht]
    exact ht u
  | around t ih =>
    rw [stripBraces_braced]
    exact ih

/-- Stripping takes as many opening as closing braces. -/
theorem evenBraces_stripBraces (t : Text) : (stripBraces t).EvenBraces ↔ t.EvenBraces := by
  induction t using bracedRec with
  | bare t ht => rw [stripBraces_eq_self ht]
  | around t ih =>
    rw [stripBraces_braced, ih, EvenBraces, EvenBraces, count_open_braced, count_close_braced]
    omega

/-! ## Braces at the ends -/

/-- The first of two texts begins with two opening braces, and the second one ends with two closing ones. -/
def Doubled (s t : Text) : Prop := ['\x7b', '\x7b'] <+: s ∧ ['\x7d', '\x7d'] <:+ t

instance (s t : Text) : Decidable (Doubled s t) :=
  inferInstanceAs (Decidable (['\x7b', '\x7b'] <+: s ∧ ['\x7d', '\x7d'] <:+ t))

/-- A text between braces has two of them at each end just if there are braces around what is between them. -/
theorem doubled_braced_iff (t : Text) : Doubled (braced t) (braced t) ↔ ∃ u, t = braced u := by
  have hopen : ['\x7b', '\x7b'] <+: braced t ↔ ['\x7b'] <+: t := by
    rw [braced, List.cons_append, List.cons_prefix_cons]
    cases t <;> simp
  have hclose : ['\x7d', '\x7d'] <:+ braced t ↔ ['\x7d'] <:+ t := by
    rw [braced, show ['\x7d', '\x7d'] = ['\x7d'] ++ ['\x7d'] from rfl, List.suffix_append_self_iff]
    simp [List.suffix_cons_iff]
  rw [Doubled, hopen, hclose]
  constructor
  · rintro ⟨⟨r, rfl⟩, ⟨l, hl⟩⟩
    cases l with
    | nil => simp at hl
    | cons c l =>
      obtain ⟨rfl, rfl⟩ : c = '\x7b' ∧ l ++ ['\x7d'] = r := by simpa using hl
      exact ⟨l, rfl⟩
  · rintro ⟨u, rfl⟩
    exact ⟨⟨u ++ ['\x7d'], rfl⟩, ⟨'\x7b' :: u, rfl⟩⟩

/-- **One pair of braces is put back where it was**: unless a text has two braces at each end, it is still balanced when
its braces have been stripped and one pair is put around it. -/
theorem balanced_of_not_doubled (h : t.Balanced) (hd : ¬ Doubled t t) : (braced (stripBraces t)).Balanced := by
  cases t using bracedRec with
  | bare t ht =>
    rw [stripBraces_eq_self ht]
    exact keptByNaming_balanced.braced h
  | around u =>
    have hu : ∀ v, u ≠ braced v := by rwa [doubled_braced_iff, not_exists] at hd
    rwa [stripBraces_braced, stripBraces_eq_self hu]

/-- What was stripped does not have two braces at each end once one pair is put back. -/
theorem not_doubled_stripBraces (t : Text) : ¬ Doubled (braced (stripBraces t)) (braced (stripBraces t)) := by
  rw [doubled_braced_iff, not_exists]
  exact stripBraces_ne_braced t

/-! ## Parts in a row -/

variable {c : Char}

/-- A text that closes two braces more than it opens is in front of something else. Whatever is stripped, and although a
brace is put in front, this front still closes more than it opens. -/
theorem not_balanced_of_deep (hc : c ≠ '\x7d') (h : s.count '\x7b' + 2 ≤ s.count '\x7d') :
    ¬ (braced (stripBraces (s ++ c :: t))).Balanced := by
  induction hr : s ++ c :: t using bracedRec generalizing s t with
  | bare r hbare =>
    -- nothing is stripped, so the front ends right behind `s`
    subst hr
    rw [stripBraces_eq_self hbare]
    intro hbalanced
    have hfront := hbalanced.front (s.length + 1)
    simp [braced] at hfront
    omega
  | around u ih =>
    rw [stripBraces_braced]
    cases s with
    | nil => simp at h
    | cons d s =>
      -- the front loses its first brace, so it closes still more than it opens
      obtain ⟨rfl, htail⟩ : d = '\x7b' ∧ s ++ c :: t = u ++ ['\x7d'] := by simpa [braced] using hr
      obtain rfl | ⟨t, e, rfl⟩ := List.eq_nil_or_concat t
      · exact absurd (List.append_inj_right' htail rfl) (by simp [hc])
      · rw [List.concat_eq_append, ← List.cons_append, ← List.append_assoc] at htail
        obtain ⟨rfl, -⟩ := List.append_inj' htail rfl
        refine ih ?_ rfl
        simp at h
        omega

/-- What is without a character begins a text just if it begins what is in front of that character. -/
theorem prefix_append_cons_iff {b : Text} (hc : c ∉ b) : b <+: s ++ c :: t ↔ b <+: s := by
  refine ⟨fun h => ?_, fun h => h.trans (List.prefix_append _ _)⟩
  rcases List.prefix_or_prefix_of_prefix h (List.prefix_append s (c :: t)) with h | ⟨r, rfl⟩
  · exact h
  · cases r with
    | nil => rw [List.append_nil]
    | cons d r =>
      obtain rfl : d = c := (List.cons_prefix_cons.mp ((List.prefix_append_right_inj s).mp h)).1
      exact absurd (List.mem_append_right s List.mem_cons_self) hc

theorem suffix_append_cons_iff {b : Text} (hc : c ∉ b) : b <:+ s ++ c :: t ↔ b <:+ t := by
  rw [← List.reverse_prefix, List.reverse_append, List.reverse_cons, List.append_assoc, List.singleton_append,
    prefix_append_cons_iff (List.mem_reverse.not.mpr hc), List.reverse_prefix]

theorem not_doubled_of_braceless (h : s.Braceless) : ¬ Doubled s t := fun hd => h.1 (hd.1.subset List.mem_cons_self)

theorem not_doubled_cons (hc : c ≠ '\x7b') : ¬ Doubled (c :: s) t := fun hd => hc (List.cons_prefix_cons.mp hd.1).1.symm

theorem not_doubled_tagged {word : String} (hword : Braceless word.toList) : ¬ Doubled (tagged word s) t := by
  rintro ⟨hopen, -⟩
  rw [tagged, List.append_assoc, List.append_assoc, List.cons_append, prefix_append_cons_iff (by decide)] at hopen
  exact hword.1 (hopen.subset List.mem_cons_self)

/-- Behind a last pair of braces without others in it, no second brace closes. -/
theorem not_doubled_append_braced (h : u.Braceless) : ¬ Doubled s (t ++ braced u) := by
  rintro ⟨-, hclose⟩
  rw [braced, List.cons_append, suffix_append_cons_iff (by decide),
    show ['\x7d', '\x7d'] = ['\x7d'] ++ ['\x7d'] from rfl, List.suffix_append_self_iff] at hclose
  exact h.2 (hclose.subset List.mem_cons_self)

/-- **What stripping does to several parts in a row**: with something else than braces behind the first part and in
front of the last one, braces stay balanced unless two are taken from each of them. -/
theorem balanced_row_iff {x r l : Text} {c' : Char} (hx : x.Balanced) (hs : s.Balanced) (hc : Braceless [c])
    (hc' : Braceless [c']) (hfirst : x = s ++ c :: r) (hlast : x = l ++ c' :: t) :
    (braced (stripBraces x)).Balanced ↔ ¬ Doubled s t := by
  have hopen : ['\x7b', '\x7b'] <+: x ↔ ['\x7b', '\x7b'] <+: s := by
    rw [hfirst]
    exact prefix_append_cons_iff (by simpa [Braceless, eq_comm] using hc.1)
  have hclose {l t : Text} {c : Char} (hc : Braceless [c]) (hlast : x = l ++ c :: t) :
      ['\x7d', '\x7d'] <:+ x ↔ ['\x7d', '\x7d'] <:+ t := by
    rw [hlast]
    exact suffix_append_cons_iff (by simpa [Braceless, eq_comm] using hc.2)
  refine ⟨fun h hd => ?_, fun hd => balanced_of_not_doubled hx ?_⟩
  · -- without its first two braces, the first part closes two more than it opens
    have hr := (hclose hc hfirst).mp ((hclose hc' hlast).mpr hd.2)
    obtain ⟨⟨s, rfl⟩, -⟩ := hd
    obtain ⟨r, rfl⟩ := hr
    obtain rfl : x = braced (braced (s ++ c :: r)) := by simpa [braced] using hfirst
    rw [stripBraces_braced, stripBraces_braced] at h
    refine not_balanced_of_deep ?_ ?_ h
    · rintro rfl
      exact hc.2 List.mem_cons_self
    · have heven : EvenBraces _ := hs.even
      simp [EvenBraces] at heven
      omega
  · rwa [Doubled, hopen, hclose hc' hlast]

/-- A separator of names has characters, and no braces among them. -/
structure IsSeparator (separator : String) : Prop where
  ne_nil : separator.toList ≠ []
  braceless : Braceless separator.toList

theorem joinNames_cons_concat (separator : String) (s : Text) (ts : List Text) (t : Text) :
    joinNames separator (s :: (ts ++ [t])) = joinNames separator (s :: ts) ++ separator.toList ++ t := by
  induction ts generalizing s with
  | nil => rw [List.nil_append, joinNames_cons_cons, joinNames_singleton, joinNames_singleton]
  | cons s' ts ih => simp only [List.cons_append, joinNames_cons_cons, ih, List.append_assoc]

/-- Names in a row, stripped and put between braces, are balanced unless the first and the last one lose two braces. -/
theorem balanced_join_iff {separator : String} (hsep : IsSeparator separator) {ts : List Text}
    (h : ∀ x ∈ s :: (ts ++ [t]), x.Balanced) :
    (braced (stripBraces (joinNames separator (s :: (ts ++ [t]))))).Balanced ↔ ¬ Doubled s t := by
  obtain ⟨c, r, hfirst⟩ := List.exists_cons_of_ne_nil hsep.ne_nil
  obtain ⟨l, c', hlast⟩ := (List.eq_nil_or_concat separator.toList).resolve_left hsep.ne_nil
  rw [List.concat_eq_append] at hlast
  have hc : Braceless [c] := hsep.braceless.of_subset (by simp [hfirst])
  have hc' : Braceless [c'] := hsep.braceless.of_subset (by simp [hlast])
  refine balanced_row_iff (r := r ++ joinNames separator (ts ++ [t])) (l := joinNames separator (s :: ts) ++ l)
    (keptByNaming_balanced.join hsep.braceless h) (h s List.mem_cons_self) hc hc' ?_ ?_
  · obtain ⟨t', ts', hts⟩ := List.exists_cons_of_ne_nil (List.append_ne_nil_of_right_ne_nil ts (List.cons_ne_nil t []))
    rw [hts, joinNames_cons_cons, hfirst]
    simp only [List.append_assoc, List.cons_append]
  · rw [joinNames_cons_concat, hlast]
    simp

end Packrat
