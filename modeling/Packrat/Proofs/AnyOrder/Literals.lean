import Packrat.Proofs.AnyOrder.Finds
import Packrat.Proofs.AnyOrder.Spaced
import Packrat.Proofs.Memory.Certain
import Packrat.Proofs.Plain.Beginning
import Packrat.Proofs.Region.Spelling
import Packrat.Proofs.Seeds.IndirectCycle

/-!
# `Packrat.Proofs.AnyOrder.Literals` — literals in any order

Literals of which none is the beginning of another one are looked for in any order, on a text that is made of some of
them with blanks in between. Wherever a discovery has got to, exactly one of them matches, the next one of the text. So
it finds them in the order of the text, whatever the order in which it tests them, and ends when it has found all of
the text. It follows that all of them in any order make up a match, and that any one left out is what is missing.

## Contents

* `Grammar.EachLiteral` — the shape of such grammars;
* `AtPieces` — places of a text from which pieces remain, and `literalAt_cases` — the next one is what matches there;
* `discover_pieces` — **a discovery finds the pieces of the text in their order**;
* `runInOrder_pieces` — running them gives their tokens;
* `Grammar.EachLiteral.parse_all`, `parse_without` — **parses of texts in every order, and with one literal left out**.
-/

namespace Packrat

/-! ## The shape -/

/-- Neither of two texts is the beginning of the other one. -/
def Text.Apart (u v : Text) : Prop := ¬ u <+: v ∧ ¬ v <+: u

/-- The children of the root are literals, to be matched in any order, of which none is the beginning of another one.
They and the root have default whitespace skipped before them and nothing else, and start with something else. -/
structure Grammar.EachLiteral (g : Grammar) (children : List ExprId) (literal : ExprId → String) : Prop where
  root : (g.rule g.root).kind = .each children
  literals : ∀ j ∈ children, (g.rule j).kind = .literal (literal j) false
  ignores : ∀ j ∈ g.root :: children, (g.rule j).ignores = []
  skipped : ∀ j ∈ g.root :: children, (g.rule j).skipped = g.defaultWhitespace.contains
  starts : ∀ j ∈ children, Text.StartsOutside g.defaultWhitespace (literal j).toList
  apart : children.Pairwise fun i j => Text.Apart (literal i).toList (literal j).toList

/-! ## Literals at a place -/

section Literal

variable {rule : Rule} {text : String} (hkind : rule.kind = .literal text false) {t : Text} {p : Nat}
include hkind

theorem matchToken_of_rest {y : Text} (h : t.rest p = text.toList ++ y) :
    matchToken rule t p = .matched (p + Text.size text.toList) (ResultsOf.single (Value.str text)) := by
  unfold matchToken
  simp only [hkind, h, matchLiteral?_append]

theorem rest_of_matchToken {stop : Nat} {r : Results} (h : matchToken rule t p = .matched stop r) :
    ∃ y, t.rest p = text.toList ++ y ∧ stop = p + Text.size text.toList ∧ r = ResultsOf.single (Value.str text) := by
  unfold matchToken at h
  simp only [hkind] at h
  split at h
  · next n hn =>
    obtain ⟨y, hrest, rfl⟩ := matchLiteral?_exact hn
    obtain ⟨rfl, rfl⟩ := Step.matched.inj h
    exact ⟨y, hrest, rfl, rfl⟩
  · exact absurd h (by simp [Step.failAt])

end Literal

namespace Text

variable {t : Text} {p : Nat}

/-- Skipping leads past the blanks of what is left. -/
theorem IsBoundary.rest_skip (h : t.IsBoundary p) (set : Char → Bool) :
    t.rest (t.skip set p) = (t.rest p).dropWhile set :=
  h.rest_add (List.takeWhile_append_dropWhile (p := set)).symm

/-- Where anything is left of a text there is a place. -/
theorem isBoundary_of_rest_ne_nil (h : t.rest p ≠ []) : t.IsBoundary p := by
  unfold rest at h
  unfold IsBoundary
  cases hdrop : t.drop? p with
  | none =>
    rw [hdrop] at h
    exact absurd rfl h
  | some r => rfl

theorem StartsOutside.ne_nil {set : CharSet} (h : t.StartsOutside set) : t ≠ [] := by
  rintro rfl
  obtain ⟨ch, hch, -⟩ := h
  exact absurd hch (by simp)

end Text

/-- What is left of a list without all but one of its elements is that one. -/
theorem filter_eq_singleton {α : Type} [DecidableEq α] {as before after : List α} {x : α}
    (hperm : (before ++ x :: after).Perm as) (hnodup : (before ++ x :: after).Nodup) :
    as.filter (· ∉ before ++ after) = [x] := by
  have hx : x ∉ before ++ after := (List.nodup_middle.mp hnodup).notMem
  have hbefore : before.filter (· ∉ before ++ after) = [] :=
    List.filter_eq_nil_iff.mpr fun i hi => by simp [hi]
  have hafter : after.filter (· ∉ before ++ after) = [] :=
    List.filter_eq_nil_iff.mpr fun i hi => by simp [hi]
  have hfilter := hperm.filter (· ∉ before ++ after)
  rw [List.filter_append, hbefore, List.filter_cons_of_pos (by simpa using hx), hafter, List.nil_append] at hfilter
  exact List.perm_singleton.mp hfilter.symm

/-! ## The next piece -/

/-- A place of a text from which the literals of some children remain, in their order. -/
structure AtPieces (g : Grammar) (literal : ExprId → String) (order : List ExprId) (t : Text) (p : Nat) : Prop where
  place : t.IsBoundary p
  spaced : Spaced g.defaultWhitespace.contains (order.map fun j => (literal j).toList) (t.rest p)

/-- What a literal comes to that is attempted at a position. -/
def Grammar.literalAt (g : Grammar) (t : Text) (j : ExprId) (p : Nat) : Step :=
  matchToken (g.rule j) t (t.skip g.defaultWhitespace.contains p)

namespace Grammar.EachLiteral

variable {g : Grammar} {children : List ExprId} {literal : ExprId → String} (H : g.EachLiteral children literal)
include H

theorem nodup : children.Nodup := by
  refine H.apart.imp ?_
  rintro i j h rfl
  exact h.1 List.prefix_rfl

/-- No literal is the beginning of another one. -/
theorem eq_of_prefix {i j : ExprId} (hi : i ∈ children) (hj : j ∈ children)
    (h : (literal i).toList <+: (literal j).toList) : i = j := by
  by_contra hne
  have hsymm : Std.Symm fun i j => Text.Apart (literal i).toList (literal j).toList := ⟨fun _ _ h => ⟨h.2, h.1⟩⟩
  exact (H.apart.forall hi hj hne).1 h

variable {t : Text} {p : Nat} {order : List ExprId}

/-- **The next piece is what matches.** Of the literals, exactly the one of the next piece matches at a place, up to where
the others remain. -/
theorem literalAt_cases (hat : AtPieces g literal order t p) (horder : order ⊆ children) {j : ExprId}
    (hj : j ∈ children) :
    (∃ order' stop, order = j :: order' ∧ AtPieces g literal order' t stop ∧
        g.literalAt t j p = .matched stop (ResultsOf.single (Value.str (literal j)))) ∨
      (order.head? ≠ some j ∧ ∃ d, g.literalAt t j p = .failed d) := by
  have hskip := hat.place.skip g.defaultWhitespace.contains
  have hrest := hat.place.rest_skip g.defaultWhitespace.contains
  -- a literal that matches is a beginning of what is left
  have hprefix {stop : Nat} {r : Results} (h : g.literalAt t j p = .matched stop r) :
      (literal j).toList <+: (t.rest p).dropWhile g.defaultWhitespace.contains := by
    obtain ⟨y, hy, -⟩ := rest_of_matchToken (H.literals j hj) h
    exact ⟨y, (hrest.symm.trans hy).symm⟩
  have hfails (h : ∀ stop r, g.literalAt t j p ≠ .matched stop r) : ∃ d, g.literalAt t j p = .failed d := by
    cases hstep : g.literalAt t j p with
    | matched stop r => exact absurd hstep (h stop r)
    | failed d => exact ⟨d, rfl⟩
  cases order with
  | nil =>
    refine Or.inr ⟨by simp, hfails fun stop r hmatch => ?_⟩
    have hnil := hprefix hmatch
    rw [hat.spaced.dropWhile_nil] at hnil
    exact (H.starts j hj).ne_nil (List.prefix_nil.mp hnil)
  | cons i order =>
    obtain ⟨hi, horder⟩ := List.cons_subset.mp horder
    obtain ⟨t', hdrop, hspaced⟩ := hat.spaced.dropWhile_cons (H.starts i hi)
    by_cases hij : i = j
    · subst hij
      have hsplit := hrest.trans hdrop
      refine Or.inl ⟨order, _, rfl, ⟨hskip.add hsplit, ?_⟩, matchToken_of_rest (H.literals i hi) hsplit⟩
      rw [hskip.rest_add hsplit]
      exact hspaced
    · refine Or.inr ⟨by simpa using hij, hfails fun stop r hmatch => ?_⟩
      -- of two beginnings of one text one is the beginning of the other
      have hj' := hprefix hmatch
      rw [hdrop] at hj'
      rcases List.prefix_or_prefix_of_prefix hj' (List.prefix_append _ t') with h | h
      · exact hij (H.eq_of_prefix hj hi h).symm
      · exact hij (H.eq_of_prefix hi hj h)

/-- A literal that matches ends after it begins, and in the text. -/
theorem literalAt_ends {j : ExprId} (hj : j ∈ children) {stop : Nat} {r : Results}
    (h : g.literalAt t j p = .matched stop r) : p ≤ stop ∧ stop ≤ t.size := by
  obtain ⟨y, hrest, rfl, -⟩ := rest_of_matchToken (H.literals j hj) h
  have hplace : t.IsBoundary (t.skip g.defaultWhitespace.contains p) := by
    apply Text.isBoundary_of_rest_ne_nil
    rw [hrest]
    exact List.append_ne_nil_of_left_ne_nil (H.starts j hj).ne_nil y
  exact ⟨(Text.le_skip _ t p).trans (Nat.le_add_right _ _), (hplace.add hrest).le_size⟩

/-- The attempt of a literal certainly comes to what it comes to at its position. -/
theorem literal_certain {j : ExprId} (hj : j ∈ children) (t : Text) (p : Nat) (acts : Bool) :
    g.Certain t 1 ⟨j, p, acts, true, false⟩ ((g.literalAt t j p).mapResults (ResultsOf.withOrigin j)) := by
  apply Grammar.certain_of_perform
  intro c m hc
  have hrule := hc.rule j
  have hmem := List.mem_cons_of_mem g.root hj
  have hbegin : skipLeading (attemptWithin m) c (c.rule j) p = pure (t.skip g.defaultWhitespace.contains p) := by
    rw [hrule, skipLeading_of_ignores_nil _ _ (H.ignores j hmem), H.skipped j hmem, hc.text]
  have hnode (start : Nat) : matchNode (attemptWithin m) c j (c.rule j) start acts = pure (matchToken (g.rule j) t start) := by
    rw [hrule, ← hc.text]
    simp only [matchNode, H.literals j hj]
  have hskip : Yields (State.Sound g t) (skipLeading (attemptWithin m) c (c.rule j) p)
      (t.skip g.defaultWhitespace.contains p) := by
    rw [hbegin]
    exact Yields.pure _
  refine Yields.perform State.Sound.congr hskip ?_
  rw [hnode]
  exact Yields.pure _

/-! ## Items -/

section Items

variable {c : Context} (hg : c.grammar = g)
include hg

theorem ofChild_eq {j : ExprId} (hj : j ∈ children) : EachItem.ofChild j (c.rule j).kind = ⟨j, j, .required⟩ := by
  rw [show c.rule j = g.rule j from congrArg (Grammar.rule · j) hg, H.literals j hj]
  rfl

theorem mem_eachItems {item : EachItem} {k : Nat} :
    (item, k) ∈ c.eachItems children ↔ ∃ j, children[k]? = some j ∧ item = ⟨j, j, .required⟩ := by
  rw [Context.mem_eachItems]
  constructor
  · rintro ⟨j, hj, rfl⟩
    exact ⟨j, hj, H.ofChild_eq hg (List.mem_of_getElem? hj)⟩
  · rintro ⟨j, hj, rfl⟩
    exact ⟨j, hj, (H.ofChild_eq hg (List.mem_of_getElem? hj)).symm⟩

theorem tests_eachItems : (c.eachItems children).map (·.1.test) = children := by
  have hmap : (c.eachItems children).map (·.1.test)
      = ((c.eachItems children).map Prod.fst).map EachItem.test := by
    rw [List.map_map]
    rfl
  rw [hmap, Context.eachItems, List.zipIdx_map_fst, List.map_map]
  refine (List.map_congr_left fun j hj => ?_).trans (List.map_id children)
  rw [Function.comp_apply, H.ofChild_eq hg hj]
  rfl

/-- What has been seen are the literals that have been found. -/
theorem mem_seen_iff {I : State → Prop} {a : Attempt} {start : Nat} {found : Discovery} {finds : List Find}
    (hnotes : found.Notes I a c (c.eachItems children) start finds) {k : Nat} {j : ExprId}
    (hj : children[k]? = some j) : k ∈ found.seen ↔ j ∈ finds.map (·.item.run) := by
  rw [hnotes.mem_seen, List.mem_map]
  constructor
  · rintro ⟨f, hf, rfl⟩
    obtain ⟨j', hj', hitem⟩ := (H.mem_eachItems hg).mp (hnotes.listed f hf)
    obtain rfl : j = j' := Option.some.inj (hj.symm.trans hj')
    exact ⟨f, hf, by rw [hitem]⟩
  · rintro ⟨f, hf, rfl⟩
    obtain ⟨j', hj', hitem⟩ := (H.mem_eachItems hg).mp (hnotes.listed f hf)
    rw [hitem] at hj
    -- each literal is there once
    have hlt : f.number < children.length := (List.getElem?_eq_some_iff.mp hj').1
    exact ⟨f, hf, (List.getElem?_inj hlt H.nodup).mp (hj'.trans hj.symm)⟩

/-- What is missing are the literals that the text does not have. -/
theorem missing_pieces {found : Discovery} (hseen : ∀ k j, children[k]? = some j → (k ∈ found.seen ↔ j ∈ order)) :
    (found.missing (c.eachItems children)).map (·.1.test) = children.filter (· ∉ order) := by
  have hfilter : found.missing (c.eachItems children) = (c.eachItems children).filter fun x => x.1.test ∉ order := by
    refine List.filter_congr ?_
    rintro ⟨item, k⟩ hx
    obtain ⟨j, hj, rfl⟩ := (H.mem_eachItems hg).mp hx
    simp [EachItem.isNeeded, hseen k j hj]
  rw [hfilter]
  nth_rewrite 2 [← H.tests_eachItems hg]
  rw [List.filter_map]
  rfl

/-- Nothing is optional. -/
theorem absent_eq_nil (found : Discovery) : found.absent c (c.eachItems children) = [] := by
  refine List.filter_eq_nil_iff.mpr ?_
  rintro ⟨item, k⟩ hx
  obtain ⟨j, -, rfl⟩ := (H.mem_eachItems hg).mp hx
  simp

end Items

/-! ## The first pass -/

section Passes

variable {c : Context} {m : Nat} (hc : c.Offers m g t false 1)
include hc

theorem attempt_yields {j : ExprId} (hj : j ∈ children) (p : Nat) (acts : Bool) :
    Yields (State.Sound g t) (attemptWithin m c j p acts true)
      ((g.literalAt t j p).mapResults (ResultsOf.withOrigin j)) :=
  H.literal_certain hj t p acts hc

/-- A test that matches is what the literal comes to there. -/
theorem literalAt_of_mayGive {j : ExprId} (hj : j ∈ children) {stop : Nat} {r : Results}
    (h : MayGive (State.Sound g t) (attemptWithin m c j p false true) (.matched stop r)) :
    ∃ r', g.literalAt t j p = .matched stop r' := by
  have heq := (H.attempt_yields hc hj p false).eq_of_mayGive h
  cases hstep : g.literalAt t j p with
  | matched stop' r' =>
    rw [hstep] at heq
    obtain ⟨rfl, -⟩ := Step.matched.inj heq
    exact ⟨r', rfl⟩
  | failed d =>
    rw [hstep] at heq
    exact absurd heq (by simp [Step.mapResults])

/-- Finds that make up a way are pieces of the text, and the others remain at its end. -/
theorem finds_pieces {finds : List Find} {start stop : Nat} (hspans : Spans start finds stop)
    (hfinds : ∀ f ∈ finds, f.entry ∈ c.eachItems children ∧
      ∃ r, MayGive (State.Sound g t) (attemptWithin m c f.item.test f.place false true) (.matched f.stop r))
    (hat : AtPieces g literal order t start) (horder : order ⊆ children) :
    ∃ order', order = finds.map (·.item.run) ++ order' ∧ AtPieces g literal order' t stop := by
  induction finds generalizing start order with
  | nil =>
    obtain rfl : start = stop := hspans
    exact ⟨order, rfl, hat⟩
  | cons f finds ih =>
    obtain ⟨⟨hentry, r, htest⟩, hfinds⟩ := List.forall_mem_cons.mp hfinds
    obtain ⟨rfl, hspans⟩ := hspans
    obtain ⟨j, hj, hitem⟩ := (H.mem_eachItems hc.grammar).mp hentry
    have hj := List.mem_of_getElem? hj
    rw [hitem] at htest
    obtain ⟨r', hstep⟩ := H.literalAt_of_mayGive hc hj htest
    rcases H.literalAt_cases hat horder hj with ⟨order₁, stop₁, rfl, hat₁, hstep₁⟩ | ⟨-, d, hfailed⟩
    · obtain ⟨rfl, -⟩ := Step.matched.inj (hstep.symm.trans hstep₁)
      obtain ⟨order', rfl, hat'⟩ := ih hspans hfinds hat₁ (List.cons_subset.mp horder).2
      exact ⟨order', by rw [List.map_cons, hitem, List.cons_append], hat'⟩
    · exact absurd (hstep.symm.trans hfailed) (by simp)

/-- Where nothing is left to be found no piece remains. -/
theorem no_pieces_of_exhausted {found : Discovery} {finds : List Find} {start : Nat} {order' : List ExprId}
    (hnotes : found.Notes (State.Sound g t) (attemptWithin m) c (c.eachItems children) start finds)
    (hexhausted : Exhausted (State.Sound g t) (attemptWithin m) c (c.eachItems children) found)
    (hat : AtPieces g literal order' t found.loc) (horder : finds.map (·.item.run) ++ order' ⊆ children)
    (hnodup : (finds.map (·.item.run) ++ order').Nodup) : order' = [] := by
  cases order' with
  | nil => rfl
  | cons j order' =>
    exfalso
    have hsub := (List.append_subset.mp horder).2
    have hj : j ∈ children := hsub List.mem_cons_self
    obtain ⟨k, hk⟩ := List.mem_iff_getElem?.mp hj
    rcases hexhausted _ ((H.mem_eachItems hc.grammar).mpr ⟨j, hk, rfl⟩) with hover | ⟨step, htest, hmissed⟩
    · have hseen : k ∈ found.seen := by simpa [EachItem.isOver, EachItem.isSingle] using hover
      have hfound := (H.mem_seen_iff hc.grammar hnotes hk).mp hseen
      exact List.disjoint_of_nodup_append hnodup hfound List.mem_cons_self
    · rcases H.literalAt_cases hat hsub hj with ⟨_, stop, -, -, hstep⟩ | ⟨hhead, -⟩
      · have heq := (H.attempt_yields hc hj found.loc false).eq_of_mayGive htest
        rw [heq, hstep] at hmissed
        exact absurd hmissed.symm Bool.false_ne_true
      · exact hhead rfl

/-- **A discovery finds the pieces of the text in their order**, whatever the order in which it tests them. -/
theorem discover_pieces (hnodup : order.Nodup) (horder : order ⊆ children) {start : Nat}
    (hat : AtPieces g literal order t start) :
    ∃ found, Yields (State.Sound g t)
        (discover (attemptWithin m) c (c.eachItems children) (c.eachFuel children) ⟨start, [], []⟩) found ∧
      found.order.reverse = order ∧ ∀ k j, children[k]? = some j → (k ∈ found.seen ↔ j ∈ order) := by
  have htests : ∀ x ∈ c.eachItems children, ∃ j ∈ children, x.1 = ⟨j, j, .required⟩ := by
    rintro ⟨item, k⟩ hx
    obtain ⟨j, hj, hitem⟩ := (H.mem_eachItems hc.grammar).mp hx
    exact ⟨j, List.mem_of_getElem? hj, hitem⟩
  have hyields : ∀ x ∈ c.eachItems children, ∀ p, ∃ step,
      Yields (State.Sound g t) (attemptWithin m c x.1.test p false true) step := by
    intro x hx p
    obtain ⟨j, hj, hitem⟩ := htests x hx
    rw [hitem]
    exact ⟨_, H.attempt_yields hc hj p false⟩
  have hleaves : ∀ x ∈ c.eachItems children, ∀ p,
      Leaves (State.Sound g t) (fun _ => True) (attemptWithin m c x.1.test p false true) := by
    intro x hx p
    obtain ⟨step, hstep⟩ := hyields x hx p
    exact hstep.leaves.mono fun _ _ => trivial
  have hends : TestsEndIn (State.Sound g t) (attemptWithin m) c (c.eachItems children) c.text.size := by
    intro x hx loc _ stop r htest
    obtain ⟨j, hj, hitem⟩ := htests x hx
    rw [hitem] at htest
    obtain ⟨r', hstep⟩ := H.literalAt_of_mayGive hc hj htest
    rw [hc.text]
    exact H.literalAt_ends hj hstep
  obtain ⟨found, hfound⟩ := discover_yields hyields (c.eachFuel children) ⟨start, [], []⟩
  obtain ⟨s', hrun, -⟩ := hfound (State.initial {}) (State.sound_initial g t {})
  have hdiscovers := (discover_discovers hleaves _ _ (State.sound_initial g t {}) hrun).2
  have hexhausted := hdiscovers.exhausted hends (hc.text ▸ hat.place.le_size) (Discovery.left_lt_eachFuel c children _)
  obtain ⟨finds, hnotes⟩ := Discovery.Notes.discovers hdiscovers (.initial start)
  obtain ⟨order', rfl, hat'⟩ := H.finds_pieces hc hnotes.spans
    (fun f hf => ⟨hnotes.listed f hf, hnotes.tested f hf⟩) hat horder
  obtain rfl := H.no_pieces_of_exhausted hc hnotes hexhausted hat' horder hnodup
  refine ⟨found, hfound, ?_, ?_⟩
  · rw [hnotes.order, List.append_nil]
  · intro k j hj
    rw [List.append_nil]
    exact H.mem_seen_iff hc.grammar hnotes hj

/-- On a text of all literals but one they fail where they begin, for want of that one. -/
theorem matchEach_without {before after : List ExprId} {j : ExprId} (hperm : (before ++ j :: after).Perm children)
    {start : Nat} (hat : AtPieces g literal (before ++ after) t start) (acts : Bool) :
    Yields (State.Sound g t) (matchEach (attemptWithin m) c children start acts)
      (.failed ⟨start, "Missing one or more required elements (" ++ (g.rule j).display ++ ")"⟩) := by
  have hnodup := hperm.nodup_iff.mpr H.nodup
  have hsublist : (before ++ after).Sublist (before ++ j :: after) := (List.sublist_cons_self j after).append_left before
  obtain ⟨found, hfound, -, hseen⟩ := H.discover_pieces hc (hnodup.sublist hsublist)
    (fun i hi => hperm.subset (hsublist.subset hi)) hat
  have hmissing : (found.missing (c.eachItems children)).map (·.1.test) = [j] := by
    rw [H.missing_pieces hc.grammar hseen, filter_eq_singleton hperm hnodup]
  have hnames : (found.missing (c.eachItems children)).map (fun x => (c.rule x.1.test).display) = [(g.rule j).display] := by
    have hmap := congrArg (List.map fun j => (c.rule j).display) hmissing
    rw [List.map_map] at hmap
    rw [← hc.rule j]
    exact hmap
  have hne : found.missing (c.eachItems children) ≠ [] := by
    intro hnil
    rw [hnil] at hmissing
    exact absurd hmissing (by simp)
  intro s hs
  obtain ⟨s', hrun, hs'⟩ := hfound s hs
  refine ⟨s', ?_, hs'⟩
  rw [matchEach_of_missing hrun hne, missingFailure, hnames]
  rfl

end Passes

/-- Running the pieces of the text in their order gives their tokens, up to where none remains. -/
theorem runInOrder_pieces (horder : order ⊆ children) {start : Nat} (hat : AtPieces g literal order t start)
    (acts : Bool) :
    ∃ stop, AtPieces g literal [] t stop ∧ ∀ ⦃c : Context⦄ ⦃m : Nat⦄, c.Offers m g t false 1 → ∀ r : Results,
      Yields (State.Sound g t) (runInOrder (attemptWithin m) c acts order start r)
        (.matched stop { r with tokens := r.tokens ++ order.map fun j => Value.str (literal j) }) := by
  induction order generalizing start with
  | nil =>
    refine ⟨start, hat, fun c m _ r => ?_⟩
    rw [List.map_nil, List.append_nil]
    exact Yields.pure _
  | cons j order ih =>
    obtain ⟨hj, horder'⟩ := List.cons_subset.mp horder
    rcases H.literalAt_cases hat horder hj with ⟨order', stop, heq, hat', hstep⟩ | ⟨hhead, -⟩
    · obtain ⟨-, rfl⟩ := List.cons.inj heq
      obtain ⟨stop', hat'', hrest⟩ := ih horder' hat'
      refine ⟨stop', hat'', fun c m hc r => ?_⟩
      have hattempt := H.attempt_yields hc hj start acts
      rw [hstep] at hattempt
      rw [runInOrder, List.map_cons, ← List.singleton_append, ← List.append_assoc]
      exact hattempt.bind (hrest hc { r with tokens := r.tokens ++ [Value.str (literal j)] })
    · exact absurd rfl hhead

/-- On a text of all literals they match, and give their tokens in the order of the text. -/
theorem matchEach_all (hperm : order.Perm children) {start : Nat} (hat : AtPieces g literal order t start) (acts : Bool) :
    ∃ stop, AtPieces g literal [] t stop ∧ ∀ ⦃c : Context⦄ ⦃m : Nat⦄, c.Offers m g t false 1 →
      Yields (State.Sound g t) (matchEach (attemptWithin m) c children start acts)
        (.matched stop { tokens := order.map fun j => Value.str (literal j) }) := by
  obtain ⟨stop, hat', hruns⟩ := H.runInOrder_pieces hperm.subset hat acts
  refine ⟨stop, hat', fun c m hc => ?_⟩
  obtain ⟨found, hfound, horder, hseen⟩ := H.discover_pieces hc (hperm.nodup_iff.mpr H.nodup) hperm.subset hat
  have hmissing : found.missing (c.eachItems children) = [] := by
    have hmap := H.missing_pieces hc.grammar hseen
    rw [List.filter_eq_nil_iff.mpr fun j hj => by simpa using hperm.mem_iff.mpr hj] at hmap
    exact List.map_eq_nil_iff.mp hmap
  intro s hs
  obtain ⟨s₁, hrun, hs₁⟩ := hfound s hs
  rw [matchEach_of_complete hrun hmissing, H.absent_eq_nil hc.grammar, horder, List.map_nil, List.append_nil]
  exact hruns hc {} s₁ hs₁

/-! ## Whole texts -/

/-- Past the blanks the same pieces remain. -/
theorem atPieces_skip (hat : AtPieces g literal order t p) (horder : order ⊆ children) :
    AtPieces g literal order t (t.skip g.defaultWhitespace.contains p) := by
  refine ⟨hat.place.skip _, ?_⟩
  rw [hat.place.rest_skip]
  have hspaced := hat.spaced
  cases order with
  | nil =>
    rw [Spaced.dropWhile_nil hspaced]
    exact .nil (by simp)
  | cons j order =>
    obtain ⟨t', hdrop, hrest⟩ := Spaced.dropWhile_cons hspaced (H.starts j (horder List.mem_cons_self))
    rw [hdrop]
    exact hrest.piece_append

/-- The attempt of the root certainly comes to what its children come to past the first blanks. -/
theorem root_certain {step : Step}
    (h : ∀ ⦃c m⦄, c.Offers m g t false 1 →
      Yields (State.Sound g t) (matchEach (attemptWithin m) c children (t.skip g.defaultWhitespace.contains 0) true) step) :
    g.Certain t 2 ⟨g.root, 0, true, true, false⟩ (step.mapResults (ResultsOf.withOrigin g.root)) := by
  apply Grammar.certain_of_perform
  intro c m hc
  have hrule := hc.rule g.root
  have hskip : Yields (State.Sound g t) (skipLeading (attemptWithin m) c (c.rule g.root) 0)
      (t.skip g.defaultWhitespace.contains 0) := by
    rw [hrule, skipLeading_of_ignores_nil _ _ (H.ignores g.root List.mem_cons_self),
      H.skipped g.root List.mem_cons_self, hc.text]
    exact Yields.pure _
  refine Yields.perform State.Sound.congr hskip ?_
  rw [hrule]
  simp only [matchNode, H.root]
  exact h hc

section Parses

variable {config : Config} (hlimit : ∀ limit ∈ config.recursionLimit, 2 ≤ limit) (watch : Watch) (state : State)
include hlimit

omit H in
theorem attempt_top_yields {step : Step} (hcertain : g.Certain t 2 ⟨g.root, 0, true, true, false⟩ step) :
    Yields (State.Sound g t) (attempt (Context.top g config watch t) (Context.top g config watch t) g.root 0 true true)
      step := by
  refine hcertain ⟨rfl, rfl, rfl, ?_⟩
  unfold Context.room attemptFuel
  cases hconfig : (Context.top g config watch t).config.recursionLimit with
  | none =>
    show 2 ≤ nestingBound g t
    unfold nestingBound
    nlinarith [Nat.zero_le (8 * g.size * (t.size + 1) * (t.size + 1)), Nat.zero_le (2 * g.size * (t.size + 1))]
  | some limit =>
    have hle := hlimit limit hconfig
    show 2 ≤ min (limit + 1) (limit - 0)
    omega

omit H in
/-- Where the root certainly fails, so does a parse. -/
theorem parse_of_root_failed {d : Diagnostic}
    (hcertain : g.Certain (viewOf config t) 2 ⟨g.root, 0, true, true, false⟩ (.failed d)) :
    ((Parser.mk g config watch state).parse t true).1.outcome = .error (.mismatch (Report.of (viewOf config t) d)) := by
  obtain ⟨s', hrun, -⟩ := attempt_top_yields hlimit watch hcertain { state.forget with journal := [] }
    (Memo.sound_clear g _ state.memo)
  have hmatch : matchRoot (Context.top g config watch (viewOf config t)) true { state.forget with journal := [] }
      = .ok (.failed d) s' := by
    unfold matchRoot
    rw [show (Context.top g config watch (viewOf config t)).grammar = g from rfl, bind_ok hrun]
    rfl
  show (resolve (viewOf config t) (matchRoot _ true _)).1 = _
  rw [hmatch]
  rfl

/-- Where the root certainly matches up to blanks, so does a parse. -/
theorem parse_of_root_matched {stop : Nat} {r : Results}
    (hcertain : g.Certain (viewOf config t) 2 ⟨g.root, 0, true, true, false⟩ (.matched stop r))
    (hat : AtPieces g literal [] (viewOf config t) stop) :
    ((Parser.mk g config watch state).parse t true).1.outcome = .ok r := by
  generalize hview : viewOf config t = view at hcertain hat
  let c := Context.top g config watch view
  obtain ⟨s', hrun, -⟩ := attempt_top_yields hlimit watch hcertain { state.forget with journal := [] }
    (Memo.sound_clear g _ state.memo)
  -- skipping leads to the end of the text, and stays there
  have hskip : view.skip g.defaultWhitespace.contains stop = view.size := by
    have hend := (hat.place.skip g.defaultWhitespace.contains).size_rest
    rw [hat.place.rest_skip, Spaced.dropWhile_nil hat.spaced] at hend
    exact hend
  have hleading : skipLeading (attempt c) c (g.rule g.root) stop = pure view.size := by
    rw [skipLeading_of_ignores_nil _ _ (H.ignores g.root List.mem_cons_self), H.skipped g.root List.mem_cons_self]
    exact congrArg Pure.pure hskip
  have hstays : view.skip g.defaultWhitespace.contains view.size = view.size := by
    have h := hat.place.skip_skip g.defaultWhitespace.contains
    rwa [hskip] at h
  have hmatch : matchRoot c true { state.forget with journal := [] } = .ok (.matched view.size r) s' := by
    unfold matchRoot
    rw [show c.grammar = g from rfl, bind_ok hrun]
    simp only [Bool.not_true, Bool.false_eq_true, if_false, hleading, pure_bind]
    rw [show c.text = view from rfl, hstays, if_neg (lt_irrefl _)]
    rfl
  show (resolve (viewOf config t) (matchRoot (Context.top g config watch (viewOf config t)) true _)).1 = _
  rw [hview, hmatch]
  rfl

omit hlimit in
/-- A text made of pieces is matched as a text made of the same pieces, which no tab is replaced in. -/
theorem atPieces_viewOf {order : List ExprId} {t : Text} (horder : order ⊆ children)
    (hview : config.keepTabs = true ∨ (∀ j ∈ children, '\t' ∉ (literal j).toList) ∧
      (g.defaultWhitespace.contains '\t' = true → g.defaultWhitespace.contains ' ' = true))
    (ht : Spaced g.defaultWhitespace.contains (order.map fun j => (literal j).toList) t) :
    AtPieces g literal order (viewOf config t) ((viewOf config t).skip g.defaultWhitespace.contains 0) := by
  refine H.atPieces_skip ⟨Text.isBoundary_zero _, ?_⟩ horder
  rw [Text.rest_zero]
  refine ht.viewOf (hview.imp_right fun h => ⟨?_, h.2⟩)
  intro piece hpiece
  obtain ⟨j, hj, rfl⟩ := List.mem_map.mp hpiece
  exact h.1 j (horder hj)

/-- **A text of all literals** is parsed as a whole, and gives them as tokens in the order of the text. -/
theorem parse_all
    (hview : config.keepTabs = true ∨ (∀ j ∈ children, '\t' ∉ (literal j).toList) ∧
      (g.defaultWhitespace.contains '\t' = true → g.defaultWhitespace.contains ' ' = true))
    {order : List ExprId} {t : Text} (hperm : order.Perm children)
    (ht : Spaced g.defaultWhitespace.contains (order.map fun j => (literal j).toList) t) :
    ((Parser.mk g config watch state).parse t true).1.outcome
      = .ok { tokens := order.map fun j => Value.str (literal j), origin := some g.root } := by
  obtain ⟨stop, hend, hyields⟩ := H.matchEach_all hperm (H.atPieces_viewOf hperm.subset hview ht) true
  exact H.parse_of_root_matched hlimit watch state (H.root_certain hyields) hend

/-- **A text of all literals but one** fails past the first blanks, for want of that one. -/
theorem parse_without
    (hview : config.keepTabs = true ∨ (∀ j ∈ children, '\t' ∉ (literal j).toList) ∧
      (g.defaultWhitespace.contains '\t' = true → g.defaultWhitespace.contains ' ' = true))
    {before after : List ExprId} {j : ExprId} {u v : Text} (hperm : (before ++ j :: after).Perm children)
    (hu : Spaced g.defaultWhitespace.contains (before.map fun j => (literal j).toList) u)
    (hv : Spaced g.defaultWhitespace.contains (after.map fun j => (literal j).toList) v) :
    ((Parser.mk g config watch state).parse (u ++ v) true).1.outcome
      = .error (.mismatch (Report.of (viewOf config (u ++ v))
        ⟨(viewOf config (u ++ v)).skip g.defaultWhitespace.contains 0,
          "Missing one or more required elements (" ++ (g.rule j).display ++ ")"⟩)) := by
  have hsub : before ++ after ⊆ children := by
    intro i hi
    exact hperm.subset (((List.sublist_cons_self j after).append_left before).subset hi)
  have hspaced := hu.append hv
  rw [← List.map_append] at hspaced
  have hcertain := H.root_certain fun c m hc =>
    H.matchEach_without hc hperm (H.atPieces_viewOf hsub hview hspaced) true
  exact parse_of_root_failed hlimit watch state hcertain

end Parses

end Grammar.EachLiteral

end Packrat
