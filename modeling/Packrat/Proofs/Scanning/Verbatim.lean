import Packrat.Proofs.Memory.Laws
import Packrat.Proofs.Scanning.Progress

/-!
# `Packrat.Proofs.Scanning.Verbatim` — replacing matches by what they match

Where the root takes the text of its match as its only token, every match of a scan is replaced by the very slice it
takes, from memory or not. What lies before the first match, between two matches and after the last one is copied, skipped
text included, so the pieces tile the text and make it up again.

## Contents

* `Step.IsSlice`, `verbatim`, `lawful_verbatim` — the law of matches that take their text, also from memory;
* `Scan.foundOf_collect` — what attempts find, a scan yields;
* `Scan.replaceFrom_eq_rest` — pieces that tile the text;
* `replace_originalText` — **replacing matches by their text changes nothing**.
-/

namespace Packrat

/-! ## Matches that take their text -/

/-- The only token of a match is the slice that it takes. -/
def Step.IsSlice (t : Text) (start : Nat) : Step → Prop
  | .matched stop r => r.tokens = [Value.ofText (t.slice start stop)]
  | .failed _ => True

/-- The law of a node that takes the text of its match: without skipping, the match starts where it is attempted. -/
def verbatim (i : ExprId) : OutcomeLaw := fun t key step => key.id = i → key.skips = false → step.IsSlice t key.position

theorem lawful_verbatim {g : Grammar} {i child : ExprId} (hk : (g.rule i).kind = .originalText child) :
    g.Lawful (verbatim i) := by
  intro a c j p acts skips hg
  by_cases hj : j = i ∧ skips = false
  · obtain ⟨rfl, rfl⟩ := hj
    have hrule : c.rule j = g.rule j := by rw [Context.rule, hg]
    have hnode : Gives (Step.IsSlice c.text p) (matchNode a c j (g.rule j) p acts) := by
      simp only [matchNode, hk]
      refine Gives.after fun step => ?_
      cases step with
      | matched stop r => exact Gives.pure rfl
      | failed d => exact Gives.pure trivial
    unfold perform
    rw [hrule]
    refine Gives.after fun _ => Gives.bind (P := (· = p)) (Gives.pure rfl) fun start hstart => ?_
    subst hstart
    refine Gives.bind hnode fun step hstep => Gives.after fun _ => Gives.pure fun _ _ => ?_
    cases step with
    | matched stop r => exact hstep
    | failed d => trivial
  · exact fun s step s' _ hid hskips => absurd ⟨hid, hskips⟩ hj

/-- The results of a match that takes its text, joined, are the text. -/
theorem ResultsOf.joined_of_tokens {r : Results} {x : Text} (h : r.tokens = [Value.ofText x]) : r.joined.toList = x := by
  rw [ResultsOf.joined, ResultsOf.strings, ResultsOf.leaves, h]
  simp [Value.leavesOf, Value.leaves, Leaf.text, String.join]

/-! ## What a scan finds -/

namespace Scan

/-- Skipping and an attempt of a root that takes its text, whatever is rightly remembered. -/
theorem attemptAt_verbatim {g : Grammar} {child : ExprId} (hk : (g.rule g.root).kind = .originalText child) {c : Context}
    (hg : c.grammar = g) (p : Nat) :
    Obeying (verbatim g.root) c.text (fun x => x.2.IsSlice c.text x.1) (attemptAt c p) := by
  have hattempt {c' : Context} (hg' : c'.grammar = g) (i : ExprId) (p : Nat) (acts skips : Bool) :=
    attemptWithin_obeys (lawful_verbatim hk) (attemptFuel c) hg' i p acts skips
  have hmade : Assembled g (·.grammar = g) (fun _ => True) (attempt c) (attempt c) c.text (skipLeading (attempt c) c (g.rule g.root) p)
      (skipLeading (attempt c) c (g.rule g.root) p) :=
    Assembled.skipLeading_assembled (C := (·.grammar = g)) hg (fun _ _ => trivial) p
  have hskip := hmade.keeps_memo (J := fun t m => m.Obeys (verbatim g.root) t) fun {c i p acts skips} hg _ =>
    (hattempt hg i p acts skips).mono (fun _ _ => trivial) fun _ => id
  unfold attemptAt
  rw [hg]
  refine Keeps.bind hskip fun start _ => ?_
  exact Keeps.bind (hattempt hg g.root start true false) fun step hstep => Keeps.pure (hstep rfl rfl)

section Finds

variable {c : Context} {I : State → Prop} {P : Nat × Step → Prop}
  (hattempt : ∀ p, Keeps I (fun _ => True) P (attemptAt c p))
include hattempt

theorem foundOf_nextWithin (fuel : Nat) {s : Scan} (hc : s.context = c) (hs : I s.state) :
    (∀ f, (s.nextWithin fuel).1 = some (.ok f) → P (f.start, .matched f.stop f.results)) ∧
      I (s.nextWithin fuel).2.state := by
  induction fuel generalizing s with
  | zero => exact ⟨fun f h => absurd h (by simp [nextWithin]), hs⟩
  | succ fuel ih =>
    obtain ⟨c', state, p, done⟩ := s
    obtain rfl : c' = c := hc
    have hrun := hattempt p state hs
    unfold nextWithin
    split
    · exact ⟨fun f h => absurd h (by simp), hs⟩
    · simp only [EStateM.run]
      cases hr : attemptAt c' p state with
      | error e state' =>
        rw [hr] at hrun
        exact ⟨fun f h => absurd h (by simp), hrun.2⟩
      | ok x state' =>
        obtain ⟨start, step⟩ := x
        rw [hr] at hrun
        have hagain := ih (s := ⟨c', state', c'.text.next start, done⟩) rfl hrun.2
        cases step with
        | failed d => exact hagain
        | matched stop results =>
          dsimp only
          split
          · refine ⟨fun f h => ?_, hrun.2⟩
            obtain rfl := Except.ok.inj (Option.some.inj h)
            exact hrun.1
          · exact hagain

/-- What attempts find, a scan yields, as long as what they keep holds at first. -/
theorem foundOf_collect (n : Nat) {s : Scan} (hc : s.context = c) (hs : I s.state) :
    ∀ f, .ok f ∈ (s.collect n).1.map (·.1) → P (f.start, .matched f.stop f.results) := by
  induction n generalizing s with
  | zero => exact fun f hf => absurd hf List.not_mem_nil
  | succ n ih =>
    have hnext := foundOf_nextWithin hattempt (s.context.text.size + 2) hc hs
    have hcontext := context_nextWithin (s.context.text.size + 2) s
    unfold collect
    rw [next]
    rcases hx : s.nextWithin (s.context.text.size + 2) with ⟨_ | item, s'⟩
    · exact fun f hf => absurd hf List.not_mem_nil
    · rw [hx] at hnext hcontext
      intro f hf
      rcases List.mem_cons.mp hf with heq | hf
      · exact hnext.1 f (congrArg some heq.symm)
      · exact ih (hcontext.trans hc) hnext.2 f hf

end Finds

/-! ## Pieces that tile the text -/

/-- Without an error all items are matches. -/
theorem eq_map_of_matchesOf {items : List Item} {fs : List Found} (h : matchesOf items = .ok fs) :
    items = fs.map .ok := by
  induction items generalizing fs with
  | nil =>
    obtain rfl := Except.ok.inj h
    rfl
  | cons item items ih =>
    rw [matchesOf, List.mapM_cons] at h
    cases item with
    | error e => exact absurd h (by simp [Bind.bind, Except.bind])
    | ok f =>
      cases hrest : matchesOf items with
      | error e =>
        rw [matchesOf] at hrest
        rw [hrest] at h
        exact absurd h (by simp [Bind.bind, Except.bind])
      | ok rest =>
        have hfs := h
        rw [matchesOf] at hrest
        rw [hrest] at hfs
        obtain rfl : f :: rest = fs := Except.ok.inj hfs
        rw [ih hrest, List.map_cons]

/-- Matches that are replaced by what they take, and what is copied between them, make up the rest of the text. -/
theorem replaceFrom_eq_rest {c : Context} {p : Nat} {fs : List Found} (h : Proceeds c p (fs.map .ok))
    (hp : c.text.IsBoundary p) (hverbatim : ∀ f ∈ fs, f.results.joined.toList = c.text.slice f.start f.stop) :
    replaceFrom c.text p fs = c.text.rest p := by
  induction fs generalizing p with
  | nil => rfl
  | cons f fs ih =>
    cases h with
    | @found _ q _ _ hpq hq hfound hstart hstop hrest =>
      have hcopied : Sites.places.From c.text p f.start := hstart.mono hpq
      have htaken : Sites.places.From c.text p f.stop := hstop.mono hcopied.le
      obtain ⟨x, y, hx, hsize⟩ := hp.exists_rest htaken.site htaken.le
      rw [replaceFrom, hverbatim f List.mem_cons_self, hp.slice_append hcopied.site hstop.site hcopied.le hstop.le,
        ih hrest hstop.site fun f' hf' => hverbatim f' (List.mem_cons_of_mem _ hf'), ← hsize, hp.slice_of_rest hx,
        hp.rest_add hx, hx]

end Scan

/-! ## Replacing -/

/-- **Replacing matches by their text changes nothing**, in every mode: where the root takes the text of its match as its
only token, a text with its matches replaced is the text, whatever is matched, skipped or remembered on the way. -/
theorem replace_originalText {g : Grammar} {child : ExprId} (hroot : (g.rule g.root).kind = .originalText child)
    (config : Config) (watch : Watch) (t : Text) {out : Text} (h : (Scan.new g config watch t).replace = .ok out) :
    out = t := by
  let s := Scan.new g config watch t
  have hitems : (s.collect s.itemBound).1.map (·.1) = s.collectAll.1 := rfl
  cases hsearch : s.search with
  | error e =>
    rw [Scan.replace, hsearch] at h
    exact absurd h (by simp [Except.map])
  | ok fs =>
    rw [Scan.replace, hsearch] at h
    obtain rfl : replaceFrom t 0 fs = out := Except.ok.inj h
    have hfs : s.collectAll.1 = fs.map .ok := Scan.eq_map_of_matchesOf hsearch
    have hproceeds := Scan.collect_proceeds s.itemBound (Upkeep.Scanning.new (U := Upkeep.places g) config watch t)
    have hfound := Scan.foundOf_collect (fun p => Scan.attemptAt_verbatim hroot (c := s.context) rfl p) s.itemBound rfl
      (Memo.obeys_ofStrategy config.memoization _ t)
    rw [hitems, hfs] at hproceeds hfound
    have hreplace := Scan.replaceFrom_eq_rest hproceeds (Text.isBoundary_zero t) fun f hf =>
      ResultsOf.joined_of_tokens (hfound f (List.mem_map_of_mem hf))
    exact hreplace.trans (Text.rest_zero t)

/-- Letters that are skipped to over blanks and tabs, or passed over, in a scan that remembers; the match after the last
one is empty. -/
theorem replace_originalText_letters :
    let g := Grammar.ofKinds [.literal "a" false, .repetition 0 0 none none, .originalText 1] 2
    let t : Text := [' ', 'a', '\t', 'a', 'é', ' ', ' ']
    (g.rule g.root).kind = .originalText 1 ∧
      ∃ out, (Scan.new g { memoization := .packrat (some 9) } default t).replace = .ok out ∧ out = t := by
  intro g t
  have hroot : (g.rule g.root).kind = .originalText 1 := rfl
  have hok : (Scan.new g { memoization := .packrat (some 9) } default t).replace.isOk = true := by decide +kernel
  cases hreplace : (Scan.new g { memoization := .packrat (some 9) } default t).replace with
  | error e =>
    rw [hreplace] at hok
    exact absurd hok Bool.false_ne_true
  | ok out => exact ⟨hroot, out, rfl, replace_originalText hroot _ _ t hreplace⟩

end Packrat
