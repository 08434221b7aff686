import Mathlib.Tactic
import Packrat.Grammar.Builder

/-!
# `Packrat.Proofs.Building.Calls` — what builders can hold

A builder is made by a sequence of calls, each of which may refer to nodes that were made before it. So
references point backwards, but for those of forwards, which get their targets later: this is what makes recursion
of grammars go through forwards.

## Contents

* `Builder.Call`, `Builder.run` — calls of a builder;
* `Builder.Made`, `made_ofCalls` — builders made by calls that use the nodes of the builder itself;
* `run_cases` — a call adds one node, changes one, or does neither;
* `spelled_of_runAll` — so no literal without a character is made;
* `Builder.Orderly`, `Made.orderly` — **references point backwards**, but for those of forwards.
-/

namespace Packrat

/-! ## Calls -/

namespace Builder

/-- A call of a builder. -/
inductive Call
  | setDefaultWhitespace (s : CharSet)
  | literal (text : String) (caseless : Bool)
  | keyword (text : String) (identChars : CharSet) (caseless : Bool)
  | word (init body : CharSet) (bounds : Bounds)
  | charsNotIn (excluded : CharSet) (bounds : Bounds)
  | pattern (source : String) (flags : Pattern.Flags)
  | sequence (children : List ExprId)
  | commit
  | orderedChoice (children : List ExprId)
  | longestChoice (children : List ExprId)
  | each (children : List ExprId)
  | repetition (child : ExprId) (bounds : Bounds) (stop : Option ExprId)
  | zeroOrMore (child : ExprId)
  | oneOrMore (child : ExprId)
  | optional (child : ExprId) (default : Option Value)
  | followedBy (child : ExprId)
  | notFollowedBy (child : ExprId)
  | precededBy (child : ExprId) (retreat : Option Nat)
  | forward (label : String)
  | transform (child : ExprId) (action : Action)
  | named (child : ExprId) (name : String)
  | namedList (child : ExprId) (name : String)
  | group (child : ExprId)
  | dictOf (child : ExprId)
  | suppress (child : ExprId)
  | combine (child : ExprId) (joiner : String)
  | originalText (child : ExprId)
  | skipTo (target : ExprId) (includes : Bool) (failOn : Option ExprId)
  | empty
  | noMatch
  | stringStart
  | stringEnd
  | lineStart
  | lineEnd
  | wordStart (chars : CharSet)
  | wordEnd (chars : CharSet)
  | bind (forward target : ExprId)
  | setName (i : ExprId) (name : String)
  | leaveWhitespace (i : ExprId)
  | withWhitespace (i : ExprId) (s : CharSet)
  | ignore (i ignorable : ExprId)

/-- The nodes that a call refers to. -/
def Call.handles : Call → List ExprId
  | .sequence cs | .orderedChoice cs | .longestChoice cs | .each cs => cs
  | .repetition child _ stop => child :: stop.toList
  | .zeroOrMore c | .oneOrMore c | .optional c _ | .followedBy c | .notFollowedBy c | .precededBy c _
  | .transform c _ | .named c _ | .namedList c _ | .group c | .dictOf c | .suppress c | .combine c _
  | .originalText c => [c]
  | .skipTo target _ failOn => target :: failOn.toList
  | .bind i target => [i, target]
  | .setName i _ | .leaveWhitespace i | .withWhitespace i _ => [i]
  | .ignore i ignorable => [i, ignorable]
  | .setDefaultWhitespace _ | .literal _ _ | .keyword _ _ _ | .word _ _ _ | .charsNotIn _ _ | .pattern _ _ | .commit
  | .forward _ | .empty | .noMatch | .stringStart | .stringEnd | .lineStart | .lineEnd | .wordStart _
  | .wordEnd _ => []

/-- The builder after a call. -/
def run (b : Builder) : Call → Except BuildError Builder
  | .setDefaultWhitespace s => .ok (b.setDefaultWhitespace s)
  | .literal text caseless => (b.literal text caseless).map Prod.snd
  | .keyword text identChars caseless => (b.keyword text identChars caseless).map Prod.snd
  | .word init body bounds => (b.word init body bounds).map Prod.snd
  | .charsNotIn excluded bounds => (b.charsNotIn excluded bounds).map Prod.snd
  | .pattern source flags => (b.pattern source flags).map Prod.snd
  | .sequence children => .ok (b.sequence children).2
  | .commit => .ok b.commit.2
  | .orderedChoice children => .ok (b.orderedChoice children).2
  | .longestChoice children => .ok (b.longestChoice children).2
  | .each children => .ok (b.each children).2
  | .repetition child bounds stop => (b.repetition child bounds stop).map Prod.snd
  | .zeroOrMore child => .ok (b.zeroOrMore child).2
  | .oneOrMore child => .ok (b.oneOrMore child).2
  | .optional child default => .ok (b.optional child default).2
  | .followedBy child => .ok (b.followedBy child).2
  | .notFollowedBy child => .ok (b.notFollowedBy child).2
  | .precededBy child retreat => .ok (b.precededBy child retreat).2
  | .forward label => .ok (b.forward label).2
  | .transform child action => .ok (b.transform child action).2
  | .named child name => .ok (b.named child name).2
  | .namedList child name => .ok (b.namedList child name).2
  | .group child => .ok (b.group child).2
  | .dictOf child => .ok (b.dictOf child).2
  | .suppress child => .ok (b.suppress child).2
  | .combine child joiner => .ok (b.combine child joiner).2
  | .originalText child => .ok (b.originalText child).2
  | .skipTo target includes failOn => .ok (b.skipTo target includes failOn).2
  | .empty => .ok b.empty.2
  | .noMatch => .ok b.noMatch.2
  | .stringStart => .ok b.stringStart.2
  | .stringEnd => .ok b.stringEnd.2
  | .lineStart => .ok b.lineStart.2
  | .lineEnd => .ok b.lineEnd.2
  | .wordStart chars => .ok (b.wordStart chars).2
  | .wordEnd chars => .ok (b.wordEnd chars).2
  | .bind i target => b.bind i target
  | .setName i name => b.setName i name
  | .leaveWhitespace i => b.leaveWhitespace i
  | .withWhitespace i s => b.withWhitespace i s
  | .ignore i ignorable => b.ignore i ignorable

/-- The builder after a sequence of calls, if none of them fails. -/
def runAll (b : Builder) (calls : List Call) : Except BuildError Builder := calls.foldlM run b

/-- The builder made by a sequence of calls; a new one when one of them fails. -/
def ofCalls (calls : List Call) : Builder := (({} : Builder).runAll calls).toOption.getD {}

/-- Whether calls refer only to nodes made before them. -/
def usesOwn (b : Builder) : List Call → Bool
  | [] => true
  | call :: calls =>
    call.handles.all (· < b.size) &&
      match b.run call with
      | .ok b => b.usesOwn calls
      | .error _ => true

/-- Builders made by calls that refer only to nodes made before them. -/
inductive Made : Builder → Prop
  | new : Made {}
  | call {b b' : Builder} {call : Call} : Made b → (∀ j ∈ call.handles, j < b.size) → b.run call = .ok b' → Made b'

theorem Made.runAll {b b' : Builder} {calls : List Call} (h : Made b) (ho : b.usesOwn calls = true)
    (hr : b.runAll calls = .ok b') : Made b' := by
  induction calls generalizing b with
  | nil =>
    obtain rfl := Except.ok.inj hr
    exact h
  | cons call calls ih =>
    rw [usesOwn, Bool.and_eq_true] at ho
    obtain ⟨hown, hrest⟩ := ho
    have hr : (b.run call >>= fun b => b.runAll calls) = .ok b' := by simpa [Builder.runAll] using hr
    cases hrun : b.run call with
    | error e =>
      rw [hrun] at hr
      exact Except.noConfusion rfl rfl (heq_of_eq hr)
    | ok next =>
      rw [hrun] at hr hrest
      exact ih (h.call (fun j hj => of_decide_eq_true (List.all_eq_true.mp hown j hj)) hrun) hrest hr

theorem made_ofCalls {calls : List Call} (h : ({} : Builder).usesOwn calls = true) : Made (ofCalls calls) := by
  unfold ofCalls
  cases hr : ({} : Builder).runAll calls with
  | error e => exact Made.new
  | ok b => exact Made.new.runAll h hr

/-! ## What a call does -/

end Builder

/-- Literals and keywords are spelled by at least one character. -/
def NodeKind.IsSpelled : NodeKind → Prop
  | .literal text _ | .keyword text _ _ => text.toList ≠ []
  | _ => True

namespace Builder

variable {b b' : Builder}

/-- A builder with one node more, whose children are given handles. -/
def Adds (b : Builder) (handles : List ExprId) (b' : Builder) : Prop :=
  ∃ kind skips whitespace, b' = (b.push kind skips whitespace).2 ∧ kind.children ⊆ handles ∧ kind.IsSpelled

/-- A node that differs from another in how it skips, in an ignorable that was given, or in a target of a forward
that was given. -/
structure Alters (handles : List ExprId) (n n' : Node) : Prop where
  kind : n'.kind = n.kind ∨
    ∃ label target, n.kind = .forward label none ∧ n'.kind = .forward label (some target) ∧ target ∈ handles
  ignores : n'.ignores ⊆ n.ignores ++ handles

/-- A builder with one node altered. -/
def Changes (b : Builder) (handles : List ExprId) (b' : Builder) : Prop :=
  ∃ i f, b'.nodes = b.nodes.modify i f ∧ ∀ n, b.nodes[i]? = some n → Alters handles n (f n)

theorem adds_push {kind : NodeKind} {handles : List ExprId} (skips : Bool) (whitespace : CharSet)
    (hc : kind.children ⊆ handles) (hs : kind.IsSpelled) : b.Adds handles (b.push kind skips whitespace).2 :=
  ⟨kind, skips, whitespace, rfl, hc, hs⟩

theorem adds_pushLike {kind : NodeKind} {handles : List ExprId} (model : Option ExprId)
    (hc : kind.children ⊆ handles) (hs : kind.IsSpelled) : b.Adds handles (b.pushLike kind model).2 := by
  unfold pushLike
  split
  · exact adds_push _ _ hc hs
  · exact adds_push _ _ hc hs

/-- The text of a literal is not empty when the literal is made. -/
theorem toList_ne_nil {text : String} (h : ¬ text.isEmpty = true) : text.toList ≠ [] := by
  intro hnil
  exact h (by simp_all)

theorem changes_modify {i : ExprId} {f : Node → Node} {handles : List ExprId} (h : b.modify i f = .ok b')
    (hf : ∀ n, b.nodes[i]? = some n → Alters handles n (f n)) : b.Changes handles b' := by
  unfold modify at h
  split at h
  · obtain rfl := Except.ok.inj h
    exact ⟨i, f, rfl, hf⟩
  · exact absurd h (by simp)

theorem changes_bind {i target : ExprId} (h : b.bind i target = .ok b') : b.Changes [i, target] b' := by
  unfold bind at h
  split at h
  · exact absurd h (by simp)
  · exact absurd h (by simp)
  · next t n ht hn =>
    split at h
    · exact absurd h (by simp)
    · next label hk =>
      refine changes_modify h ?_
      intro n' hn'
      obtain rfl : n = n' := Option.some.inj (hn.symm.trans hn')
      exact ⟨Or.inr ⟨label, target, hk, rfl, by simp⟩, List.subset_append_left _ _⟩
    · exact absurd h (by simp)

theorem changes_ignore {i ignorable : ExprId} (h : b.ignore i ignorable = .ok b') : b.Changes [i, ignorable] b' := by
  unfold ignore at h
  split at h
  · refine changes_modify h fun n _ => ?_
    split
    · exact ⟨Or.inl rfl, List.subset_append_left _ _⟩
    · refine ⟨Or.inl rfl, ?_⟩
      intro j hj
      rcases List.mem_append.mp hj with hj | hj
      · exact List.mem_append_left _ hj
      · exact List.mem_append_right _ (List.mem_cons_of_mem _ hj)
  · exact absurd h (by simp)

theorem adds_literal {text : String} {caseless : Bool} (h : (b.literal text caseless).map Prod.snd = .ok b') :
    b.Adds [] b' := by
  unfold literal at h
  split at h
  · exact absurd h (by simp [Except.map])
  · next hne =>
    obtain rfl := Except.ok.inj h
    exact adds_push _ _ (by simp [NodeKind.children]) (toList_ne_nil hne)

theorem adds_keyword {text : String} {identChars : CharSet} {caseless : Bool}
    (h : (b.keyword text identChars caseless).map Prod.snd = .ok b') : b.Adds [] b' := by
  unfold keyword at h
  split at h
  · exact absurd h (by simp [Except.map])
  · next hne =>
    obtain rfl := Except.ok.inj h
    exact adds_push _ _ (by simp [NodeKind.children]) (toList_ne_nil hne)

/-- A call that resolves bounds first adds what it adds once they are known. -/
theorem adds_of_bounds {bounds : Bounds} {handles : List ExprId}
    {f : Nat × Option Nat → Except BuildError (ExprId × Builder)}
    (h : (bounds.resolve >>= f).map Prod.snd = .ok b')
    (hf : ∀ x, (f x).map Prod.snd = .ok b' → b.Adds handles b') : b.Adds handles b' := by
  cases hr : bounds.resolve with
  | error e => rw [hr] at h; exact absurd h (by simp [Except.map, Bind.bind, Except.bind])
  | ok x => rw [hr] at h; exact hf x h

theorem not_throw_eq_ok {e : BuildError} {f : PUnit → Except BuildError (ExprId × Builder)} :
    ¬ (Except.map Prod.snd (throw e >>= f) = .ok b') := fun h => Except.noConfusion rfl rfl (heq_of_eq h)

theorem adds_word {init body : CharSet} {bounds : Bounds} (h : (b.word init body bounds).map Prod.snd = .ok b') :
    b.Adds [] b' := by
  unfold word at h
  by_cases hinit : init.isEmpty = true
  · rw [if_pos hinit] at h
    exact absurd h not_throw_eq_ok
  · rw [if_neg hinit] at h
    by_cases hbody : body.isEmpty = true
    · rw [if_pos hbody] at h
      exact absurd h not_throw_eq_ok
    · rw [if_neg hbody] at h
      refine adds_of_bounds h ?_
      rintro ⟨min, max⟩ h
      by_cases hmin : min = 0
      · simp only [if_pos hmin] at h
        exact absurd h not_throw_eq_ok
      · simp only [if_neg hmin] at h
        obtain rfl := Except.ok.inj h
        exact adds_push _ _ (by simp [NodeKind.children]) trivial

theorem adds_charsNotIn {excluded : CharSet} {bounds : Bounds}
    (h : (b.charsNotIn excluded bounds).map Prod.snd = .ok b') : b.Adds [] b' := by
  unfold charsNotIn at h
  by_cases hempty : excluded.isEmpty = true
  · rw [if_pos hempty] at h
    exact absurd h not_throw_eq_ok
  · rw [if_neg hempty] at h
    refine adds_of_bounds h ?_
    rintro ⟨min, max⟩ h
    by_cases hmin : min = 0
    · simp only [if_pos hmin] at h
      exact absurd h not_throw_eq_ok
    · simp only [if_neg hmin] at h
      obtain rfl := Except.ok.inj h
      exact adds_push _ _ (by simp [NodeKind.children]) trivial

theorem adds_pattern {source : String} {flags : Pattern.Flags}
    (h : (b.pattern source flags).map Prod.snd = .ok b') : b.Adds [] b' := by
  unfold pattern at h
  split at h
  · obtain rfl := Except.ok.inj h
    exact adds_push _ _ (by simp [NodeKind.children]) trivial
  · exact absurd h (by simp [Except.map])

theorem adds_repetition {child : ExprId} {bounds : Bounds} {stop : Option ExprId}
    (h : (b.repetition child bounds stop).map Prod.snd = .ok b') : b.Adds (child :: stop.toList) b' := by
  unfold repetition at h
  refine adds_of_bounds h ?_
  rintro ⟨min, max⟩ h
  obtain rfl := Except.ok.inj h
  exact adds_pushLike _ (List.Subset.refl _) trivial

/-- A call adds one node, changes one, or leaves all as they are. -/
theorem run_cases {call : Call} (h : b.run call = .ok b') :
    b.Adds call.handles b' ∨ b.Changes call.handles b' ∨ b'.nodes = b.nodes := by
  have hadds {kind : NodeKind} {skips : Bool} {whitespace : CharSet} (hb : (b.push kind skips whitespace).2 = b')
      (hc : kind.children ⊆ call.handles) (hs : kind.IsSpelled) : b.Adds call.handles b' :=
    hb ▸ adds_push skips whitespace hc hs
  have hlike {kind : NodeKind} {model : Option ExprId} (hb : (b.pushLike kind model).2 = b')
      (hc : kind.children ⊆ call.handles) (hs : kind.IsSpelled) : b.Adds call.handles b' :=
    hb ▸ adds_pushLike model hc hs
  cases call with
  | setDefaultWhitespace s =>
    obtain rfl := Except.ok.inj h
    exact Or.inr (Or.inr rfl)
  | literal text caseless => exact Or.inl (adds_literal h)
  | keyword text identChars caseless => exact Or.inl (adds_keyword h)
  | word init body bounds => exact Or.inl (adds_word h)
  | charsNotIn excluded bounds => exact Or.inl (adds_charsNotIn h)
  | pattern source flags => exact Or.inl (adds_pattern h)
  | repetition child bounds stop => exact Or.inl (adds_repetition h)
  | orderedChoice | longestChoice | each | followedBy | notFollowedBy | precededBy | skipTo =>
    exact Or.inl (hadds (Except.ok.inj h) (List.Subset.refl _) trivial)
  | commit | forward | empty | noMatch | stringStart | stringEnd | lineStart | lineEnd | wordStart | wordEnd =>
    exact Or.inl (hadds (Except.ok.inj h) (List.nil_subset _) trivial)
  | sequence | zeroOrMore | oneOrMore | optional | transform | named | namedList | group | dictOf | suppress | combine
  | originalText =>
    exact Or.inl (hlike (Except.ok.inj h) (List.Subset.refl _) trivial)
  | bind i target => exact Or.inr (Or.inl (changes_bind h))
  | ignore i ignorable => exact Or.inr (Or.inl (changes_ignore h))
  | setName | leaveWhitespace | withWhitespace =>
    exact Or.inr (Or.inl (changes_modify h fun n _ => ⟨Or.inl rfl, List.subset_append_left _ _⟩))

/-! ## Literals are spelled -/

/-- A node of a builder with one node more is one of the builder, or the new one. -/
theorem push_cases {kind : NodeKind} {skips : Bool} {whitespace : CharSet} {i : ExprId} {n : Node}
    (hn : (b.push kind skips whitespace).2.nodes[i]? = some n) :
    b.nodes[i]? = some n ∨ i = b.size ∧ n = { kind, skipsWhitespace := skips, whitespace } := by
  have hn : (b.nodes.push { kind, skipsWhitespace := skips, whitespace })[i]? = some n := hn
  rw [Array.getElem?_push] at hn
  split at hn
  · next hi => exact Or.inr ⟨hi, (Option.some.inj hn).symm⟩
  · exact Or.inl hn

/-- A node of a builder with one node altered is one of the builder, or that one. -/
theorem Changes.node {handles : List ExprId} (hb : b.Changes handles b') {i : ExprId} {n : Node}
    (hn : b'.nodes[i]? = some n) : ∃ old, b.nodes[i]? = some old ∧ (n = old ∨ Alters handles old n) := by
  obtain ⟨k, f, hnodes, hf⟩ := hb
  rw [hnodes, Array.getElem?_modify] at hn
  split at hn
  · next hk =>
    obtain ⟨old, hold, rfl⟩ := Option.map_eq_some_iff.mp hn
    subst hk
    exact ⟨old, hold, Or.inr (hf old hold)⟩
  · exact ⟨n, hn, Or.inl rfl⟩

section Spelled

variable {handles : List ExprId} (h : ∀ {i : ExprId} {n : Node}, b.nodes[i]? = some n → n.kind.IsSpelled)
include h

theorem Adds.spelled (hb : b.Adds handles b') {i : ExprId} {n : Node} (hn : b'.nodes[i]? = some n) :
    n.kind.IsSpelled := by
  obtain ⟨kind, skips, whitespace, rfl, -, hs⟩ := hb
  rcases push_cases hn with hold | ⟨-, rfl⟩
  · exact h hold
  · exact hs

theorem Changes.spelled (hb : b.Changes handles b') {i : ExprId} {n : Node} (hn : b'.nodes[i]? = some n) :
    n.kind.IsSpelled := by
  obtain ⟨old, hold, rfl | halters⟩ := hb.node hn
  · exact h hold
  · rcases halters.kind with hkind | ⟨label, target, -, hkind, -⟩
    · rw [hkind]
      exact h hold
    · rw [hkind]
      trivial

/-- Calls make no literal without a character, whatever nodes they refer to. -/
theorem spelled_of_runAll {calls : List Call} (hr : b.runAll calls = .ok b') {i : ExprId} {n : Node}
    (hn : b'.nodes[i]? = some n) : n.kind.IsSpelled := by
  induction calls generalizing b with
  | nil =>
    obtain rfl := Except.ok.inj hr
    exact h hn
  | cons call calls ih =>
    have hr : (b.run call >>= fun b => b.runAll calls) = .ok b' := by simpa [Builder.runAll] using hr
    cases hrun : b.run call with
    | error e =>
      rw [hrun] at hr
      exact Except.noConfusion rfl rfl (heq_of_eq hr)
    | ok next =>
      rw [hrun] at hr
      refine ih (fun {i n} hn => ?_) hr
      rcases run_cases hrun with hadds | hchanges | hnodes
      · exact hadds.spelled h hn
      · exact hchanges.spelled h hn
      · rw [hnodes] at hn
        exact h hn

end Spelled

/-! ## References point backwards -/

/-- References lead to nodes, those of nodes that are no forwards to nodes before them, and literals are spelled. -/
structure Orderly (b : Builder) : Prop where
  known : ∀ {i : ExprId} {n : Node}, b.nodes[i]? = some n → ∀ j ∈ n.references, j < b.size
  backward : ∀ {i : ExprId} {n : Node}, b.nodes[i]? = some n → (∀ label target, n.kind ≠ .forward label target) →
    ∀ j ∈ n.children, j < i
  spelled : ∀ {i : ExprId} {n : Node}, b.nodes[i]? = some n → n.kind.IsSpelled

namespace Orderly

variable {handles : List ExprId} (h : b.Orderly) (hh : ∀ j ∈ handles, j < b.size)
include h hh

theorem adds (hb : b.Adds handles b') : b'.Orderly := by
  have hspelled {i : ExprId} {n : Node} (hn : b'.nodes[i]? = some n) : n.kind.IsSpelled := hb.spelled h.spelled hn
  obtain ⟨kind, skips, whitespace, rfl, hc, hs⟩ := hb
  have hsize : (b.push kind skips whitespace).2.size = b.size + 1 := Array.size_push _
  refine ⟨?_, ?_, hspelled⟩
  · intro i n hn j hj
    rw [hsize]
    rcases push_cases hn with hold | ⟨-, rfl⟩
    · exact Nat.lt_succ_of_lt (h.known hold j hj)
    · have hj : j ∈ kind.children := by simpa [Node.references, Node.children] using hj
      exact Nat.lt_succ_of_lt (hh j (hc hj))
  · intro i n hn hk j hj
    rcases push_cases hn with hold | ⟨rfl, rfl⟩
    · exact h.backward hold hk j hj
    · exact hh j (hc hj)

theorem changes (hb : b.Changes handles b') : b'.Orderly := by
  have hnode {i : ExprId} {n : Node} (hn : b'.nodes[i]? = some n) :
      ∃ old, b.nodes[i]? = some old ∧ (n = old ∨ Alters handles old n) := hb.node hn
  have hspelled {i : ExprId} {n : Node} (hn : b'.nodes[i]? = some n) : n.kind.IsSpelled := hb.spelled h.spelled hn
  obtain ⟨k, f, hnodes, -⟩ := hb
  have hsize : b'.size = b.size := by rw [size, hnodes, Array.size_modify]; rfl
  refine ⟨?_, ?_, hspelled⟩
  · intro i n hn j hj
    rw [hsize]
    obtain ⟨old, hold, rfl | halters⟩ := hnode hn
    · exact h.known hold j hj
    · rcases List.mem_append.mp hj with hj | hj
      · rcases halters.kind with hk | ⟨label, target, -, hk, htarget⟩
        · exact h.known hold j (List.mem_append_left _ (by rwa [Node.children, hk] at hj))
        · obtain rfl : j = target := by simpa [Node.children, hk, NodeKind.children] using hj
          exact hh j htarget
      · rcases List.mem_append.mp (halters.ignores hj) with hj | hj
        · exact h.known hold j (List.mem_append_right _ hj)
        · exact hh j hj
  · intro i n hn hk j hj
    obtain ⟨old, hold, rfl | halters⟩ := hnode hn
    · exact h.backward hold hk j hj
    · rcases halters.kind with hkind | ⟨label, target, -, hkind, -⟩
      · rw [hkind] at hk
        rw [Node.children, hkind] at hj
        exact h.backward hold hk j hj
      · exact absurd hkind (hk label (some target))

end Orderly

/-- **References point backwards**, but for those of forwards. -/
theorem Made.orderly (h : Made b) : b.Orderly := by
  induction h with
  | new => exact ⟨by simp, by simp, by simp⟩
  | call _ hhandles hrun ih =>
    rcases run_cases hrun with hadds | hchanges | hnodes
    · exact ih.adds hhandles hadds
    · exact ih.changes hhandles hchanges
    · constructor
      · rw [size, hnodes]
        exact ih.known
      · rw [hnodes]
        exact ih.backward
      · rw [hnodes]
        exact ih.spelled

end Builder
end Packrat
