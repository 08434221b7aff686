import Packrat.Proofs.AnyOrder.Literals
import Packrat.Proofs.Building.Naming

/-!
# `Packrat.Proofs.AnyOrder.EveryOrder` — the literals of a builder, in every order

The calls of a builder that make literals and all of them in any order lead to a grammar of the shape that accepts
every order, whatever the default whitespace. So all texts are parsed that are made of the literals, and no others are
that lack one.

## Contents

* `Builder.anyOrder` — the calls, and `anyOrder_eq` — what they make;
* `Builder.made_anyOrder`, `Builder.accepts_anyOrder` — they use their own nodes, and the checks accept these;
* `Builder.build_anyOrder` — **what is built has the shape**;
* `each_literal_in_every_order` — **parses of texts in every order, and of texts with one literal left out**.
-/

namespace Packrat
namespace Builder

/-! ## The calls -/

/-- A literal that has default whitespace skipped before it. -/
def literalNode (set : CharSet) (text : String) : Node := { kind := .literal text false, whitespace := set }

/-- The first nodes in any order, with default whitespace skipped before them. -/
def eachNode (set : CharSet) (count : Nat) : Node := { kind := .each (List.range count), whitespace := set }

/-- Literals, and all of them in any order. -/
def anyOrder (set : CharSet) (texts : List String) : Builder :=
  .ofCalls (.setDefaultWhitespace set ::
    (texts.map (Call.literal · false) ++ [.each (List.range texts.length)]))

variable {b : Builder} {set : CharSet} {texts : List String}

theorem runAll_cons {call : Call} {b' : Builder} (h : b.run call = .ok b') (calls : List Call) :
    b.runAll (call :: calls) = b'.runAll calls := by
  unfold runAll
  rw [List.foldlM_cons, h]
  rfl

theorem run_literal {text : String} (h : text.toList ≠ []) (b : Builder) :
    b.run (.literal text false) = .ok { b with nodes := b.nodes.push (literalNode b.defaultWhitespace text) } := by
  have hempty : ¬ text.isEmpty = true := by simpa [String.isEmpty_iff] using h
  simp only [run, literal, if_neg hempty]
  rfl

/-- Literals are added in their order. -/
theorem runAll_literals (htexts : ∀ text ∈ texts, text.toList ≠ []) (b : Builder) (calls : List Call) :
    b.runAll (texts.map (Call.literal · false) ++ calls)
      = { b with nodes := b.nodes ++ (texts.map (literalNode b.defaultWhitespace)).toArray }.runAll calls := by
  induction texts generalizing b with
  | nil => simp
  | cons text texts ih =>
    obtain ⟨htext, htexts⟩ := List.forall_mem_cons.mp htexts
    rw [List.map_cons, List.cons_append, runAll_cons (run_literal htext b), ih htexts]
    simp

/-- What follows is skipped before a node over literals, as all of them have it skipped. -/
theorem each_literals (children : List ExprId) {b : Builder} (h : ∀ n ∈ b.nodes, n.skipsWhitespace = true) :
    (b.each children).2
      = { b with nodes := b.nodes.push { kind := .each children, whitespace := b.defaultWhitespace } } := by
  have hskips : ((children.filterMap fun i => b.nodes[i]?).all (·.skipsWhitespace)) = true := by
    rw [List.all_eq_true]
    intro n hn
    obtain ⟨i, -, hi⟩ := List.mem_filterMap.mp hn
    exact h n (Array.mem_of_getElem? hi)
  unfold each pushIfAllSkip push
  rw [hskips]

/-- The calls add the literals, and then the node over them. -/
theorem anyOrder_eq_each (htexts : ∀ text ∈ texts, text.toList ≠ []) :
    anyOrder set texts
      = (({ nodes := (texts.map (literalNode set)).toArray, defaultWhitespace := set } : Builder).each
          (List.range texts.length)).2 := by
  unfold anyOrder ofCalls
  rw [runAll_cons rfl, runAll_literals htexts, runAll_cons rfl]
  simp [setDefaultWhitespace, runAll, Except.toOption, pure, Except.pure]

/-- What the calls make. -/
theorem anyOrder_eq (htexts : ∀ text ∈ texts, text.toList ≠ []) :
    anyOrder set texts
      = { nodes := (texts.map (literalNode set) ++ [eachNode set texts.length]).toArray, defaultWhitespace := set } := by
  have hskips : ∀ n ∈ (texts.map (literalNode set)).toArray, n.skipsWhitespace = true := by
    intro n hn
    obtain ⟨text, -, rfl⟩ := List.mem_map.mp (List.mem_toArray.mp hn)
    rfl
  rw [anyOrder_eq_each htexts, each_literals _ hskips]
  simp [eachNode]

/-- Literals are made of nothing. -/
theorem Made.literals (htexts : ∀ text ∈ texts, text.toList ≠ []) (h : b.Made) :
    Made { b with nodes := b.nodes ++ (texts.map (literalNode b.defaultWhitespace)).toArray } := by
  induction texts generalizing b with
  | nil => simpa using h
  | cons text texts ih =>
    obtain ⟨htext, htexts⟩ := List.forall_mem_cons.mp htexts
    have hrest := ih htexts (h.call (by simp [Call.handles]) (run_literal htext b))
    simpa using hrest

section Nodes

variable (htexts : ∀ text ∈ texts, text.toList ≠ [])
include htexts

theorem size_anyOrder : (anyOrder set texts).size = texts.length + 1 := by
  rw [anyOrder_eq htexts]
  simp [size]

theorem anyOrder_literal {i : ExprId} {text : String} (h : texts[i]? = some text) :
    (anyOrder set texts).nodes[i]? = some (literalNode set text) := by
  have hlt : i < (texts.map (literalNode set)).length := by
    rw [List.length_map]
    exact (List.getElem?_eq_some_iff.mp h).1
  rw [anyOrder_eq htexts, List.getElem?_toArray, List.getElem?_append_left hlt, List.getElem?_map, h]
  rfl

theorem anyOrder_each : (anyOrder set texts).nodes[texts.length]? = some (eachNode set texts.length) := by
  rw [anyOrder_eq htexts, List.getElem?_toArray, List.getElem?_append_right (by simp)]
  simp

/-- The nodes are the literals, and the one over them. -/
theorem anyOrder_cases {i : ExprId} {n : Node} (h : (anyOrder set texts).nodes[i]? = some n) :
    (∃ text ∈ texts, n = literalNode set text) ∨ n = eachNode set texts.length := by
  rw [anyOrder_eq htexts, List.getElem?_toArray] at h
  rcases List.mem_append.mp (List.mem_of_getElem? h) with hn | hn
  · obtain ⟨text, htext, rfl⟩ := List.mem_map.mp hn
    exact Or.inl ⟨text, htext, rfl⟩
  · exact Or.inr (List.mem_singleton.mp hn)

/-- Nodes refer to literals only. -/
theorem references_anyOrder {i : ExprId} {n : Node} (h : (anyOrder set texts).nodes[i]? = some n) {j : ExprId}
    (hj : j ∈ n.references) : j < texts.length := by
  rcases anyOrder_cases htexts h with ⟨text, -, rfl⟩ | rfl
  · exact absurd hj List.not_mem_nil
  · have hj : j ∈ List.range texts.length ++ [] := hj
    rw [List.append_nil] at hj
    exact List.mem_range.mp hj

/-- There are no forwards and no commit markers. -/
theorem kindOf?_anyOrder (i : ExprId) :
    unboundLabel? (anyOrder set texts).nodes i = none ∧ leadsToCommit (anyOrder set texts).nodes i = false := by
  unfold unboundLabel? leadsToCommit kindOf?
  cases hn : (anyOrder set texts).nodes[i]? with
  | none => exact ⟨rfl, rfl⟩
  | some n => rcases anyOrder_cases htexts hn with ⟨text, -, rfl⟩ | rfl <;> exact ⟨rfl, rfl⟩

/-! ## Building -/

/-- The nodes are made of nodes before them. -/
theorem made_anyOrder : (anyOrder set texts).Made := by
  have hset : ({} : Builder).run (.setDefaultWhitespace set) = .ok { defaultWhitespace := set } := rfl
  have hliterals : Made { nodes := (texts.map (literalNode set)).toArray, defaultWhitespace := set } := by
    have h := Made.literals htexts (Made.new.call (by simp [Call.handles]) hset)
    simpa using h
  have heach : ({ nodes := (texts.map (literalNode set)).toArray, defaultWhitespace := set } : Builder).run
      (.each (List.range texts.length)) = .ok (anyOrder set texts) := by
    rw [anyOrder_eq_each htexts]
    rfl
  exact hliterals.call (by simp [Call.handles, size]) heach

/-- The checks accept the nodes. -/
theorem accepts_anyOrder : (anyOrder set texts).Accepts texts.length where
  root_lt := by
    rw [size_anyOrder htexts]
    exact Nat.lt_succ_self _
  references := by
    have hnone : ((anyOrder set texts).nodes.toList.flatMap Node.references).find?
        ((anyOrder set texts).nodes.size ≤ ·) = none := by
      rw [List.find?_eq_none]
      intro j hj
      obtain ⟨n, hn, hj⟩ := List.mem_flatMap.mp hj
      obtain ⟨i, hi⟩ := List.mem_iff_getElem?.mp hn
      rw [Array.getElem?_toList] at hi
      have hlt : j < (anyOrder set texts).size := by
        rw [size_anyOrder htexts]
        exact (references_anyOrder htexts hi hj).trans (Nat.lt_succ_self _)
      simpa [size] using hlt
    unfold checkReferences
    rw [hnone]
  forwards := by
    have hnone : (walk (anyOrder set texts).nodes texts.length).findSome? (unboundLabel? (anyOrder set texts).nodes)
        = none := List.findSome?_eq_none_iff.mpr fun i _ => (kindOf?_anyOrder htexts i).1
    unfold checkForwards
    rw [hnone]
  commits := by
    have hnone (references : List ExprId) : references.find? (leadsToCommit (anyOrder set texts).nodes) = none :=
      List.find?_eq_none.mpr fun i _ => by simp [(kindOf?_anyOrder htexts i).2]
    unfold checkCommits
    rw [(kindOf?_anyOrder htexts texts.length).2]
    simp only [hnone]
    rfl

end Nodes

/-- A grammar of literals and all of them in any order has the shape. -/
theorem Builds.eachLiteral {set : CharSet} {texts : List String} {g : Grammar}
    (h : (anyOrder set texts).Builds texts.length g) (hset : g.defaultWhitespace = set)
    (hstarts : ∀ text ∈ texts, Text.StartsOutside set text.toList)
    (hapart : texts.Pairwise fun u v => Text.Apart u.toList v.toList) :
    g.EachLiteral (List.range texts.length) fun i => texts.getD i "" := by
  have htexts : ∀ text ∈ texts, text.toList ≠ [] := fun text htext => (hstarts text htext).ne_nil
  have hget {i : ExprId} (hi : i ∈ List.range texts.length) :
      ∃ text ∈ texts, texts.getD i "" = text ∧ (anyOrder set texts).nodes[i]? = some (literalNode set text) := by
    have hlt : i < texts.length := List.mem_range.mp hi
    have htext := List.getElem?_eq_getElem hlt
    exact ⟨texts[i], List.getElem_mem hlt, by rw [List.getD, htext]; rfl, anyOrder_literal htexts htext⟩
  have heach : (anyOrder set texts).nodes[g.root]? = some (eachNode set texts.length) := by
    rw [h.root_eq]
    exact anyOrder_each htexts
  -- all nodes have the same whitespace
  have hnode {i : ExprId} (hi : i ∈ g.root :: List.range texts.length) :
      i < g.size ∧ (g.rule i).skipped = set.contains := by
    obtain ⟨n, hn, hskips⟩ : ∃ n, (anyOrder set texts).nodes[i]? = some n ∧
        (fun ch => n.bare.skipsWhitespace && n.bare.whitespace.contains ch) = set.contains := by
      rcases List.mem_cons.mp hi with rfl | hi
      · exact ⟨_, heach, rfl⟩
      · obtain ⟨text, -, -, hn⟩ := hget hi
        exact ⟨_, hn, rfl⟩
    rw [← h.bare_eq hn] at hskips
    refine ⟨?_, hskips⟩
    rw [h.size]
    exact (Array.getElem?_eq_some_iff.mp hn).1
  constructor
  case root => exact congrArg Node.kind (h.bare_eq heach)
  case literals =>
    intro i hi
    obtain ⟨text, -, rfl, hn⟩ := hget hi
    exact congrArg Node.kind (h.bare_eq hn)
  case ignores =>
    intro i hi
    refine h.ignores_eq_nil ?_ (hnode hi).1
    intro j n hn
    rcases anyOrder_cases htexts hn with ⟨text, -, rfl⟩ | rfl <;> rfl
  case skipped =>
    intro i hi
    rw [hset]
    exact (hnode hi).2
  case starts =>
    intro i hi
    obtain ⟨text, htext, rfl, -⟩ := hget hi
    rw [hset]
    exact hstarts _ htext
  case apart =>
    rw [List.pairwise_iff_getElem] at hapart ⊢
    intro i j hi hj hij
    rw [List.length_range] at hi hj
    simpa [hi, hj] using hapart i j hi hj hij

/-- The name of a literal, once it is built, is the literal in quotes. -/
theorem nameOf?_anyOrder {set : CharSet} {texts : List String} (htexts : ∀ text ∈ texts, text.toList ≠ []) {i : ExprId}
    {text : String} (h : texts[i]? = some text) :
    nameOf? (passDown (anyOrder set texts).nodes) i = some (quoteName text.toList) := by
  have hbare := sameBare_passDown (anyOrder set texts).nodes i
  rw [anyOrder_literal htexts h] at hbare
  obtain ⟨n, hn, hsame⟩ := Option.map_eq_some_iff.mp hbare
  have hkind : n.kind = .literal text false := congrArg Node.kind hsame
  have hname : n.customName = none := congrArg Node.customName hsame
  unfold nameOf? nameAt?
  simp only [hn, hname, hkind]
  rfl

/-- **What is built has the shape**: any literals of which none is the beginning of another one, and which start with
something else than the default whitespace, may come in any order. -/
theorem build_anyOrder {set : CharSet} {texts : List String}
    (hstarts : ∀ text ∈ texts, Text.StartsOutside set text.toList)
    (hapart : texts.Pairwise fun u v => Text.Apart u.toList v.toList) :
    ∃ g, (anyOrder set texts).build texts.length = .ok g ∧ g.root = texts.length ∧ g.defaultWhitespace = set ∧
      (g.EachLiteral (List.range texts.length) fun i => texts.getD i "") ∧
      ∀ i text, texts[i]? = some text → (g.rule i).display = String.ofList (quoteName text.toList) := by
  have htexts : ∀ text ∈ texts, text.toList ≠ [] := fun text htext => (hstarts text htext).ne_nil
  have haccepts : (anyOrder set texts).Accepts texts.length := accepts_anyOrder htexts
  obtain ⟨g, hbuild, hset, hnames⟩ := haccepts.exists_build_eq (made_anyOrder htexts)
  have hbuilds := builds_of_ok hbuild
  rw [anyOrder_eq htexts] at hset
  refine ⟨g, hbuild, hbuilds.root_eq, hset, hbuilds.eachLiteral hset hstarts hapart, ?_⟩
  intro i text htext
  refine hnames i _ (nameOf?_anyOrder htexts htext) ?_
  rw [size_anyOrder htexts]
  exact Nat.lt_succ_of_lt (List.getElem?_eq_some_iff.mp htext).1

end Builder

/-! ## Texts by their places -/

section Places

variable {texts order : List String}

theorem getD_idxOf (h : order ⊆ texts) : (order.map texts.idxOf).map (texts.getD · "") = order := by
  rw [List.map_map]
  refine (List.map_congr_left fun text htext => ?_).trans (List.map_id order)
  show texts.getD (texts.idxOf text) "" = text
  rw [List.getD, List.getElem?_idxOf (h htext)]
  rfl

/-- A permutation of texts is one of their places. -/
theorem idxOf_perm (hnodup : texts.Nodup) (h : order.Perm texts) :
    (order.map texts.idxOf).Perm (List.range texts.length) := by
  have hself : texts.map texts.idxOf = List.range texts.length := by
    apply List.ext_getElem (by simp)
    intro i hi hi'
    rw [List.getElem_map, List.getElem_range, hnodup.idxOf_getElem]
  rw [← hself]
  exact h.map texts.idxOf

end Places

/-! ## Every order -/

/-- **Literals in any order**, none of which is the beginning of another one. A text that is made of all of them, in
whatever order and with whatever default whitespace before, between and after them, is parsed as a whole, and gives the
literals as tokens in the order of the text. With any one of them left out, the parse fails past the first whitespace,
for want of that one. This is so whatever is remembered or watched, as long as two attempts may nest, and tabs are kept,
or there are none in the literals. -/
theorem each_literal_in_every_order {set : CharSet} {texts : List String}
    (hstarts : ∀ text ∈ texts, Text.StartsOutside set text.toList)
    (hapart : texts.Pairwise fun u v => Text.Apart u.toList v.toList) (config : Config)
    (hlimit : ∀ limit ∈ config.recursionLimit, 2 ≤ limit)
    (hview : config.keepTabs = true ∨
      (∀ text ∈ texts, '\t' ∉ text.toList) ∧ (set.contains '\t' = true → set.contains ' ' = true))
    (watch : Watch) (state : State) :
    ∃ g, (Builder.anyOrder set texts).build texts.length = .ok g ∧
      (∀ (order : List String) (t : Text), order.Perm texts → Spaced set.contains (order.map String.toList) t →
        ((Parser.mk g config watch state).parse t true).1.outcome
          = .ok { tokens := order.map Value.str, origin := some texts.length }) ∧
      ∀ (before : List String) (text : String) (after : List String) (u v : Text),
        (before ++ text :: after).Perm texts → Spaced set.contains (before.map String.toList) u →
        Spaced set.contains (after.map String.toList) v →
        ((Parser.mk g config watch state).parse (u ++ v) true).1.outcome
          = .error (.mismatch (Report.of (viewOf config (u ++ v)) ⟨(viewOf config (u ++ v)).skip set.contains 0,
            "Missing one or more required elements (" ++ String.ofList (quoteName text.toList) ++ ")"⟩)) := by
  obtain ⟨g, hbuild, hroot, hset, H, hnames⟩ := Builder.build_anyOrder hstarts hapart
  have hnodup : texts.Nodup := by
    refine hapart.imp ?_
    rintro u v h rfl
    exact h.1 List.prefix_rfl
  have htabs : config.keepTabs = true ∨ (∀ j ∈ List.range texts.length, '\t' ∉ (texts.getD j "").toList) ∧
      (g.defaultWhitespace.contains '\t' = true → g.defaultWhitespace.contains ' ' = true) := by
    refine hview.imp_right fun h => ⟨?_, hset ▸ h.2⟩
    intro j hj
    rw [List.getD, List.getElem?_eq_getElem (List.mem_range.mp hj)]
    exact h.1 _ (List.getElem_mem _)
  -- the pieces of a text are those at their places
  have hpieces {order : List String} {t : Text} (h : order ⊆ texts) (ht : Spaced set.contains (order.map String.toList) t) :
      Spaced g.defaultWhitespace.contains ((order.map texts.idxOf).map fun j => (texts.getD j "").toList) t := by
    have hplaces := congrArg (List.map String.toList) (getD_idxOf h)
    rw [List.map_map] at hplaces
    rw [hset]
    exact hplaces ▸ ht
  refine ⟨g, hbuild, ?_, ?_⟩
  · intro order t hperm ht
    have htokens := congrArg (List.map Value.str) (getD_idxOf hperm.subset)
    rw [List.map_map] at htokens
    rw [H.parse_all hlimit watch state htabs (idxOf_perm hnodup hperm) (hpieces hperm.subset ht), hroot, ← htokens]
    rfl
  · intro before text after u v hperm hu hv
    have hplaces := idxOf_perm hnodup hperm
    rw [List.map_append, List.map_cons] at hplaces
    have hbefore : before ⊆ texts := fun x hx => hperm.subset (List.mem_append_left _ hx)
    have hafter : after ⊆ texts := fun x hx =>
      hperm.subset (List.mem_append_right _ (List.mem_cons_of_mem _ hx))
    have htext : texts[texts.idxOf text]? = some text :=
      List.getElem?_idxOf (hperm.subset (List.mem_append_right _ List.mem_cons_self))
    rw [H.parse_without hlimit watch state htabs hplaces (hpieces hbefore hu) (hpieces hafter hv), hset,
      hnames _ text htext]

/-- A text that ends with another one, and that one, where blanks, tabs and line ends are skipped. -/
theorem each_literal_in_every_order_adjoining :
    let set : CharSet := ⟨[⟨'\t', '\n'⟩, ⟨'\r', '\r'⟩, ⟨' ', ' '⟩]⟩
    let texts := ["ab", "b"]
    (∀ text ∈ texts, Text.StartsOutside set text.toList) ∧
      (texts.Pairwise fun u v => Text.Apart u.toList v.toList) ∧
      ∃ g, (Builder.anyOrder set texts).build 2 = .ok g ∧
        ((Parser.mk g {} default (State.initial {})).parse ['\n', 'b', 'a', 'b'] true).1.outcome
          = .ok { tokens := [.str "b", .str "ab"], origin := some 2 } ∧
        ((Parser.mk g {} default (State.initial {})).parse [' ', 'a', 'b'] true).1.outcome
          = .error (.mismatch (Report.of [' ', 'a', 'b'] ⟨1, "Missing one or more required elements ('b')"⟩)) := by
  intro set texts
  have hstarts : ∀ text ∈ texts, Text.StartsOutside set text.toList := by
    intro text htext
    rcases List.mem_pair.mp htext with rfl | rfl
    · exact ⟨'a', rfl, by decide +kernel⟩
    · exact ⟨'b', rfl, by decide +kernel⟩
  have hapart : texts.Pairwise fun u v => Text.Apart u.toList v.toList :=
    List.pairwise_pair.mpr ⟨by decide, by decide⟩
  have hblank {ch : Char} (h : set.contains ch = true) : ∀ c ∈ [ch], set.contains c = true :=
    List.forall_mem_singleton.mpr h
  have htabs : ∀ text ∈ texts, '\t' ∉ text.toList := by decide
  obtain ⟨g, hbuild, hall, hwithout⟩ := each_literal_in_every_order hstarts hapart {} (by simp)
    (Or.inr ⟨htabs, fun _ => by decide +kernel⟩) default (State.initial {})
  refine ⟨hstarts, hapart, g, hbuild, ?_, ?_⟩
  · exact hall ["b", "ab"] _ (List.Perm.swap "ab" "b" [])
      ((Spaced.single ['a', 'b']).piece_append.blanks_append (hblank (by decide +kernel)))
  · have hskip : Text.skip set.contains (viewOf {} ([' ', 'a', 'b'] ++ [])) 0 = 1 := by decide +kernel
    have hfails := hwithout ["ab"] "b" [] [' ', 'a', 'b'] [] (List.Perm.refl texts)
      ((Spaced.single ['a', 'b']).blanks_append (hblank (by decide +kernel))) (.nil (by simp))
    rw [hskip] at hfails
    exact hfails

/-- A literal with a tab in it is not found where tabs are replaced by blanks. -/
theorem not_each_literal_tab :
    let set : CharSet := ⟨[⟨'\t', '\n'⟩, ⟨'\r', '\r'⟩, ⟨' ', ' '⟩]⟩
    Text.StartsOutside set ['a', '\t', 'b'] ∧ Spaced set.contains [['a', '\t', 'b']] ['a', '\t', 'b'] ∧
      ∃ g, (Builder.anyOrder set ["a\tb"]).build 1 = .ok g ∧
        ((Parser.mk g {} default (State.initial {})).parse ['a', '\t', 'b'] true).1.outcome.isOk = false := by
  intro set
  have hfails : ((Builder.anyOrder set ["a\tb"]).build 1).toOption.any (fun g =>
      !((Parser.mk g {} default (State.initial {})).parse ['a', '\t', 'b'] true).1.outcome.isOk) = true := by
    decide +kernel
  cases hbuild : (Builder.anyOrder set ["a\tb"]).build 1 with
  | error e =>
    rw [hbuild] at hfails
    exact absurd hfails Bool.false_ne_true
  | ok g =>
    rw [hbuild] at hfails
    exact ⟨⟨'a', rfl, by decide +kernel⟩, Spaced.single _, g, rfl, by simpa [Except.toOption] using hfails⟩

end Packrat
