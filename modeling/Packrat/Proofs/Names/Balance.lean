import Packrat.Proofs.Building.Naming
import Packrat.Proofs.Names.Braces

/-!
# `Packrat.Proofs.Names.Balance` — which names have balanced braces

The default name of a node is put together from those of its children. Where the nodes' own texts have no braces, every
name has as many opening as closing ones, and only sequences can unbalance them: those that strip two braces at each end
of several parts. These are the parts of the sequence itself, or those of a choice that is its only part, whose own
braces are stripped first.

## Contents

* `Node.Plain`, `NamedPlainly` — nodes whose own texts have no braces, and their names;
* `KeptByNaming.name` — **names of all nodes but sequences keep braces balanced**;
* `Flanks`, `Unpairs` — the two ends of what a sequence strips, and sequences that strip too much of them;
* `NamedPlainly.balanced_iff` — names are balanced when no sequence in them strips too much;
* `Builder.names_balanced_iff` — **which names of an arena have balanced braces**.
-/

namespace Packrat

open Text

/-! ## Texts of the nodes' own -/

/-- The texts of an expression that its default name shows. -/
def NodeKind.shownTexts : NodeKind → List Text
  | .literal text _ | .keyword text _ _ => [text.toList]
  | .word init body _ _ => [init.describe.toList, body.describe.toList]
  | .charsNotIn excluded _ _ => [excluded.describe.toList]
  | .pattern source _ => [source.toList]
  | .forward label _ => [label.toList]
  | _ => []

/-- A node without a name of its own, and without braces in the texts that its default name shows. -/
structure Node.Plain (n : Node) : Prop where
  unnamed : n.customName = none
  braceless : ∀ t ∈ n.kind.shownTexts, t.Braceless

instance (n : Node) : Decidable n.Plain :=
  decidable_of_iff (n.customName = none ∧ ∀ t ∈ n.kind.shownTexts, t.Braceless)
    ⟨fun h => ⟨h.1, h.2⟩, fun h => ⟨h.unnamed, h.braceless⟩⟩

theorem mem_quoteName {t : Text} {c : Char} (h : c ∈ quoteName t) : c ∈ t ∨ c ∈ ['"', '\\', '\''] := by
  unfold quoteName at h
  split at h
  · simp at h ⊢
    tauto
  · simp only [List.cons_append, List.mem_cons, List.mem_append, List.mem_flatMap, List.not_mem_nil, or_false] at h
    obtain rfl | ⟨d, hd, hc⟩ | rfl := h
    · exact Or.inr (by simp)
    · split at hc
      · exact Or.inr (List.mem_cons_of_mem _ hc)
      · exact Or.inl (List.mem_singleton.mp hc ▸ hd)
    · exact Or.inr (by simp)

theorem braceless_quoteName {t : Text} (h : Braceless t) : Braceless (quoteName t) := by
  refine ⟨fun hc => ?_, fun hc => ?_⟩
  · exact (mem_quoteName hc).elim h.1 (by decide)
  · exact (mem_quoteName hc).elim h.2 (by decide)

theorem braceless_setName {s : CharSet} (h : Braceless s.describe.toList) : Braceless (setName s) := by
  unfold setName
  dsimp only
  split
  · exact (h.of_subset (List.take_subset _ _)).append (by decide)
  · exact h

theorem braceless_numberText (n : Nat) : Braceless (numberText n) := by
  have hdigit {c : Char} (hc : c ∈ numberText n) : c.isDigit = true :=
    Nat.isDigit_of_mem_toDigits (by decide) (by decide) hc
  exact ⟨fun hc => absurd (hdigit hc) (by decide), fun hc => absurd (hdigit hc) (by decide)⟩

/-- A repetition puts its child into brackets or braces with dots behind them, or puts counts in braces behind it. -/
theorem repetitionName_cases (t : Text) (min : Nat) (max : Option Nat) :
    repetitionName t min max = '[' :: (t ++ "]...".toList) ∨ repetitionName t min max = braced t ++ "...".toList ∨
      ∃ counts, Braceless counts ∧ repetitionName t min max = t ++ braced counts := by
  have hnumber := braceless_numberText
  have hcomma : Braceless [','] := by decide
  unfold repetitionName
  split
  · exact Or.inl rfl
  · exact Or.inr (Or.inl rfl)
  · exact Or.inr (Or.inr ⟨_, (hnumber _).append hcomma, rfl⟩)
  · split
    · exact Or.inr (Or.inr ⟨_, hnumber _, rfl⟩)
    · exact Or.inr (Or.inr ⟨_, ((hnumber _).append hcomma).append (hnumber _), rfl⟩)

theorem not_doubled_repetitionName (t : Text) (min : Nat) (max : Option Nat) :
    ¬ Doubled (repetitionName t min max) (repetitionName t min max) := by
  have hdots : ¬ ['\x7d', '\x7d'] <:+ braced t ++ '.' :: ['.', '.'] := by
    rw [suffix_append_cons_iff (by decide)]
    decide
  -- it begins with a bracket, or ends with dots, or ends with a pair of braces around counts
  rcases repetitionName_cases t min max with hname | hname | ⟨counts, hcounts, hname⟩ <;> rw [hname]
  · exact not_doubled_cons (by decide)
  · exact fun hd => hdots hd.2
  · exact not_doubled_append_braced hcounts

/-! ## Names of all nodes but sequences -/

theorem mapM_some (name : ExprId → Text) (cs : List ExprId) : (cs.mapM fun j => some (name j)) = some (cs.map name) :=
  List.mapM_pure

namespace KeptByNaming

variable {P : Text → Prop} (h : KeptByNaming P)
include h

theorem tagged {word : String} {t : Text} (hword : Braceless word.toList) (ht : P t) : P (tagged word t) :=
  h.append (h.append (h.braceless (hword.append (by decide))) ht) (h.braceless (by decide))

theorem repetitionName {t : Text} (min : Nat) (max : Option Nat) (ht : P t) : P (repetitionName t min max) := by
  rcases repetitionName_cases t min max with hname | hname | ⟨counts, hcounts, hname⟩ <;> rw [hname]
  · exact h.append (h.braceless (by decide : Braceless ['['])) (h.append ht (h.braceless (by decide)))
  · exact h.append (h.braced ht) (h.braceless (by decide))
  · exact h.append ht (h.braced (h.braceless hcounts))

/-- **Names of all nodes but sequences keep braces balanced**, as they keep all that is kept by naming. -/
theorem name {k : NodeKind} {name : ExprId → Text} {t : Text} (hk : ∀ s ∈ k.shownTexts, s.Braceless)
    (hseq : k.isSequence = false) (hparts : ∀ j ∈ k.nameParts, P (name j))
    (ht : k.defaultName? (fun j => some (name j)) = some t) : P t := by
  have hown {s : Text} (ht : some s = some t) (hs : P s) : P t := Option.some.inj ht ▸ hs
  have hfixed {s : Text} (ht : some s = some t) (hs : Braceless s) : P t := hown ht (h.braceless hs)
  have hchild {c : ExprId} (hparts : ∀ j ∈ [c], P (name j)) : P (name c) := hparts c List.mem_cons_self
  cases k with
  | sequence cs => exact absurd hseq (by simp [NodeKind.isSequence])
  | orderedChoice cs | longestChoice cs | each cs =>
    rw [NodeKind.defaultName?, mapM_some] at ht
    exact hown ht (h.braced (h.join (by decide) (List.forall_mem_map.mpr hparts)))
  | literal text | keyword text => exact hfixed ht (braceless_quoteName (hk _ List.mem_cons_self))
  | word init body =>
    have hinit : Braceless (setName init) := braceless_setName (hk _ List.mem_cons_self)
    have hbody : Braceless (setName body) := braceless_setName (hk _ (List.mem_cons_of_mem _ List.mem_cons_self))
    refine hown ht (h.tagged (by decide) (h.braceless ?_))
    split
    · exact hinit
    · exact (hinit.append (by decide)).append hbody
  | charsNotIn excluded =>
    exact hown ht (h.tagged (by decide) (h.braceless (braceless_setName (hk _ List.mem_cons_self))))
  | pattern source =>
    exact hown ht (h.tagged (by decide) (h.braceless (braceless_quoteName (hk _ List.mem_cons_self))))
  | forward label => exact hfixed ht (Braceless.append (by decide) (hk _ List.mem_cons_self))
  | repetition c min max => exact hown ht (h.repetitionName min max (hchild hparts))
  | optional c =>
    have hname : P (['['] ++ name c ++ [']']) :=
      h.append (h.append (h.braceless (by decide)) (hchild hparts)) (h.braceless (by decide))
    exact hown ht hname
  | notAhead c =>
    have hname : P (['~'] ++ Packrat.braced (name c)) := h.append (h.braceless (by decide)) (h.braced (hchild hparts))
    exact hown ht hname
  | transform c | named c => exact hown ht (hchild hparts)
  | lookahead | precededBy | group | dict | suppress | combine | originalText | skipTo =>
    exact hown ht (h.tagged (by decide) (hchild hparts))
  | empty | noMatch | stringStart | stringEnd | lineStart | lineEnd | wordStart | wordEnd | commit =>
    exact hfixed ht (by decide)

end KeptByNaming

/-! ## Lone parts -/

/-- The parts that come to stand at the ends of a lone part when its braces are stripped: those of a choice, or the
child whose name it has. -/
def NodeKind.opened : NodeKind → Option (List ExprId)
  | .transform c _ | .named c _ _ => some [c]
  | .orderedChoice cs | .longestChoice cs | .each cs => some cs
  | _ => none

theorem NodeKind.nameParts_of_opened {k : NodeKind} {cs : List ExprId} (h : k.opened = some cs) : k.nameParts = cs := by
  cases k <;> simp_all [opened, nameParts]

section Kind

variable {k : NodeKind} {name : ExprId → Text} {t : Text}

/-- A part that is opened is stripped like its own parts in a row. -/
theorem stripBraces_of_opened {cs : List ExprId} (hopened : k.opened = some cs)
    (ht : k.defaultName? (fun j => some (name j)) = some t) :
    ∃ separator, IsSeparator separator ∧ stripBraces t = stripBraces (joinNames separator (cs.map name)) := by
  have hrow {separator : String} (hsep : IsSeparator separator)
      (ht : ((cs.mapM fun j => some (name j)).map fun ns => braced (joinNames separator ns)) = some t) :
      ∃ separator, IsSeparator separator ∧ stripBraces t = stripBraces (joinNames separator (cs.map name)) := by
    rw [mapM_some] at ht
    obtain rfl := Option.some.inj ht
    exact ⟨separator, hsep, stripBraces_braced _⟩
  cases k with
  | orderedChoice cs' | longestChoice cs' | each cs' =>
    obtain rfl := Option.some.inj hopened
    exact hrow ⟨by decide, by decide⟩ ht
  | transform c | named c =>
    obtain rfl := Option.some.inj hopened
    obtain rfl := Option.some.inj ht
    exact ⟨" ", ⟨by decide, by decide⟩, by rw [List.map_singleton, joinNames_singleton]⟩
  | _ => exact absurd hopened (by simp [NodeKind.opened])

/-- A part that is not opened does not have two braces at each end. -/
theorem not_doubled_of_opened (hk : ∀ s ∈ k.shownTexts, s.Braceless) (hopened : k.opened = none)
    (ht : k.defaultName? (fun j => some (name j)) = some t) : ¬ Doubled t t := by
  have hown {s : Text} (ht : some s = some t) (hs : ¬ Doubled s s) : ¬ Doubled t t := Option.some.inj ht ▸ hs
  cases k with
  | orderedChoice | longestChoice | each | transform | named => exact absurd hopened (by simp [NodeKind.opened])
  | sequence cs =>
    rw [NodeKind.defaultName?, mapM_some] at ht
    exact hown ht (not_doubled_stripBraces _)
  | repetition c min max => exact hown ht (not_doubled_repetitionName _ min max)
  | optional | notAhead => exact hown ht (not_doubled_cons (by decide))
  | literal | keyword => exact hown ht (not_doubled_of_braceless (braceless_quoteName (hk _ List.mem_cons_self)))
  | forward => exact hown ht (not_doubled_of_braceless (Braceless.append (by decide) (hk _ List.mem_cons_self)))
  | word | charsNotIn | pattern | lookahead | precededBy | group | dict | suppress | combine | originalText | skipTo =>
    exact hown ht (not_doubled_tagged (by decide))
  | empty | noMatch | stringStart | stringEnd | lineStart | lineEnd | wordStart | wordEnd | commit =>
    exact hown ht (not_doubled_of_braceless (by decide))

end Kind

/-! ## What a sequence strips -/

section Arena

variable {nodes : Array Node} {name : ExprId → Text} {i j first last : ExprId} {k : NodeKind} {cs : List ExprId}

/-- The first and the last of several parts in a row. A lone part is opened, and counts as what stands in it. -/
inductive Flanks (nodes : Array Node) : List ExprId → ExprId → ExprId → Prop
  | several (first : ExprId) (mid : List ExprId) (last : ExprId) : Flanks nodes (first :: (mid ++ [last])) first last
  | lone {c : ExprId} {k : NodeKind} {cs : List ExprId} {first last : ExprId} :
    kindOf? nodes c = some k → k.opened = some cs → Flanks nodes cs first last → Flanks nodes [c] first last

theorem not_flanks_nil : ¬ Flanks nodes [] first last := nofun

theorem flanks_several_iff {first' last' : ExprId} {mid : List ExprId} :
    Flanks nodes (first' :: (mid ++ [last'])) first last ↔ first' = first ∧ last' = last := by
  constructor
  · intro h
    generalize hcs : first' :: (mid ++ [last']) = cs at h
    cases h with
    | several _ mid' _ =>
      obtain ⟨hfirst, hrest⟩ := List.cons.inj hcs
      exact ⟨hfirst, List.singleton_inj.mp (List.append_inj_right' hrest rfl)⟩
    | lone => simp at hcs
  · rintro ⟨rfl, rfl⟩
    exact .several ..

theorem flanks_lone_iff (hk : kindOf? nodes i = some k) :
    Flanks nodes [i] first last ↔ ∃ cs, k.opened = some cs ∧ Flanks nodes cs first last := by
  constructor
  · intro h
    generalize hcs : [i] = cs at h
    cases h with
    | several => simp at hcs
    | lone hk' hopened h =>
      obtain rfl := List.singleton_inj.mp hcs
      obtain rfl := Option.some.inj (hk.symm.trans hk')
      exact ⟨_, hopened, h⟩
  · rintro ⟨cs, hopened, h⟩
    exact .lone hk hopened h

/-- A sequence that strips two braces at each end of several parts. -/
def Unpairs (nodes : Array Node) (name : ExprId → Text) (i : ExprId) : Prop :=
  ∃ cs first last,
    kindOf? nodes i = some (.sequence cs) ∧ Flanks nodes cs first last ∧ Doubled (name first) (name last)

/-- A node, the nodes whose names make up its name, those whose names make up theirs, and so on. -/
def NamePart (nodes : Array Node) : ExprId → ExprId → Prop := Relation.ReflTransGen fun i j => j ∈ nameEdges nodes i

/-- Plain nodes with default names, which are made of those of earlier nodes. -/
structure NamedPlainly (nodes : Array Node) (name : ExprId → Text) : Prop where
  plain : ∀ {i : ExprId} {n : Node}, nodes[i]? = some n → n.Plain
  default : ∀ {i : ExprId} {k : NodeKind}, kindOf? nodes i = some k →
    k.defaultName? (fun j => some (name j)) = some (name i)
  earlier : ∀ {i j : ExprId} {k : NodeKind}, kindOf? nodes i = some k → j ∈ k.nameParts → j < i

theorem exists_kindOf? (hi : i < nodes.size) : ∃ k, kindOf? nodes i = some k :=
  ⟨_, by rw [kindOf?, Array.getElem?_eq_getElem hi, Option.map_some]⟩

namespace NamedPlainly

variable (h : NamedPlainly nodes name)
include h

theorem nameEdges_eq (hk : kindOf? nodes i = some k) : nameEdges nodes i = k.nameParts := by
  obtain ⟨n, hn, rfl⟩ := Option.map_eq_some_iff.mp hk
  rw [nameEdges, edgesOf_of_getElem? hn, Node.nameParts, (h.plain hn).unnamed]

theorem braceless (hk : kindOf? nodes i = some k) : ∀ t ∈ k.shownTexts, t.Braceless := by
  obtain ⟨n, hn, rfl⟩ := Option.map_eq_some_iff.mp hk
  exact (h.plain hn).braceless

theorem namePart_of_mem (hk : kindOf? nodes i = some k) {l : ExprId} (hj : j ∈ k.nameParts) (hl : NamePart nodes j l) :
    NamePart nodes i l :=
  .head (by rwa [h.nameEdges_eq hk]) hl

/-- Names lead to earlier nodes. -/
theorem le_of_namePart (hij : NamePart nodes i j) : j ≤ i := by
  induction hij with
  | refl => exact le_refl i
  | @tail j l _ hjl ih =>
    cases hk : kindOf? nodes j with
    | none => simp [nameEdges, edgesOf, Option.map_eq_none_iff.mp hk] at hjl
    | some k =>
      rw [h.nameEdges_eq hk] at hjl
      exact (h.earlier hk hjl).le.trans ih

theorem name_sequence (hk : kindOf? nodes i = some (.sequence cs)) :
    name i = braced (stripBraces (joinNames " " (cs.map name))) := by
  have hname := h.default hk
  rw [NodeKind.defaultName?, mapM_some] at hname
  exact (Option.some.inj hname).symm

/-- A node is a sequence, or its name keeps what naming keeps. -/
theorem kept {P : Text → Prop} (hP : KeptByNaming P) (hk : kindOf? nodes i = some k)
    (hparts : ∀ j ∈ k.nameParts, P (name j)) : (∃ cs, k = .sequence cs) ∨ P (name i) := by
  cases hseq : k.isSequence with
  | true =>
    left
    cases k <;> simp_all [NodeKind.isSequence]
  | false => exact Or.inr (hP.name (h.braceless hk) hseq hparts (h.default hk))

/-- Names open as many braces as they close. -/
theorem evenBraces (hi : i < nodes.size) : (name i).EvenBraces := by
  induction i using Nat.strong_induction_on with
  | _ i ih =>
    obtain ⟨k, hk⟩ := exists_kindOf? hi
    have hparts : ∀ j ∈ k.nameParts, (name j).EvenBraces :=
      fun j hj => ih j (h.earlier hk hj) ((h.earlier hk hj).trans hi)
    rcases h.kept keptByNaming_evenBraces hk hparts with ⟨cs, rfl⟩ | heven
    · rw [h.name_sequence hk]
      refine keptByNaming_evenBraces.braced ((evenBraces_stripBraces _).mpr ?_)
      exact keptByNaming_evenBraces.join (by decide) (List.forall_mem_map.mpr hparts)
    · exact heven

/-- **When braces stay balanced although they are stripped**: no two are stripped at each end of several parts. -/
theorem balanced_stripped_iff {bound : Nat} (hbound : bound ≤ nodes.size) (hcs : ∀ c ∈ cs, c < bound)
    (hparts : ∀ c ∈ cs, ∀ j, NamePart nodes c j → (name j).Balanced) {separator : String}
    (hsep : IsSeparator separator) :
    (braced (stripBraces (joinNames separator (cs.map name)))).Balanced ↔
      ∀ first last, Flanks nodes cs first last → ¬ Doubled (name first) (name last) := by
  -- a lone part is opened to earlier ones, so the induction is on what all parts are before
  induction bound using Nat.strong_induction_on generalizing cs separator with
  | _ bound ih =>
  rcases cs with _ | ⟨c, cs⟩
  · -- no parts
    have hnil := balanced_of_not_doubled (keptByNaming_balanced.braceless (by decide : Braceless []))
      (not_doubled_of_braceless (by decide))
    exact iff_of_true hnil fun _ _ hflanks => absurd hflanks not_flanks_nil
  rcases List.eq_nil_or_concat cs with rfl | ⟨mid, last, rfl⟩
  · -- a lone part, which is opened or has no second brace to lose
    have hc : c < bound := hcs c List.mem_cons_self
    obtain ⟨k, hk⟩ := exists_kindOf? (hc.trans_le hbound)
    rw [List.map_singleton, joinNames_singleton]
    simp only [flanks_lone_iff hk]
    cases hopened : k.opened with
    | none =>
      have hname := hparts c List.mem_cons_self c .refl
      have hdoubled := not_doubled_of_opened (h.braceless hk) hopened (h.default hk)
      exact iff_of_true (balanced_of_not_doubled hname hdoubled) (by simp)
    | some ds =>
      obtain ⟨separator', hsep', hstrip⟩ := stripBraces_of_opened hopened (h.default hk)
      obtain rfl := NodeKind.nameParts_of_opened hopened
      rw [hstrip, ih c hc (hc.le.trans hbound) (fun d hd => h.earlier hk hd)
        (fun d hd j hj => hparts c List.mem_cons_self j (h.namePart_of_mem hk hd hj)) hsep']
      simp
  · -- several parts
    rw [List.concat_eq_append] at hparts ⊢
    have hnames : ∀ t ∈ (c :: (mid ++ [last])).map name, t.Balanced :=
      List.forall_mem_map.mpr fun d hd => hparts d hd d .refl
    rw [List.map_cons, List.map_append, List.map_singleton] at hnames ⊢
    rw [balanced_join_iff hsep hnames]
    simp [flanks_several_iff]

/-- A sequence whose parts have balanced braces has, too, unless it strips too much. -/
theorem balanced_sequence_iff (hi : i < nodes.size) (hk : kindOf? nodes i = some (.sequence cs))
    (hparts : ∀ c ∈ cs, ∀ j, NamePart nodes c j → (name j).Balanced) :
    (name i).Balanced ↔ ¬ Unpairs nodes name i := by
  have hcs : ∀ c ∈ cs, c < i := fun c hc => h.earlier hk hc
  rw [h.name_sequence hk, h.balanced_stripped_iff hi.le hcs hparts ⟨by decide, by decide⟩]
  constructor
  · rintro hflanks ⟨cs', first, last, hk', hends, hdoubled⟩
    obtain rfl := NodeKind.sequence.inj (Option.some.inj (hk.symm.trans hk'))
    exact hflanks first last hends hdoubled
  · exact fun hunpairs first last hends hdoubled => hunpairs ⟨cs, first, last, hk, hends, hdoubled⟩

/-- **A name and all that it is made of have balanced braces when no sequence in it strips too much.** -/
theorem balanced_iff (hi : i < nodes.size) :
    (∀ j, NamePart nodes i j → (name j).Balanced) ↔ ∀ j, NamePart nodes i j → ¬ Unpairs nodes name j := by
  have hlt {j : ExprId} (hj : NamePart nodes i j) : j < nodes.size := (h.le_of_namePart hj).trans_lt hi
  constructor
  · rintro hall j hj hunpairs
    obtain ⟨cs, -, -, hk, -⟩ := id hunpairs
    refine (h.balanced_sequence_iff (hlt hj) hk fun c hc l hl => ?_).mp (hall j hj) hunpairs
    exact hall l (hj.trans (h.namePart_of_mem hk hc hl))
  · intro hnone j hj
    induction j using Nat.strong_induction_on with
    | _ j ih =>
      obtain ⟨k, hk⟩ := exists_kindOf? (hlt hj)
      have hbelow {c l : ExprId} (hc : c ∈ k.nameParts) (hl : NamePart nodes c l) : (name l).Balanced :=
        ih l ((h.le_of_namePart hl).trans_lt (h.earlier hk hc)) (hj.trans (h.namePart_of_mem hk hc hl))
      rcases h.kept keptByNaming_balanced hk fun c hc => hbelow hc .refl with ⟨cs, rfl⟩ | hbalanced
      · exact (h.balanced_sequence_iff (hlt hj) hk fun c hc l hl => hbelow hc hl).mpr (hnone j hj)
      · exact hbalanced

end NamedPlainly

end Arena

/-! ## Arenas -/

namespace Builder

variable {b : Builder}

/-- What a node is called; nothing if its name does not end. -/
def nameText (b : Builder) (i : ExprId) : Text := (nameOf? b.nodes i).getD []

/-- A builder that uses only what it made finds the names of all nodes. -/
theorem Made.nameOf?_eq (h : b.Made) {i : ExprId} (hi : i < b.size) : nameOf? b.nodes i = some (b.nameText i) := by
  have hsome : (nameOf? b.nodes i).isSome := forall_isSome_nameOf?_iff.mpr h.namesEnd i hi
  rw [nameText, ← Option.some_get hsome, Option.getD_some]

theorem Made.namedPlainly (h : b.Made) (hplain : ∀ n ∈ b.nodes, n.Plain) : NamedPlainly b.nodes b.nameText := by
  have hplain {i : ExprId} {n : Node} (hn : b.nodes[i]? = some n) : n.Plain := hplain n (Array.mem_of_getElem? hn)
  have hearlier {i j : ExprId} {k : NodeKind} (hk : kindOf? b.nodes i = some k) (hj : j ∈ k.nameParts) : j < i := by
    obtain ⟨n, hn, rfl⟩ := Option.map_eq_some_iff.mp hk
    exact h.orderly.namePart_lt hn hj
  refine ⟨hplain, fun {i k} hk => ?_, hearlier⟩
  have hi : i < b.size := lt_size_of_kindOf? hk
  have hparts : ∀ j ∈ k.nameParts, nameOf? b.nodes j = some (b.nameText j) :=
    fun j hj => h.nameOf?_eq ((hearlier hk hj).trans hi)
  obtain ⟨n, hn, rfl⟩ := Option.map_eq_some_iff.mp hk
  have hfound := h.nameOf?_eq hi
  rw [Packrat.nameOf?_eq hn (hplain hn).unnamed (Option.isSome_of_eq_some hfound)] at hfound
  rw [← hfound]
  exact (n.kind.defaultName?_congr hparts).symm

/-- **Which default names have balanced braces.** In an arena of plain nodes, made with handles of its own builder,
every node has a name, which it keeps when a grammar is built, and which has as many opening as closing braces. Which
names are balanced is up to the sequences: a name, and all names that it is made of, are balanced just if none of these
is the name of a sequence that strips two braces at each end of several parts. -/
theorem names_balanced_iff (h : b.Made) (hplain : ∀ n ∈ b.nodes, n.Plain) :
    (∀ i < b.size, nameOf? b.nodes i = some (b.nameText i)) ∧
    (∀ root, b.Accepts root →
      ∃ g, b.build root = .ok g ∧ ∀ i < b.size, (g.rule i).display = String.ofList (b.nameText i)) ∧
    (∀ i < b.size, (b.nameText i).count '\x7b' = (b.nameText i).count '\x7d') ∧
    ∀ i < b.size, (∀ j, NamePart b.nodes i j → (b.nameText j).Balanced) ↔
      ∀ j, NamePart b.nodes i j → ¬ Unpairs b.nodes b.nameText j := by
  have hnamed := h.namedPlainly hplain
  refine ⟨fun i hi => h.nameOf?_eq hi, fun root haccepts => ?_, fun i hi => hnamed.evenBraces hi,
    fun i hi => hnamed.balanced_iff hi⟩
  obtain ⟨g, hbuild, -, hnames⟩ := haccepts.exists_build_eq h
  refine ⟨g, hbuild, fun i hi => hnames i _ ?_ hi⟩
  rw [nameOf?_passDown, h.nameOf?_eq hi]

/-- A choice in a choice, twice in one sequence and once in another. -/
def nestedChoices : Builder :=
  .ofCalls [.literal "a" false, .orderedChoice [0], .orderedChoice [1], .sequence [2, 2], .sequence [2]]

theorem names_balanced_iff_nestedChoices :
    nestedChoices.Made ∧ (∀ n ∈ nestedChoices.nodes, n.Plain) ∧
    (∀ i < nestedChoices.size, nameOf? nestedChoices.nodes i = some (nestedChoices.nameText i)) ∧
    (∀ root, nestedChoices.Accepts root → ∃ g, nestedChoices.build root = .ok g ∧
      ∀ i < nestedChoices.size, (g.rule i).display = String.ofList (nestedChoices.nameText i)) ∧
    (∀ i < nestedChoices.size, (nestedChoices.nameText i).count '\x7b' = (nestedChoices.nameText i).count '\x7d') ∧
    ∀ i < nestedChoices.size, (∀ j, NamePart nestedChoices.nodes i j → (nestedChoices.nameText j).Balanced) ↔
      ∀ j, NamePart nestedChoices.nodes i j → ¬ Unpairs nestedChoices.nodes nestedChoices.nameText j := by
  have hmade : nestedChoices.Made := made_ofCalls (by decide)
  have hplain : ∀ n ∈ nestedChoices.nodes, n.Plain := by decide +kernel
  exact ⟨hmade, hplain, names_balanced_iff hmade hplain⟩

/-- The sequence of two strips both choices, and puts one brace back at each end. Its name closes two braces before it
opens a second one. -/
theorem not_balanced_nestedChoices :
    nestedChoices.Made ∧ (∀ n ∈ nestedChoices.nodes, n.Plain) ∧
    (∃ g, nestedChoices.build 3 = .ok g ∧ (g.rule 3).display = "\x7b'a'\x7d\x7d \x7b\x7b'a'\x7d") ∧
    ¬ Balanced "\x7b'a'\x7d\x7d \x7b\x7b'a'\x7d".toList := by
  have hmade : nestedChoices.Made := made_ofCalls (by decide)
  have haccepts : nestedChoices.Accepts 3 := ⟨by decide, by decide, by decide, by decide⟩
  obtain ⟨g, hbuild, -, hnames⟩ := haccepts.exists_build_eq hmade
  have hname : nameOf? nestedChoices.nodes 3 = some "\x7b'a'\x7d\x7d \x7b\x7b'a'\x7d".toList := by decide +kernel
  refine ⟨hmade, by decide +kernel, ⟨g, hbuild, ?_⟩, fun hbalanced => absurd (hbalanced.front 6) (by decide)⟩
  rw [hnames 3 _ ((nameOf?_passDown _ _).trans hname) (by decide), String.ofList_toList]

example : nameOf? nestedChoices.nodes 4 = some "\x7b'a'\x7d".toList := by decide +kernel

end Builder

end Packrat
