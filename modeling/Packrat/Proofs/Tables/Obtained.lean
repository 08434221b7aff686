import Packrat.Proofs.Coupling.Runs
import Packrat.Proofs.Tables.Produced
import Packrat.Proofs.Tables.Programs

/-!
# `Packrat.Proofs.Tables.Obtained` — all results that can be obtained are in order

Results come from editing, and from parses and scans. Actions are programs too, which may edit what they are given and may
parse on their own; so all that anyone can obtain is told by one induction, over which results are made from which others.

## Contents

* `Grammar.preserves_inOrderThroughout` — matching preserves tables in order;
* `Obtained` — results that are obtained from given ones by edits, parses and scans;
* `Obtained.inOrderThroughout` — these have all tables in order if the given ones have;
* `consistent_of_obtained` — **on all results that can be obtained, and on all groups inside them, lookups agree**.
-/

namespace Packrat

/-- Matching preserves tables in order, if the groups among the defaults of a grammar have them, and its actions keep
them. -/
theorem Grammar.preserves_inOrderThroughout {g : Grammar}
    (hdefault : ∀ i child r, (g.rule i).kind = .optional child (some (.group r)) → r.InOrderThroughout)
    (haction : ∀ i child action, (g.rule i).kind = .transform child action →
      ∀ c r r', r.InOrderThroughout → (action.run c r).outcome = .ok r' → r'.InOrderThroughout) :
    g.Preserves ResultsOf.InOrderThroughout where
  nothing := ResultsOf.inOrderThroughout_empty
  text _ := ResultsOf.inOrderThroughout_single (Value.inOrder_leaf _)
  setText name _ h := h.setField name (Value.inOrder_leaf _)
  dropTokens h := h.setTokens (List.forall_mem_nil _)
  onlyText _ h := h.setTokens (List.forall_mem_singleton.mpr (Value.inOrder_leaf _))
  extend h hother := h.extend hother
  withOrigin id h := h.withOrigin id
  nameTokens name accumulates asList h := h.nameTokens name accumulates asList
  group h := ResultsOf.inOrderThroughout_single (Value.inOrder_group.mpr h)
  nameGroupsByKey h := h.nameGroupsByKey
  default {i child _} hk := ResultsOf.inOrderThroughout_single fun r hr => hdefault i child r (hr ▸ hk)
  action {i child action} hk {c r r'} h hok := haction i child action hk c r r' h hok

/-! ## Results that can be obtained -/

/-- Results that are obtained from given ones: the given ones, the groups inside, what the names of a program of edits
show, and what parses and scans produce. What a program brings in is obtained before, and so are the groups among the
defaults of a grammar; its actions obtain what they give from the given results and the match that they are run on. A
group that an edit takes away was inside before, and is obtained as such. -/
inductive Obtained : (given : List Results) → Results → Prop
  | given {given : List Results} {r : Results} : r ∈ given → Obtained given r
  | inside {given : List Results} {r g : Results} : Obtained given r → r.HasGroup g → Obtained given g
  | edited {given : List Results} (ops : List Shared.Op) (name : String) :
      (∀ op ∈ ops, ∀ r ∈ op.brings, Obtained given r) →
      Obtained given ((Shared.run Shared.Registers.step {} ops).2.tree name)
  | produced {given : List Results} {g : Grammar} {r : Results} :
      (∀ i child r, (g.rule i).kind = .optional child (some (.group r)) → Obtained given r) →
      (∀ i child action, (g.rule i).kind = .transform child action →
        ∀ c r r', (action.run c r).outcome = .ok r' → Obtained (r :: given) r') →
      g.Produces r → Obtained given r

/-- What is obtained has all tables in order if what was given has. -/
theorem Obtained.inOrderThroughout {given : List Results} {r : Results} (h : Obtained given r)
    (hgiven : ∀ x ∈ given, x.InOrderThroughout) : r.InOrderThroughout := by
  induction h with
  | given hr => exact hgiven _ hr
  | inside _ hgroup ih => exact fun g' hwithin => ih hgiven g' (.head hgroup hwithin)
  | edited ops name _ ih =>
    refine Shared.inOrderThroughout_run Shared.Registers.sound_empty (fun _ => ?_) (fun op hop r hr => ?_) name
    · exact ResultsOf.inOrderThroughout_empty
    · exact ih op hop r hr hgiven
  | produced _ _ hproduced ihdefault ihaction =>
    refine (Grammar.preserves_inOrderThroughout ?_ ?_).of_produces hproduced
    · exact fun i child r hk => ihdefault i child r hk hgiven
    · exact fun i child action hk c r r' hr hok =>
        ihaction i child action hk c r r' hok (List.forall_mem_cons.mpr ⟨hr, hgiven⟩)

/-- **On all results that can be obtained, and on all groups inside them, lookups agree**: whatever sequence of edits, of
the results or of groups inside, and whatever parses and scans give them, fields have different names and at least one
entry each, and a name is that of a field, has a value, shows something and has a list of values alike, the last of them
the one that stands for it; the keys of the map are the names. -/
theorem consistent_of_obtained {r : Results} (h : Obtained [] r) {g : Results}
    (hwithin : Relation.ReflTransGen ResultsOf.HasGroup r g) : g.Consistent :=
  (h.inOrderThroughout (List.forall_mem_nil _) g hwithin).consistent

/-- An action that records a second value under a name in the group that it is run on. -/
def recordsAgain : Action := .ofMap fun r =>
  (Shared.run Shared.Registers.step {} [.assign "r" r, .edit "r" [0] (.made (.appendField "f" (.str "b")))]).2.tree "r"

theorem consistent_of_obtained_recordsAgain :
    let grammar := Grammar.ofKinds [.literal "a" false, .named 0 "f" false, .group 1, .transform 2 recordsAgain] 3
    ∃ r g, (grammar.parse {} default ['a'] true).outcome = .ok r ∧ Obtained [] r ∧ r.HasGroup g ∧ g.Consistent ∧
      (g.fieldValues "f").map Value.str? = [some "a", some "b"] := by
  intro grammar
  have hparse : (grammar.parse {} default ['a'] true).outcome.toOption.any (fun r =>
      (r.tokens.head?.bind Value.group?).any fun g =>
        (g.fieldValues "f").map Value.str? == [some "a", some "b"]) = true := by decide +kernel
  obtain ⟨r, hr, hgroup⟩ := (Option.any_eq_true _ _).mp hparse
  obtain ⟨g, hg, hvalues⟩ := (Option.any_eq_true _ _).mp hgroup
  have houtcome : (grammar.parse {} default ['a'] true).outcome = .ok r := by
    cases h : (grammar.parse {} default ['a'] true).outcome with
    | error e =>
      rw [h] at hr
      exact nomatch hr
    | ok r' =>
      rw [h] at hr
      exact congrArg _ (Option.some.inj hr)
  have hinside : r.HasGroup g := by
    obtain ⟨v, hv, hgroup⟩ := Option.bind_eq_some_iff.mp hg
    exact List.mem_append_left _ (Value.group?_eq_some.mp hgroup ▸ List.mem_of_head? hv)
  have hobtained : Obtained [] r := by
    refine .produced (g := grammar) (fun i child r hk => ?_) (fun i child action hk c r r' hok => ?_)
      (.parsed (Parser.new grammar {} default) ['a'] true rfl houtcome)
    · rcases i with _ | _ | _ | _ | i <;> exact nomatch hk
    · rcases i with _ | _ | _ | _ | i
      case succ.succ.succ.zero =>
        obtain rfl : recordsAgain = action := (NodeKind.transform.inj hk).2
        obtain rfl := Except.ok.inj hok
        refine .edited _ _ (List.forall_mem_cons.mpr ⟨?_, List.forall_mem_singleton.mpr (List.forall_mem_nil _)⟩)
        exact List.forall_mem_singleton.mpr (.given List.mem_cons_self)
      all_goals exact nomatch hk
  exact ⟨r, g, houtcome, hobtained, hinside, consistent_of_obtained hobtained (.single hinside), eq_of_beq hvalues⟩

end Packrat
