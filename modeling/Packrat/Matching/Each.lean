import Packrat.Matching.State

/-!
# `Packrat.Matching.Each` — children in any order

A first pass finds out, without actions, in which order the children occur; a second pass runs them in that
order. An optional child may be absent, and an unbounded repetition may occur several times in between.
-/

namespace Packrat

/-- How a child takes part. -/
inductive EachRole
  | required
  | optional
  | multi (required : Bool)
deriving DecidableEq, Repr, Inhabited

/-- A child: what is tested to find out whether it occurs, and what is run once the order is known. -/
structure EachItem where
  test : ExprId
  run : ExprId
  role : EachRole
deriving DecidableEq, Repr, Inhabited

namespace EachItem

/-- How a child takes part, by its expression. -/
def ofChild (child : ExprId) (kind : NodeKind) : EachItem :=
  match kind with
  | .optional inner _ => ⟨inner, child, .optional⟩
  | .repetition inner min none none => ⟨inner, inner, .multi (0 < min)⟩
  | _ => ⟨child, child, .required⟩

/-- Whether an item occurs at most once. -/
def isSingle (item : EachItem) : Bool :=
  match item.role with
  | .multi _ => false
  | _ => true

/-- Whether an item must occur. -/
def isNeeded (item : EachItem) : Bool :=
  match item.role with
  | .required | .multi true => true
  | _ => false

end EachItem

/-- An expression around another that it may leave out, or repeat without a bound: what stands in it is tested. -/
inductive NodeKind.Wraps : NodeKind → ExprId → Prop
  | optional (inner : ExprId) (default : Option Value) : (NodeKind.optional inner default).Wraps inner
  | repetition (inner : ExprId) (min : Nat) : (NodeKind.repetition inner min none none).Wraps inner

theorem NodeKind.Wraps.mem_children {k : NodeKind} {inner : ExprId} (h : k.Wraps inner) : inner ∈ k.children := by
  cases h <;> simp [children]

namespace EachItem

/-- What is tested for a child, and what is run for it, is the child or what stands in it. -/
theorem ofChild_within {N : ExprId → Prop} {child : ExprId} {kind : NodeKind} (hchild : N child)
    (hinner : ∀ inner, kind.Wraps inner → N inner) : N (ofChild child kind).test ∧ N (ofChild child kind).run := by
  unfold ofChild
  split
  · next inner default => exact ⟨hinner inner (.optional inner default), hchild⟩
  · next inner min => exact ⟨hinner inner (.repetition inner min), hinner inner (.repetition inner min)⟩
  · exact ⟨hchild, hchild⟩

/-- Each item stands for a child. -/
theorem exists_of_mem_items {kindOf : ExprId → NodeKind} {children : List ExprId} {x : EachItem × Nat}
    (hx : x ∈ (children.map fun child => ofChild child (kindOf child)).zipIdx) :
    ∃ child ∈ children, x.1 = ofChild child (kindOf child) := by
  obtain ⟨child, hchild, hx⟩ := List.mem_map.mp (List.fst_mem_of_mem_zipIdx hx)
  exact ⟨child, hchild, hx.symm⟩

/-- Items test and run nodes of a set that the children are in, together with what stands in them. -/
theorem items_within {N : ExprId → Prop} {kindOf : ExprId → NodeKind} {children : List ExprId}
    (hchildren : ∀ child ∈ children, N child) (hinner : ∀ child, N child → ∀ inner, (kindOf child).Wraps inner → N inner) :
    ∀ x ∈ (children.map fun child => ofChild child (kindOf child)).zipIdx, N x.1.test ∧ N x.1.run := by
  intro x hx
  obtain ⟨child, hchild, hx⟩ := exists_of_mem_items hx
  rw [hx]
  exact ofChild_within (hchildren child hchild) (hinner child (hchildren child hchild))

end EachItem

/-- What the first pass has found: how far it got, what to run, the latest first, and which items occurred. -/
structure Discovery where
  loc : Nat
  order : List ExprId
  seen : List Nat
deriving Inhabited

/-- One round over the items that may still occur; each one that matches is noted and passed over. -/
def discoverRound (attempt : Attempt) (c : Context) :
    List (EachItem × Nat) → Discovery → (progressed : Bool) → MatchM (Discovery × Bool)
  | [], d, progressed => pure (d, progressed)
  | (item, i) :: items, d, progressed => do
    if item.isSingle && d.seen.contains i then discoverRound attempt c items d progressed
    else
      match ← attempt c item.test d.loc false true with
      | .matched stop _ =>
        if item.isSingle || d.loc < stop then
          discoverRound attempt c items ⟨stop, item.run :: d.order, i :: d.seen⟩ true
        else discoverRound attempt c items d progressed
      | .failed _ => discoverRound attempt c items d progressed

/-- Rounds until one finds nothing. A round that finds something marks a new item or consumes text. -/
def discover (attempt : Attempt) (c : Context) (items : List (EachItem × Nat)) :
    (fuel : Nat) → Discovery → MatchM Discovery
  | 0, d => pure d
  | fuel + 1, d => do
    let (d, progressed) ← discoverRound attempt c items d false
    if progressed then discover attempt c items fuel d else pure d

/-- Runs children in order. -/
def runInOrder (attempt : Attempt) (c : Context) (acts : Bool) :
    (order : List ExprId) → (loc : Nat) → Results → MatchM Step
  | [], loc, results => pure (.matched loc results)
  | id :: ids, loc, results => do
    match ← attempt c id loc acts true with
    | .matched stop part => runInOrder attempt c acts ids stop (results.extend part)
    | .failed d => pure (.failed d)

/-- Whether an expression has a value that stands for it when it is absent. -/
def NodeKind.hasDefault : NodeKind → Bool
  | .optional _ (some _) => true
  | _ => false

/-- Matches all children in any order. -/
def matchEach (attempt : Attempt) (c : Context) (children : List ExprId) (start : Nat) (acts : Bool) :
    MatchM Step := do
  let items := (children.map fun child => EachItem.ofChild child (c.rule child).kind).zipIdx
  let found ← discover attempt c items (items.length + c.text.size + 2) ⟨start, [], []⟩
  let missing := items.filter fun (item, i) => item.isNeeded && !found.seen.contains i
  if !missing.isEmpty then
    let names := missing.map fun (item, _) => (c.rule item.test).display
    return .failed ⟨start, "Missing one or more required elements (" ++ ", ".intercalate names ++ ")"⟩
  let absent := items.filter fun (item, i) =>
    item.role == .optional && !found.seen.contains i && (c.rule item.run).kind.hasDefault
  runInOrder attempt c acts (found.order.reverse ++ absent.map (·.1.run)) start {}

end Packrat
