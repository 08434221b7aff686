import Std.Data.HashMap
import Packrat.Matching.Step

/-!
# `Packrat.Matching.Memo` — remembered outcomes

An outcome depends on the node, the position, whether actions run, whether leading text is skipped, and
whether the attempt happens inside a combined region; together they are the key under which it is remembered.
A table either keeps every outcome, or forgets some of them at each use; the tables that are made keep those
used most recently.

## Contents

* `Memo` — tables of outcomes, and `Retention` — what a table of limited size keeps;
* `Seeds` — the answers for forwards that are attempted again while they are open.
-/

namespace Packrat

/-- What an outcome depends on. -/
structure MemoKey where
  id : ExprId
  position : Nat
  acts : Bool
  skips : Bool
  adjacent : Bool
deriving DecidableEq, Hashable, Repr, Inhabited

/-- What a table of limited size keeps of its entries, the one used last at the front, at its uses in turn. -/
structure Retention where
  keep : (turn : Nat) → List (MemoKey × Step) → List (MemoKey × Step)
  keep_subset : ∀ turn entries, keep turn entries ⊆ entries

/-- Keeps the entries used last. -/
def Retention.latest (capacity : Nat) : Retention where
  keep _ entries := entries.take capacity
  keep_subset _ entries := List.take_subset capacity entries

/-- Remembered outcomes. -/
inductive Memo
  /-- Nothing is remembered. -/
  | off
  /-- Everything is remembered. -/
  | all (entries : Std.HashMap MemoKey Step)
  /-- Some outcomes are remembered, the one used last at the front. -/
  | limited (retention : Retention) (uses : Nat) (entries : List (MemoKey × Step))
deriving Inhabited

namespace Memo

/-- The empty table of a strategy; a capacity of zero remembers nothing. -/
def ofStrategy : Memoization → Memo
  | .packrat none => .all ∅
  | .packrat (some 0) => .off
  | .packrat (some (n + 1)) => .limited (.latest (n + 1)) 0 []
  | .disabled | .leftRecursion => .off

/-- Whether anything is remembered. -/
def isOn : Memo → Bool
  | .off => false
  | _ => true

/-- The entries of a table of limited size after a use of one of them, which comes to the front. -/
def touch (retention : Retention) (uses : Nat) (k : MemoKey) (step : Step)
    (entries : List (MemoKey × Step)) : List (MemoKey × Step) :=
  retention.keep uses ((k, step) :: entries.filter (·.1 != k))

/-- The outcome under a key, and the table after its use. -/
def find? (k : MemoKey) : Memo → Option Step × Memo
  | .off => (none, .off)
  | .all entries => (entries[k]?, .all entries)
  | .limited retention uses entries =>
    match entries.lookup k with
    | some step => (some step, .limited retention (uses + 1) (touch retention uses k step entries))
    | none => (none, .limited retention uses entries)

/-- The table with an outcome under a key; others may make room for it. -/
def insert (k : MemoKey) (step : Step) : Memo → Memo
  | .off => .off
  | .all entries => .all (entries.insert k step)
  | .limited retention uses entries => .limited retention (uses + 1) (touch retention uses k step entries)

/-- The table without its outcomes. -/
def clear : Memo → Memo
  | .off => .off
  | .all _ => .all ∅
  | .limited retention uses _ => .limited retention uses []

/-- The number of outcomes remembered. -/
def size : Memo → Nat
  | .off => 0
  | .all entries => entries.size
  | .limited _ _ entries => entries.length

end Memo

/-- What a seed answers: an attempt of a forward at a position, with or without actions. -/
structure SeedKey where
  position : Nat
  forward : ExprId
  acts : Bool
deriving DecidableEq, Hashable, Repr, Inhabited

/-- The seeds of left-recursive forwards, each under its key. -/
structure Seeds where
  entries : List (SeedKey × Step)
deriving Inhabited

namespace Seeds

/-- No seeds. -/
def empty : Seeds := ⟨[]⟩

/-- The seed under a key. -/
def get? (s : Seeds) (k : SeedKey) : Option Step := s.entries.lookup k

/-- The seeds without the one under a key. -/
def erase (s : Seeds) (k : SeedKey) : Seeds := ⟨s.entries.filter (·.1 != k)⟩

/-- The seeds with one under a key, in place of the one that was there. -/
def insert (s : Seeds) (k : SeedKey) (step : Step) : Seeds := ⟨(k, step) :: (s.erase k).entries⟩

/-- The number of seeds. -/
def size (s : Seeds) : Nat := s.entries.length

@[simp] theorem get?_empty (k : SeedKey) : empty.get? k = none := rfl

@[simp] theorem get?_erase_self (s : Seeds) (k : SeedKey) : (s.erase k).get? k = none := by
  simpa [get?, erase, List.lookup_eq_none_iff] using fun _ _ _ h => Ne.symm h

theorem get?_erase_of_ne (s : Seeds) {k k' : SeedKey} (h : k' ≠ k) : (s.erase k).get? k' = s.get? k' := by
  obtain ⟨entries⟩ := s
  induction entries with
  | nil => rfl
  | cons e es ih =>
    obtain ⟨key, step⟩ := e
    simp only [get?, erase] at ih ⊢
    by_cases he : key = k
    · have hk : (k' == key) = false := by simp [he, h]
      rw [List.filter_cons_of_neg (by simp [he]), ih]
      simp [List.lookup_cons, hk]
    · rw [List.filter_cons_of_pos (by simp [he])]
      simp only [List.lookup_cons]
      split
      · rfl
      · exact ih

@[simp] theorem get?_insert_self (s : Seeds) (k : SeedKey) (step : Step) : (s.insert k step).get? k = some step := by
  simp [get?, insert]

theorem get?_insert_of_ne (s : Seeds) {k k' : SeedKey} (step : Step) (h : k' ≠ k) :
    (s.insert k step).get? k' = s.get? k' := by
  have hk : (k' == k) = false := by simp [h]
  rw [← get?_erase_of_ne s h]
  simp [get?, insert, List.lookup_cons, hk]

end Seeds
end Packrat
