/-!
# `Packrat.Config` — choices for a parse
-/

namespace Packrat

/-- What the matcher remembers between attempts. -/
inductive Memoization
  /-- Every attempt is evaluated afresh. -/
  | disabled
  /-- The outcome of each attempt is kept; with a capacity, only those used most recently. -/
  | packrat (capacity : Option Nat)
  /-- Forwards grow a seed, so that left-recursive rules end. -/
  | leftRecursion
deriving DecidableEq, Repr, Inhabited

/-- The name of a strategy as log records show it. -/
def Memoization.render : Memoization → String
  | .disabled => "Disabled"
  | .packrat none => "Packrat \x7b capacity: None \x7d"
  | .packrat (some n) => "Packrat \x7b capacity: Some(" ++ toString n ++ ") \x7d"
  | .leftRecursion => "LeftRecursion"

/-- How texts are parsed. Tabs are expanded to stops of `tabSize` columns unless kept; `recursionLimit`
bounds how deeply attempts nest, and `growthLimit` how many rounds a seed may grow. -/
structure Config where
  memoization : Memoization := .disabled
  keepTabs : Bool := false
  tabSize : Nat := 8
  recursionLimit : Option Nat := some 1000
  growthLimit : Option Nat := none
deriving DecidableEq, Repr, Inhabited

/-- The default configuration with unbounded caching. -/
def Config.packrat : Config := { memoization := .packrat none }

/-- The default configuration with left recursion. -/
def Config.leftRecursion : Config := { memoization := .leftRecursion }

end Packrat
