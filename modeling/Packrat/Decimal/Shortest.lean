import Packrat.Decimal.Binary

/-!
# `Packrat.Decimal.Shortest` — the fewest digits that read back

A decimal number reads back as a double when it lies in the interval of numbers that round to it. The
shortest decimal of a double is the point of the coarsest grid of powers of ten that meets the interval, and
of the two neighbours of the double on that grid the nearer one.
-/

namespace Packrat.Decimal

/-- The number `digits · 10^exponent`. -/
structure Scientific where
  digits : Nat
  exponent : Int
deriving DecidableEq, Repr, Inhabited

/-- A positive double with the interval of numbers that round to it, over a common denominator: the interval
is `low / den` to `high / den`, with its ends when `closed`. -/
structure Interval where
  low : Nat
  value : Nat
  high : Nat
  den : Nat
  closed : Bool
deriving DecidableEq, Repr, Inhabited

/-- The interval of a finite double other than zero. Below a power of two the doubles lie twice as dense, so
there the lower half of the interval is shorter. -/
def Interval.ofBinary (b : Binary) : Interval :=
  let quarter := b.exponent - 2
  let up := Nat.pow 2 quarter.toNat
  let below := if b.significand = Nat.pow 2 storedBits && leastExponent < b.exponent then 1 else 2
  { low := (4 * b.significand - below) * up
    value := 4 * b.significand * up
    high := (4 * b.significand + 2) * up
    den := Nat.pow 2 (-quarter).toNat
    closed := b.significand % 2 = 0 }

/-- Whether a numerator over the interval's denominator lies in the interval. -/
def Interval.holds (i : Interval) (num : Nat) : Bool :=
  if i.closed then i.low ≤ num && num ≤ i.high else i.low < num && num < i.high

/-- The grid point `digits · 10^exponent` nearest to the value among its two neighbours that lie in the
interval; a tie goes up. -/
def Interval.onGrid? (i : Interval) (exponent : Int) : Option Scientific :=
  let scale := Nat.pow 10 (-exponent).toNat
  let cell := i.den * Nat.pow 10 exponent.toNat
  let i : Interval := { i with low := i.low * scale, value := i.value * scale, high := i.high * scale }
  let floor := i.value / cell
  let lower := floor * cell
  let upper := lower + cell
  match i.holds lower, i.holds upper with
  | true, true =>
    if 2 * (i.value - lower) < cell then some ⟨floor, exponent⟩ else some ⟨floor + 1, exponent⟩
  | true, false => some ⟨floor, exponent⟩
  | false, true => some ⟨floor + 1, exponent⟩
  | false, false => none

/-- The exponents of the grids to try, from coarser than any double down to finer than every interval. -/
def gridExponents : List Int := (List.range 660).map fun (n : Nat) => 310 - (n : Int)

/-- The shortest decimal that reads back as a finite double, less its sign. -/
def shortest (b : Binary) : Scientific :=
  if b.significand = 0 then ⟨0, 0⟩
  else ((gridExponents.findSome? (Interval.ofBinary b).onGrid?)).getD ⟨b.significand, 0⟩

end Packrat.Decimal
