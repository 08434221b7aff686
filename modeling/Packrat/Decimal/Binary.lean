/-!
# `Packrat.Decimal.Binary` — floating-point numbers as exact rationals

A finite double is `± m · 2^q` with natural `m`. This module takes doubles apart and puts the double nearest
to a given quotient together, both through the bit pattern and in exact arithmetic.

## Contents

* `Binary.ofFloat?` — sign, `m` and `q` of a finite double;
* `nearestBits` — the bits of the double nearest to a quotient, a half going to the even neighbour.
-/

namespace Packrat.Decimal

/-- A finite double: `± significand · 2^exponent`. -/
structure Binary where
  negative : Bool
  significand : Nat
  exponent : Int
deriving DecidableEq, Repr, Inhabited

/-- The number of bits of a significand that are stored. -/
def storedBits : Nat := 52

/-- The exponent of the least positive double. -/
def leastExponent : Int := -1074

/-- A double taken apart; `none` for infinities and for what is not a number. -/
def Binary.ofFloat? (x : Float) : Option Binary :=
  let bits := x.toBits.toNat
  let negative := decide (Nat.pow 2 63 ≤ bits)
  let field : Nat := bits / Nat.pow 2 storedBits % Nat.pow 2 11
  let stored := bits % Nat.pow 2 storedBits
  if field = 2047 then none
  else if field = 0 then some ⟨negative, stored, leastExponent⟩
  else some ⟨negative, Nat.pow 2 storedBits + stored, leastExponent + (field : Int) - 1⟩

/-- Whether a double is neither infinite nor a number. -/
def notANumber (x : Float) : Bool :=
  let bits := x.toBits.toNat
  bits / Nat.pow 2 storedBits % Nat.pow 2 11 == 2047 && bits % Nat.pow 2 storedBits != 0

/-- Whether the sign bit of a double is set. -/
def signBit (x : Float) : Bool := Nat.pow 2 63 ≤ x.toBits.toNat

/-- A quotient rounded to the nearest natural number, a half to the even one. -/
def roundDiv (num den : Nat) : Nat :=
  let floor := num / den
  let twice := 2 * (num % den)
  if twice < den then floor
  else if den < twice then floor + 1
  else floor + floor % 2

/-- The bits of infinity. -/
def infinityBits : Nat := 2047 * Nat.pow 2 storedBits

/-- The bits of the double nearest to `num / den`, for a positive `den`. The exponent is chosen so that the
significand has 53 bits, or fewer at the bottom of the range; rounding up to 54 bits carries into the
exponent field by itself. -/
def nearestBits (num den : Nat) : Nat :=
  if num = 0 then 0 else
    let guess : Int := (num.log2 : Int) - (den.log2 : Int) - 53
    let fits (q : Int) : Bool :=
      if 0 ≤ q then num < den * Nat.pow 2 (53 + q.toNat) else num * Nat.pow 2 (-q).toNat < den * Nat.pow 2 53
    let q := if fits guess then guess else guess + 1
    let q := if q < leastExponent then leastExponent else q
    let significand :=
      if 0 ≤ q then roundDiv num (den * Nat.pow 2 q.toNat) else roundDiv (num * Nat.pow 2 (-q).toNat) den
    let steps := (q - leastExponent).toNat
    let bits :=
      if significand < Nat.pow 2 storedBits then significand else significand + steps * Nat.pow 2 storedBits
    min bits infinityBits

/-- The double with the given sign nearest to `num / den`. -/
def nearestFloat (negative : Bool) (num den : Nat) : Float :=
  let bits := nearestBits num den
  Float.ofBits (UInt64.ofNat (if negative then Nat.pow 2 63 + bits else bits))

/-- The double nearest to an integer. -/
def floatOfInt (n : Int) : Float := nearestFloat (n < 0) n.natAbs 1

end Packrat.Decimal
