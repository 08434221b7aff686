import Packrat.Decimal.Shortest

/-!
# `Packrat.Decimal.Layout` — how the digits of a number are laid out

Which numbers are written with an exponent, and whether a whole number keeps its point, are choices of a
format and not of the digits; a `Layout` records them.
-/

namespace Packrat.Decimal

/-- The choices of a number format. -/
structure Layout where
  /-- Whether a number whose first digit has this decimal exponent is written without an exponent. -/
  positional : Int → Bool
  /-- Whether a whole number without exponent ends in `.0`. -/
  keepsPoint : Bool

/-- Numbers from `0.0001` up to `10^16` stand without exponent, and whole numbers end in `.0`. -/
def Layout.exact : Layout := ⟨fun e => -4 ≤ e && e < 16, true⟩

/-- No number has an exponent, and whole numbers have no point. -/
def Layout.plain : Layout := ⟨fun _ => true, false⟩

/-- The digits with the point put in so that the last one has the given decimal exponent. -/
def placePoint (l : Layout) (digits : List Char) (exponent : Int) : List Char :=
  if 0 ≤ exponent then
    digits ++ List.replicate exponent.toNat '0' ++ (if l.keepsPoint then ['.', '0'] else [])
  else
    let places := (-exponent).toNat
    if digits.length ≤ places then
      ['0', '.'] ++ List.replicate (places - digits.length) '0' ++ digits
    else
      digits.take (digits.length - places) ++ ['.'] ++ digits.drop (digits.length - places)

/-- The digits with a point after the first one, and the exponent of the first one. -/
def placeExponent (digits : List Char) (exponent : Int) : List Char :=
  let whole := digits.take 1
  let fraction := digits.drop 1
  whole ++ (if fraction.isEmpty then [] else '.' :: fraction) ++ ['e'] ++ (toString exponent).toList

/-- A number in a layout. -/
def Layout.magnitude (l : Layout) (s : Scientific) : List Char :=
  let digits := Nat.toDigits 10 s.digits
  let leading := s.exponent + (digits.length : Int) - 1
  if l.positional leading then placePoint l digits s.exponent else placeExponent digits leading

/-- A double in a layout, by its shortest digits. -/
def Layout.render (l : Layout) (x : Float) : String :=
  match Binary.ofFloat? x with
  | some b => String.ofList ((if b.negative then ['-'] else []) ++ l.magnitude (shortest b))
  | none => if notANumber x then "NaN" else if signBit x then "-inf" else "inf"

end Packrat.Decimal
