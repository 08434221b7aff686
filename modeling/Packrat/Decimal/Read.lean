import Packrat.Decimal.Binary

/-!
# `Packrat.Decimal.Read` — reading numbers

Integers are an optional sign and decimal digits, and must fit 64 bits; the first character at which a prefix
no longer fits is reported as such even when a later one is no digit. Floating-point numbers have an optional
sign, digits with an optional point on either side, and an optional exponent, or are one of the words for
infinity and for no number, in any case; they are rounded to the nearest double.
-/

namespace Packrat.Decimal

/-- Why a text is no number. -/
inductive NumberError
  | emptyInteger
  | invalidDigit
  | tooLarge
  | tooSmall
  | emptyFloat
  | invalidFloat
deriving DecidableEq, Repr, Inhabited

/-- The wording of a cause. -/
def NumberError.message : NumberError → String
  | .emptyInteger => "cannot parse integer from empty string"
  | .invalidDigit => "invalid digit found in string"
  | .tooLarge => "number too large to fit in target type"
  | .tooSmall => "number too small to fit in target type"
  | .emptyFloat => "cannot parse float from empty string"
  | .invalidFloat => "invalid float literal"

/-- The value of a decimal digit. -/
def digit? (c : Char) : Option Nat := if '0' ≤ c ∧ c ≤ '9' then some (c.toNat - 48) else none

/-! ## Integers -/

/-- The greatest magnitude of an integer with the given sign. -/
def magnitudeLimit (negative : Bool) : Nat := if negative then Nat.pow 2 63 else Nat.pow 2 63 - 1

/-- The magnitude of digits read so far and those to come, kept within the limit at every step. -/
def readMagnitude (negative : Bool) : (soFar : Nat) → List Char → Except NumberError Nat
  | n, [] => .ok n
  | n, c :: r =>
    match digit? c with
    | none => .error .invalidDigit
    | some d =>
      if magnitudeLimit negative < 10 * n + d then .error (if negative then .tooSmall else .tooLarge)
      else readMagnitude negative (10 * n + d) r

/-- Reads a 64-bit integer. -/
def readInt (t : List Char) : Except NumberError Int64 :=
  match t with
  | [] => .error .emptyInteger
  | ['+'] | ['-'] => .error .invalidDigit
  | '-' :: r => (readMagnitude true 0 r).map fun n => Int64.ofInt (-(n : Int))
  | '+' :: r => (readMagnitude false 0 r).map fun n => Int64.ofInt n
  | r => (readMagnitude false 0 r).map fun n => Int64.ofInt n

/-! ## Floating-point numbers -/

/-- The number that decimal digits spell after those already read. -/
def valueOfDigits (soFar : Nat) (ds : List Char) : Nat :=
  ds.foldl (fun n c => 10 * n + (digit? c).getD 0) soFar

/-- Whether a character is a decimal digit. -/
def isDigit (c : Char) : Bool := (digit? c).isSome

/-- The exponent part at the end of a number: nothing, or the letter, an optional sign and digits. -/
def readExponent? : List Char → Option Int
  | [] => some 0
  | c :: r =>
    if c = 'e' ∨ c = 'E' then
      let (negative, digits) := match r with
        | '-' :: ds => (true, ds)
        | '+' :: ds => (false, ds)
        | ds => (false, ds)
      if digits.isEmpty || !digits.all isDigit then none
      else some (if negative then -(valueOfDigits 0 digits : Int) else valueOfDigits 0 digits)
    else none

/-- The double nearest to `digits · 10^exponent`. Exponents that leave the range of doubles whatever the
digits, of which there are `count`, are answered without computing the power. -/
def scaledFloat (negative : Bool) (digits count : Nat) (exponent : Int) : Float :=
  if digits = 0 then nearestFloat negative 0 1
  else if 400 < exponent then nearestFloat negative (Nat.pow 10 400) 1
  else if exponent + count < -400 then nearestFloat negative 0 1
  else if 0 ≤ exponent then nearestFloat negative (digits * Nat.pow 10 exponent.toNat) 1
  else nearestFloat negative digits (Nat.pow 10 (-exponent).toNat)

/-- Reads a number without sign or words. -/
def readDecimal? (negative : Bool) (t : List Char) : Option Float :=
  let whole := t.takeWhile isDigit
  let rest := t.dropWhile isDigit
  let (fraction, rest) := match rest with
    | '.' :: r => (r.takeWhile isDigit, r.dropWhile isDigit)
    | r => ([], r)
  if whole.isEmpty && fraction.isEmpty then none
  else (readExponent? rest).map fun e =>
    scaledFloat negative (valueOfDigits (valueOfDigits 0 whole) fraction) (whole.length + fraction.length)
      (e - fraction.length)

/-- A letter of the words for special numbers, in lower case. -/
def lowerLetter (c : Char) : Char := if 'A' ≤ c ∧ c ≤ 'Z' then Char.ofNat (c.toNat + 32) else c

/-- The positive infinity, or the negative one. -/
def infinity (negative : Bool) : Float :=
  Float.ofBits (UInt64.ofNat (if negative then Nat.pow 2 63 + infinityBits else infinityBits))

/-- Reads a number or word after its sign. -/
def readUnsigned? (negative : Bool) (t : List Char) : Option Float :=
  let word := String.ofList (t.map lowerLetter)
  if word = "inf" ∨ word = "infinity" then some (infinity negative)
  else if word = "nan" then some (Float.ofBits 0x7FF8000000000000)
  else readDecimal? negative t

/-- Reads a double. -/
def readFloat (t : List Char) : Except NumberError Float :=
  let result := match t with
    | [] => none
    | '-' :: r => readUnsigned? true r
    | '+' :: r => readUnsigned? false r
    | r => readUnsigned? false r
  match result with
  | some x => .ok x
  | none => .error (if t.isEmpty then .emptyFloat else .invalidFloat)

end Packrat.Decimal
