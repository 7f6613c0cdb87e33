import Reckoner.Double.Rounding

/-!
# Decimals

Nonnegative decimal numbers, each a whole coefficient times a power of ten. A decimal is read as
the double nearest to it, however many digits it has, and has one text without an exponent.
-/

namespace Reckoner

/-- The number `coefficient * 10 ^ exponent`. -/
structure Decimal where
  coefficient : Nat
  exponent : Int
deriving DecidableEq

namespace Decimal

/-- The nearest double, with the given sign. -/
def nearest (negative : Bool) (d : Decimal) : Double :=
  .nearest negative (d.coefficient * Nat.pow 10 d.exponent.toNat * Magnitude.unitsPerOne)
    (Nat.pow 10 (-d.exponent).toNat)

/-- The number denoted by digits with at most one point among them. -/
def ofPlain (text : List Char) : Decimal :=
  let whole := text.takeWhile (· ≠ '.')
  let fraction := (text.dropWhile (· ≠ '.')).drop 1
  { coefficient := Nat.ofDigitChars 10 (whole ++ fraction) 0
    exponent := -(fraction.length : Int) }

def digits (d : Decimal) : List Char := Nat.toDigits 10 d.coefficient

/-- How many places the point stands to the right of the first digit's left side. -/
def point (d : Decimal) : Int := d.digits.length + d.exponent

/-- The digits left of the point, at least a zero. -/
def wholeDigits (d : Decimal) : List Char :=
  if d.point ≤ 0 then ['0']
  else d.digits.take d.point.toNat ++ List.replicate d.exponent.toNat '0'

/-- The digits right of the point, none for a whole number. -/
def fractionDigits (d : Decimal) : List Char :=
  List.replicate (-d.point).toNat '0' ++ d.digits.drop d.point.toNat

/-- The same number with no zero at the end of its coefficient. -/
def strip (d : Decimal) : Decimal :=
  if _h : d.coefficient = 0 then ⟨0, 0⟩
  else if d.coefficient % 10 ≠ 0 then d
  else strip ⟨d.coefficient / 10, d.exponent + 1⟩
termination_by d.coefficient
decreasing_by omega

end Decimal

end Reckoner
