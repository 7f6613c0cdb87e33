import Reckoner.Double.Arithmetic

/-!
# Enclosures

A positive real number known between two whole multiples of one power of two. Products and square
roots round the lower end down and the upper end up, keeping a chosen number of binary places, so
the exact number stays enclosed. When both ends round to the same double, that double is the
nearest one to the exact number.
-/

namespace Reckoner

/-- The real numbers from `lower * 2 ^ exponent` to `upper * 2 ^ exponent`. -/
structure Enclosure where
  lower : Nat
  upper : Nat
  exponent : Int

namespace Enclosure

/-- Keeps at most `places` binary places, widening outwards. -/
def trim (places : Nat) (x : Enclosure) : Enclosure :=
  let dropped := x.upper.log2 + 1 - places
  { lower := x.lower >>> dropped
    upper := (x.upper + (1 <<< dropped - 1)) >>> dropped
    exponent := x.exponent + dropped }

def mul (places : Nat) (x y : Enclosure) : Enclosure :=
  trim places ⟨x.lower * y.lower, x.upper * y.upper, x.exponent + y.exponent⟩

def square (places : Nat) (x : Enclosure) : Enclosure := x.mul places x

/-- The power with a whole exponent, by halving the exponent. -/
def pow (places : Nat) (x : Enclosure) (n : Nat) : Enclosure :=
  if _h : n = 0 then ⟨1, 1, 0⟩
  else
    let even := (x.pow places (n / 2)).square places
    if n % 2 = 1 then even.mul places x else even
termination_by n
decreasing_by omega

def sqrt (places : Nat) (x : Enclosure) : Enclosure :=
  let least := 2 * places - x.upper.log2
  let added := if (x.exponent - least) % 2 = 0 then least else least + 1
  let top := x.upper <<< added
  let root := squareRoot top
  trim places
    { lower := squareRoot (x.lower <<< added)
      upper := if root * root = top then root else root + 1
      exponent := (x.exponent - added) / 2 }

/-- So large that the double is infinite, or so small that it is zero, and squaring keeps it so. -/
def isSettled (x : Enclosure) : Bool :=
  (x.lower ≠ 0 && 1100 < x.lower.log2 + x.exponent) || x.upper.log2 + x.exponent < -1200

/-- Squares `n` times, or until further squaring cannot change the double. -/
def squares (places : Nat) : Nat → Enclosure → Enclosure
  | 0, x => x
  | n + 1, x => if x.isSettled then x else squares places n (x.square places)

/-- The double nearest to `m * 2 ^ e`, without forming powers that are far out of range. -/
def endpoint (m : Nat) (e : Int) : Double :=
  if m = 0 ∨ m.log2 + e < -1200 then .zero
  else if 1100 < m.log2 + e then .infinite false
  else .nearest false (m <<< (e + 1074).toNat) (1 <<< (-(e + 1074)).toNat)

/-- The double that every number in the enclosure rounds to, if there is one. -/
def round? (x : Enclosure) : Option Double :=
  let low := endpoint x.lower x.exponent
  if low = endpoint x.upper x.exponent then some low else none

/-- Takes the square root `n` times, or until the double is one: further roots only come nearer to
one. -/
def roots (places : Nat) : Nat → Enclosure → Enclosure
  | 0, x => x
  | n + 1, x => if x.round? = some .one then x else roots places n (x.sqrt places)

end Enclosure

end Reckoner
