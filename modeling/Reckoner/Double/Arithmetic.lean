import Reckoner.Double.Rounding

/-!
# Sums, products, quotients and square roots

Each operation takes its operands as exact numbers of units and rounds the exact answer once. The
sign of an answer that is zero, the infinities and the cases without an answer follow the rules
of binary floating-point arithmetic; division by zero gives an infinity, or nothing for `0 / 0`.
-/

namespace Reckoner

/-- The largest whole number whose square is not above `n`, found two binary places at a time. -/
def squareRoot (n : Nat) : Nat :=
  if _h : n = 0 then 0
  else
    let root := 2 * squareRoot (n / 4)
    if (root + 1) * (root + 1) ≤ n then root + 1 else root
termination_by n
decreasing_by omega

/-- The product of the whole numbers from one to `n`. -/
def productTo : Nat → Nat
  | 0 => 1
  | n + 1 => (n + 1) * productTo n

namespace Double

/-- The value of a finite double in units, with its sign. -/
def signedUnits (negative : Bool) (m : Magnitude) : Int :=
  if negative then -(m.units : Int) else m.units

/-- The sum; one that is exactly zero is negative only if both operands are. -/
def add : Double → Double → Double
  | .nan, _ => .nan
  | _, .nan => .nan
  | .infinite s, .infinite t => if s = t then .infinite s else .nan
  | .infinite s, .finite _ _ => .infinite s
  | .finite _ _, .infinite t => .infinite t
  | .finite s a, .finite t b =>
    let sum := signedUnits s a + signedUnits t b
    if sum = 0 then .finite (s && t) .zero else nearest (sum < 0) sum.natAbs 1

def sub (x y : Double) : Double := x.add y.neg

def mul : Double → Double → Double
  | .nan, _ => .nan
  | _, .nan => .nan
  | .infinite s, .infinite t => .infinite (s ^^ t)
  | .infinite s, .finite t b => if b.rank = 0 then .nan else .infinite (s ^^ t)
  | .finite s a, .infinite t => if a.rank = 0 then .nan else .infinite (s ^^ t)
  | .finite s a, .finite t b => nearest (s ^^ t) (a.units * b.units) Magnitude.unitsPerOne

def div : Double → Double → Double
  | .nan, _ => .nan
  | _, .nan => .nan
  | .infinite _, .infinite _ => .nan
  | .infinite s, .finite t _ => .infinite (s ^^ t)
  | .finite s _, .infinite t => .finite (s ^^ t) .zero
  | .finite s a, .finite t b =>
    if b.rank ≠ 0 then nearest (s ^^ t) (a.units * Magnitude.unitsPerOne) b.units
    else if a.rank = 0 then .nan
    else .infinite (s ^^ t)

/-- The square root; a zero keeps its sign, and nothing below zero has one. The exact root lies
between a whole number of units and the next, and half a unit stands for any root strictly between,
since no two doubles are that close at this size. -/
def sqrt : Double → Double
  | .nan => .nan
  | .infinite negative => if negative then .nan else .infinite false
  | .finite negative m =>
    if m.rank = 0 then .finite negative m
    else if negative then .nan
    else
      let square := m.units * Magnitude.unitsPerOne
      let root := squareRoot square
      nearest false (2 * root + if root * root = square then 0 else 1) 2

/-- The factorial of the whole part, rounded once; there is none below zero. From 171 on it is past
the largest double. -/
def factorial? : Double → Option Double
  | .nan => none
  | .infinite negative => if negative then none else some (.infinite false)
  | .finite negative m =>
    if negative && m.rank != 0 then none
    else if 171 ≤ m.floor then some (.infinite false)
    else some (ofNat (productTo m.floor))

end Double

end Reckoner
