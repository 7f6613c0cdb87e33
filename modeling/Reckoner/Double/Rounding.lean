import Reckoner.Double.Basic

/-!
# Rounding to the nearest double

Every result of the arithmetic is an exact quotient of units that is rounded once. A whole number
of units below `2 ^ 53` is its own rank; above that, each doubling of the value drops one more
binary place and adds one block of ranks, so the rounded places and the dropped count give the rank
directly. A carry out of the kept places lands on the first rank of the next block, and an even
rank is an even last place.
-/

namespace Reckoner

/-- `num / den` rounded to a whole number, a half going to the even neighbour. -/
def roundDiv (num den : Nat) : Nat :=
  let quotient := num / den
  let twice := 2 * (num % den)
  if twice < den ∨ (twice = den ∧ quotient % 2 = 0) then quotient else quotient + 1

namespace Magnitude

/-- The rank of the double nearest to `num / den` units, as if there were no largest one. -/
def nearestRank (num den : Nat) : Nat :=
  let dropped := (num / den).log2 - 52
  dropped * blockSize + roundDiv num (den <<< dropped)

end Magnitude

namespace Double

/-- The double nearest to `num / den` units with the given sign, ties going to the even neighbour
and values past the largest double by half a place or more going to infinity. -/
def nearest (negative : Bool) (num den : Nat) : Double :=
  let rank := Magnitude.nearestRank num den
  if h : rank < rankCount then .finite negative ⟨rank, h⟩ else .infinite negative

/-- The double nearest to a whole number. -/
def ofNat (n : Nat) : Double := nearest false (n * Magnitude.unitsPerOne) 1

end Double

end Reckoner
