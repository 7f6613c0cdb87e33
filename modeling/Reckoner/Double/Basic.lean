/-!
# Doubles

The numbers of the calculator: binary floating-point numbers of 64 bits, held by what they mean
rather than by their bits. The finite nonnegative ones are numbered in increasing order by
their *rank*, and each is a whole number of *units* of `2 ^ -1074`. A `Double` adds the sign, the
two infinities and one value that is not a number, so equality of `Double`s is equality of bits
with all forms of "not a number" taken as one.
-/

namespace Reckoner

/-- The number of ranks that share one exponent, `2 ^ 52`. -/
def blockSize : Nat := 4503599627370496

/-- The number of finite nonnegative doubles. -/
def rankCount : Nat := 2047 * blockSize

/-- A finite nonnegative double, given by its rank among them: rank `0` is zero, rank `1` the least
positive value, and each block of ranks from the second on shares one exponent. -/
structure Magnitude where
  rank : Nat
  rank_lt : rank < rankCount
deriving DecidableEq

namespace Magnitude

/-- The number of units in one. -/
def unitsPerOne : Nat := 1 <<< 1074

/-- The value in units of `2 ^ -1074`. In the first two blocks a unit is the distance between
neighbours, and in each further block the distance is twice that of the block before. -/
def units (m : Magnitude) : Nat :=
  if m.rank < blockSize then m.rank
  else (blockSize + m.rank % blockSize) <<< (m.rank / blockSize - 1)

def zero : Magnitude := ⟨0, by decide⟩

def one : Magnitude := ⟨1023 * blockSize, by decide⟩

/-- The largest whole number that is not above the value. -/
def floor (m : Magnitude) : Nat := m.units / unitsPerOne

def isWhole (m : Magnitude) : Bool := m.units % unitsPerOne == 0

def isOddWhole (m : Magnitude) : Bool := m.isWhole && m.floor % 2 == 1

end Magnitude

/-- A double: not a number, an infinity, or a finite value with its sign, zero having two. -/
inductive Double where
  | nan
  | infinite (negative : Bool)
  | finite (negative : Bool) (magnitude : Magnitude)
deriving DecidableEq

namespace Double

def zero : Double := .finite false .zero

def one : Double := .finite false .one

/-- The double that a word of 64 bits encodes: its top bit is the sign, the others a rank. -/
def ofWord (word : Nat) : Double :=
  let negative := word.testBit 63
  let rank := word % (1 <<< 63)
  if h : rank < rankCount then .finite negative ⟨rank, h⟩
  else if rank = rankCount then .infinite negative
  else .nan

/-- Below zero; neither zero is, whatever its sign. -/
def isBelowZero : Double → Bool
  | .nan => false
  | .infinite negative => negative
  | .finite negative m => negative && m.rank != 0

def isZero : Double → Bool
  | .finite _ m => m.rank == 0
  | _ => false

def neg : Double → Double
  | .nan => .nan
  | .infinite negative => .infinite !negative
  | .finite negative m => .finite (!negative) m

def abs : Double → Double
  | .nan => .nan
  | .infinite _ => .infinite false
  | .finite _ m => .finite false m

theorem neg_neg : ∀ x : Double, x.neg.neg = x
  | .nan => rfl
  | .infinite s => by simp [neg]
  | .finite s m => by simp [neg]

end Double

end Reckoner
