import Reckoner.Double.Enclosure

/-!
# Powers

The power of two doubles. The exact power of a positive base is enclosed ever more tightly until the
enclosure lies within what one double stands for. The exponent is a whole odd number times a
power of two, so the power is a whole power followed by squarings or by square roots.
-/

namespace Reckoner

/-- An odd number and a count of doublings that make up `n`; zero is no doubling of an odd number.
-/
def oddPart (n : Nat) : Nat × Nat :=
  if _h : n = 0 ∨ n % 2 = 1 then (n, 0)
  else
    let (odd, doublings) := oddPart (n / 2)
    (odd, doublings + 1)
termination_by n
decreasing_by omega

namespace Magnitude

/-- An enclosure of `base ^ exponent` that keeps `places` binary places throughout. -/
def enclosePow (places : Nat) (base exponent : Magnitude) : Enclosure :=
  let (odd, doublings) := oddPart exponent.units
  let start : Enclosure := ⟨base.units, base.units, -1074⟩
  let whole := (start.trim places).pow places odd
  whole.squares places (doublings - 1074) |>.roots places (1074 - doublings)

/-- The places tried in turn. A power that is itself a double, or lies midway between two, has a
whole odd power of fewer than two thousand places on the way, and none of them is dropped. -/
def powerPlaces : List Nat := [128, 512, 2048]

/-- `base ^ exponent` rounded to the nearest double. -/
def pow (base exponent : Magnitude) : Double :=
  if exponent.rank = 0 ∨ base = .one then .one
  else if base.rank = 0 then .zero
  else
    match powerPlaces.findSome? fun places => (enclosePow places base exponent).round? with
    | some power => power
    | none =>
      let finest := enclosePow 2048 base exponent
      Enclosure.endpoint finest.lower finest.exponent

end Magnitude

namespace Double

/-- The power for an exponent that is not below zero. Any base to the power zero is one, and one to
any power is one. The sign is that of the base if the exponent is a whole odd number, and a
negative base with an exponent that is not whole has no power. -/
def pow (base exponent : Double) : Double :=
  if exponent.isZero ∨ base = .one then .one
  else
    match base, exponent with
    | .nan, _ => .nan
    | _, .nan => .nan
    | .infinite _, .infinite _ => .infinite false
    | .infinite negative, .finite _ e => .infinite (negative && e.isOddWhole)
    | .finite _ b, .infinite _ =>
      if b = .one then .one
      else if b.rank < Magnitude.one.rank then .zero
      else .infinite false
    | .finite negative b, .finite _ e =>
      if negative ∧ b.rank ≠ 0 ∧ ¬ e.isWhole then .nan
      else if negative ∧ e.isOddWhole then (b.pow e).neg
      else b.pow e

/-- The power, for which the exponent must not be below zero. -/
def pow? (base exponent : Double) : Option Double :=
  if exponent.isBelowZero then none else some (base.pow exponent)

end Double

end Reckoner
