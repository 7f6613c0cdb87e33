import Reckoner.Decimal.Basic

/-!
# Shortest decimals

The shortest decimal that reads back as a given magnitude, and the nearest of those. For one digit,
two digits and so on, the candidates are the two multiples of the last place between which
the value lies: if any multiple of that place reads back, one of these does.
-/

namespace Reckoner.Magnitude

/-- How often `num` must be multiplied by ten to reach `den`, within the given number of times. -/
def tensToReach (den : Nat) : Nat → Nat → Nat
  | 0, _ => 0
  | fuel + 1, num => if den ≤ num then 0 else tensToReach den fuel (10 * num) + 1

/-- The power of ten above a positive value: the value lies from `10 ^ (k - 1)` up to `10 ^ k`. -/
def decimalPoint (m : Magnitude) : Int :=
  if unitsPerOne ≤ m.units then (Nat.toDigits 10 m.floor).length
  else 1 - tensToReach unitsPerOne 400 m.units

/-- The decimal whose last place is `10 ^ exponent` that reads back as `m`: of two, the nearer to
the value, and the even one when both are as near. -/
def onGrid? (m : Magnitude) (exponent : Int) : Option Decimal :=
  let num := m.units * Nat.pow 10 (-exponent).toNat
  let den := unitsPerOne * Nat.pow 10 exponent.toNat
  let candidates := [roundDiv num den, num / den, num / den + 1].map (Decimal.mk · exponent)
  candidates.find? fun d => d.nearest false = .finite false m

/-- The value itself as a decimal, with all its digits. -/
def exactDecimal (m : Magnitude) : Decimal := ⟨m.units * Nat.pow 5 1074, -1074⟩

/-- The decimal of fewest digits that reads back as `m`, without zeros at the end. Seventeen digits
are enough for every double. -/
def shortest (m : Magnitude) : Decimal :=
  if m.rank = 0 then ⟨0, 0⟩
  else
    let point := m.decimalPoint
    let found := (List.range 17).findSome? fun n => m.onGrid? (point - (n + 1 : Nat))
    (found.getD m.exactDecimal).strip

end Reckoner.Magnitude
