import Mathlib.Algebra.Order.Field.Rat
import Mathlib.Tactic.FieldSimp
import Mathlib.Tactic.NormNum
import Mathlib.Tactic.Ring
import Reckoner.Decimal.Shortest

/-!
# Decimals that read back

The double nearest to a quotient depends on nothing but the quotient, so the double that a decimal
is read as depends on nothing but the number it denotes (`Decimal.nearest_eq_of_value_eq`). A
magnitude is the nearest to its own value (`Magnitude.nearestRank_units`). The shortest decimal of a
magnitude is one that was tried out, or has the very value, and dropping zeros at its end
does not change the number: so it reads back (`Magnitude.nearest_shortest`).
-/

namespace Reckoner

theorem roundDiv_mul_left {k : Nat} (hk : 0 < k) (num den : Nat) :
    roundDiv (k * num) (k * den) = roundDiv num den := by
  have htwice : 2 * (k * (num % den)) = k * (2 * (num % den)) := by ring
  have hlt : k * (2 * (num % den)) < k * den ↔ 2 * (num % den) < den := Nat.mul_lt_mul_left hk
  have heq : k * (2 * (num % den)) = k * den ↔ 2 * (num % den) = den :=
    Nat.mul_right_inj hk.ne'
  simp only [roundDiv, Nat.mul_div_mul_left _ _ hk, Nat.mul_mod_mul_left, htwice, hlt, heq]

theorem roundDiv_mul_self (n : Nat) {den : Nat} (hd : 0 < den) : roundDiv (n * den) den = n := by
  simp [roundDiv, Nat.mul_div_cancel _ hd, hd]

namespace Magnitude

theorem nearestRank_mul_left {k : Nat} (hk : 0 < k) (num den : Nat) :
    nearestRank (k * num) (k * den) = nearestRank num den := by
  have hshift : ∀ n, (k * den) <<< n = k * (den <<< n) := by
    intro n
    rw [Nat.shiftLeft_eq, Nat.shiftLeft_eq, Nat.mul_assoc]
  simp only [nearestRank, Nat.mul_div_mul_left _ _ hk, hshift, roundDiv_mul_left hk]

theorem log2_shiftLeft {n : Nat} (k : Nat) (hlow : blockSize ≤ n) (hhigh : n < 2 * blockSize) :
    (n <<< k).log2 = 52 + k := by
  have hblock : blockSize = 2 ^ 52 := by decide
  have hpos : 0 < 2 ^ k := Nat.two_pow_pos k
  rw [hblock] at hlow hhigh
  rw [Nat.shiftLeft_eq, Nat.log2_eq_iff (Nat.mul_pos (by omega) hpos).ne']
  constructor
  · calc 2 ^ (52 + k) = 2 ^ 52 * 2 ^ k := Nat.pow_add ..
      _ ≤ n * 2 ^ k := Nat.mul_le_mul_right _ hlow
  · calc n * 2 ^ k < 2 * 2 ^ 52 * 2 ^ k := Nat.mul_lt_mul_of_pos_right hhigh hpos
      _ = 2 ^ (52 + k + 1) := by ring

/-- A magnitude is the nearest to its own value. -/
theorem nearestRank_units (m : Magnitude) : nearestRank m.units 1 = m.rank := by
  unfold nearestRank units
  rw [Nat.div_one]
  split
  · rename_i hsmall
    have hlog : m.rank.log2 - 52 = 0 := by
      rcases Nat.eq_zero_or_pos m.rank with h0 | hpos
      · simp [h0]
      · have hlt : m.rank.log2 < 52 := (Nat.log2_lt hpos.ne').2 hsmall
        omega
    rw [hlog]
    simpa using roundDiv_mul_self m.rank Nat.one_pos
  · rename_i hlarge
    have hmod : m.rank % blockSize < blockSize := Nat.mod_lt _ (by decide)
    have hrank := Nat.div_add_mod m.rank blockSize
    obtain ⟨k, hk⟩ : ∃ k, m.rank / blockSize = k + 1 := by
      have hpos : 0 < m.rank / blockSize := Nat.div_pos (Nat.not_lt.1 hlarge) (by decide)
      exact ⟨m.rank / blockSize - 1, by omega⟩
    rw [hk] at hrank ⊢
    have hlog : ((blockSize + m.rank % blockSize) <<< k).log2 - 52 = k := by
      rw [log2_shiftLeft k (by omega) (by omega)]
      omega
    simp only [Nat.add_sub_cancel, hlog]
    rw [Nat.shiftLeft_eq, Nat.shiftLeft_eq, Nat.one_mul, roundDiv_mul_self _ (Nat.two_pow_pos k)]
    calc k * blockSize + (blockSize + m.rank % blockSize)
        = blockSize * (k + 1) + m.rank % blockSize := by ring
      _ = m.rank := hrank

end Magnitude

theorem Double.nearest_mul_left {k : Nat} (hk : 0 < k) (negative : Bool) (num den : Nat) :
    nearest negative (k * num) (k * den) = nearest negative num den := by
  simp only [nearest, Magnitude.nearestRank_mul_left hk]

/-- Equal quotients have the same nearest double. -/
theorem Double.nearest_eq_of_mul_eq {num den num' den' : Nat} (hd : 0 < den) (hd' : 0 < den')
    (h : num * den' = num' * den) (negative : Bool) :
    nearest negative num den = nearest negative num' den' := by
  rw [← nearest_mul_left hd', ← nearest_mul_left hd negative num']
  congr 1
  · rw [Nat.mul_comm, h, Nat.mul_comm]
  · exact Nat.mul_comm _ _

theorem Double.nearest_units (negative : Bool) (m : Magnitude) :
    nearest negative m.units 1 = .finite negative m := by
  simp only [nearest, m.nearestRank_units, m.rank_lt, dif_pos]

namespace Decimal

def value (d : Decimal) : ℚ := d.coefficient * (10 : ℚ) ^ d.exponent

theorem value_eq_div (d : Decimal) :
    d.value = (d.coefficient * 10 ^ d.exponent.toNat : ℕ) / (10 ^ (-d.exponent).toNat : ℕ) := by
  have hsplit : d.exponent = (d.exponent.toNat : ℤ) - ((-d.exponent).toNat : ℤ) := by omega
  unfold value
  conv_lhs => rw [hsplit, zpow_sub₀ (by norm_num), zpow_natCast, zpow_natCast]
  push_cast
  ring

/-- A decimal is read as the nearest double to the number it denotes, in whichever way it is
written. -/
theorem nearest_eq_of_value_eq {d e : Decimal} (h : d.value = e.value) (negative : Bool) :
    d.nearest negative = e.nearest negative := by
  have hten : ∀ n : Nat, 0 < 10 ^ n := fun n => Nat.pow_pos (by decide)
  rw [value_eq_div, value_eq_div, div_eq_div_iff (by exact_mod_cast (hten _).ne')
    (by exact_mod_cast (hten _).ne')] at h
  refine Double.nearest_eq_of_mul_eq (hten _) (hten _) ?_ negative
  have hcross : d.coefficient * 10 ^ d.exponent.toNat * 10 ^ (-e.exponent).toNat
      = e.coefficient * 10 ^ e.exponent.toNat * 10 ^ (-d.exponent).toNat := by exact_mod_cast h
  simp only [Nat.pow_eq]
  rw [Nat.mul_right_comm, hcross, Nat.mul_right_comm]

theorem value_strip (d : Decimal) : d.strip.value = d.value := by
  fun_induction strip d with
  | case1 d h => simp [value, h]
  | case2 => rfl
  | case3 d h hten ih =>
    have hten : d.coefficient = 10 * (d.coefficient / 10) := by omega
    rw [ih]
    unfold value
    conv_rhs => rw [hten]
    rw [zpow_add_one₀ (by norm_num)]
    push_cast
    ring

end Decimal

namespace Magnitude

theorem nearest_exactDecimal (m : Magnitude) : m.exactDecimal.nearest false = .finite false m := by
  have hplaces : (-m.exactDecimal.exponent).toNat = 1074 := rfl
  rw [← Double.nearest_units]
  refine Double.nearest_eq_of_mul_eq (Nat.pow_pos (by decide)) Nat.one_pos ?_ false
  rw [hplaces]
  unfold exactDecimal unitsPerOne
  -- the exponent is too large to compute with
  generalize 1074 = n
  calc m.units * Nat.pow 5 n * 1 * 1 <<< n * 1 = m.units * (5 ^ n * 2 ^ n) := by
        rw [Nat.one_shiftLeft, Nat.mul_one, Nat.mul_one, Nat.mul_assoc]
        rfl
    _ = m.units * 10 ^ n := by rw [← Nat.mul_pow]

/-- What is written for a magnitude reads back as it. -/
theorem nearest_shortest (m : Magnitude) : m.shortest.nearest false = .finite false m := by
  unfold shortest
  split
  · rename_i h0
    have hunits : m.units = 0 := by
      unfold units
      rw [h0, if_pos (by decide)]
    rw [← Double.nearest_units, hunits]
    simp [Decimal.nearest]
  · rw [Decimal.nearest_eq_of_value_eq (Decimal.value_strip _)]
    rcases hfound : (List.range 17).findSome? fun n => m.onGrid? (m.decimalPoint - (n + 1 : Nat))
      with _ | d
    · exact m.nearest_exactDecimal
    · obtain ⟨n, -, hgrid⟩ := List.exists_of_findSome?_eq_some hfound
      simpa [onGrid?] using List.find?_some hgrid

end Magnitude

end Reckoner
