import Mathlib.Algebra.Ring.Parity
import Reckoner.Proofs.Factorials

/-!
# The signs of powers

Whether an exponent is whole, and whether it is odd, is found from its units, and this agrees with
its value as a number (`Magnitude.isWhole_iff`, `Magnitude.isOddWhole_of_units`). Taking the
negative of the base changes nothing at an even exponent and the sign at an odd one
(`Double.neg_pow`), whether the power is a number, overflows or is none.

An overflow is refused by the strict power and made good with a sign of its own, and this is the
sign that the power has anyway (`Guarded.pow_eq`, `Double.pow_eq_infinite`).
-/

namespace Reckoner

namespace Magnitude

variable {m : Magnitude} {n : Nat}

theorem unitsPerOne_ne_zero : unitsPerOne ≠ 0 := by decide

theorem isWhole_iff : m.isWhole = true ↔ ∃ n, m.units = n * unitsPerOne := by
  rw [isWhole, beq_iff_eq, ← Nat.dvd_iff_mod_eq_zero, dvd_iff_exists_eq_mul_left]

theorem isOddWhole_of_units (h : m.units = n * unitsPerOne) : m.isOddWhole = decide (Odd n) := by
  have hfloor : m.floor = n := by
    rw [floor, h, Nat.mul_div_cancel _ (Nat.pos_of_ne_zero unitsPerOne_ne_zero)]
  rw [Bool.eq_iff_iff]
  simp [isOddWhole, isWhole_iff.mpr ⟨n, h⟩, hfloor, Nat.odd_iff]

theorem isWhole_of_isOddWhole (h : m.isOddWhole = true) : m.isWhole = true := by
  simp only [isOddWhole, Bool.and_eq_true] at h
  exact h.1

end Magnitude

namespace Double

variable {s : Bool} {m : Magnitude} {n : Nat}

theorem value_eq_iff {k : ℤ} : value s m = k ↔ signedUnits s m = k * Magnitude.unitsPerOne := by
  rw [value, div_eq_iff Magnitude.unitsPerOne_pos.ne']
  exact_mod_cast Iff.rfl

theorem value_eq_natCast_iff :
    value s m = n ↔ (finite s m).isBelowZero = false ∧ m.units = n * Magnitude.unitsPerOne := by
  have hunits := value_eq_iff (s := s) (m := m) (k := n)
  rw [Int.cast_natCast] at hunits
  rw [hunits]
  constructor
  · intro h
    have hbelow : (finite s m).isBelowZero = false := by
      rw [Bool.eq_false_iff]
      intro hneg
      rw [isBelowZero_finite, h] at hneg
      exact absurd hneg (not_lt.mpr (Int.mul_nonneg (Int.natCast_nonneg _) (Int.natCast_nonneg _)))
    rw [signedUnits_of_not_below hbelow] at h
    exact ⟨hbelow, by exact_mod_cast h⟩
  · rintro ⟨hbelow, h⟩
    rw [signedUnits_of_not_below hbelow, h, Nat.cast_mul]

theorem isBelowZero_of_zero_less (h : zero.less (finite s m) = true) :
    s = false ∧ (finite s m).isBelowZero = false := by
  have hpos : 0 < signedUnits s m := by simpa [zero, less] using h
  cases s
  · simp [isBelowZero]
  · simp only [signedUnits, ↓reduceIte] at hpos
    omega

theorem isOddWhole_iff_value (hs : (finite s m).isBelowZero = false) :
    m.isOddWhole = true ↔ ∃ n : ℕ, Odd n ∧ value s m = n := by
  constructor
  · intro ho
    obtain ⟨n, hn⟩ := Magnitude.isWhole_iff.mp (Magnitude.isWhole_of_isOddWhole ho)
    rw [Magnitude.isOddWhole_of_units hn, decide_eq_true_eq] at ho
    exact ⟨n, ho, value_eq_natCast_iff.mpr ⟨hs, hn⟩⟩
  · rintro ⟨n, hn, hv⟩
    rw [Magnitude.isOddWhole_of_units (value_eq_natCast_iff.mp hv).2, decide_eq_true_eq]
    exact hn

/-- At a whole exponent other than zero, only the sign has to be decided. -/
theorem finite_pow {t : Bool} {b : Magnitude} (h0 : m.rank ≠ 0) (hw : m.isWhole = true) :
    (finite t b).pow (finite s m) = if t && m.isOddWhole then (b.pow m).neg else b.pow m := by
  -- one is taken before the base is looked at, and its powers are one anyway
  by_cases hone : finite t b = .one
  · obtain ⟨rfl, rfl⟩ : t = false ∧ b = .one := by simpa [one] using hone
    simp [pow, hone, Magnitude.pow]
  · simp [pow, isZero, h0, hone, hw]

theorem neg_pow (b : Double) (h : value s m = n) :
    b.neg.pow (finite s m) = if Even n then b.pow (finite s m) else (b.pow (finite s m)).neg := by
  obtain ⟨-, hunits⟩ := value_eq_natCast_iff.mp h
  have hodd := Magnitude.isOddWhole_of_units hunits
  by_cases h0 : m.rank = 0
  · have hn : n = 0 := by
      rw [m.units_eq_zero_iff.mpr h0] at hunits
      simpa [Magnitude.unitsPerOne_ne_zero] using hunits.symm
    simp [pow, isZero, h0, hn]
  have hz : (finite s m).isZero = false := by simpa [isZero] using h0
  have hw := Magnitude.isWhole_iff.mpr ⟨n, hunits⟩
  rcases b with _ | t | ⟨t, b⟩
  · simp [pow, neg, hz, one]
  · by_cases heven : Even n <;> simp [pow, neg, hz, one, hodd, heven, ← Nat.not_even_iff_odd]
  · rw [neg, finite_pow h0 hw, finite_pow h0 hw, hodd]
    by_cases heven : Even n
    · simp [heven, ← Nat.not_even_iff_odd]
    · cases t <;> simp [heven, ← Nat.not_even_iff_odd, neg_neg]

/-- An overflow is negative if the base is and the exponent is odd. -/
theorem pow_eq_infinite {t u : Bool} {b : Magnitude} (hs : (finite s m).isBelowZero = false)
    (h : (finite t b).pow (finite s m) = .infinite u) :
    u = true ↔ (finite t b).isBelowZero = true ∧ ∃ n : ℕ, Odd n ∧ value s m = n := by
  rw [Guarded.pow_finite_eq_infinite h, Bool.and_eq_true, isOddWhole_iff_value hs]

theorem pow_eq_nan {t : Bool} {b : Magnitude} (hb : (finite t b).isBelowZero = true)
    (hw : m.isWhole = false) : (finite t b).pow (finite s m) = .nan := by
  obtain ⟨rfl, hrank⟩ : t = true ∧ b.rank ≠ 0 := by simpa [isBelowZero] using hb
  have h0 : m.rank ≠ 0 := by
    intro h0
    rw [Magnitude.isWhole, m.units_eq_zero_iff.mpr h0] at hw
    simp at hw
  simp [pow, isZero, one, h0, hrank, hw]

end Double

namespace BinaryOp

theorem pow_error_iff (b e : Double) (fault : Fault) :
    pow.apply b e = .error fault ↔ fault = .invalidExponent e ∧ e.isBelowZero = true := by
  by_cases he : e.isBelowZero = true <;> simp [apply, Double.pow?, he, eq_comm]

theorem pow_of_not_below {e : Double} (he : e.isBelowZero = false) (b : Double) :
    pow.apply b e = .ok (b.pow e) := by
  simp [apply, Double.pow?, he]

/-- A power is refused for an exponent below zero and for no other reason, also where the strict
power has to be made good. At a whole exponent the negative of the base gives the same power if the
exponent is even, and the negative of it if the exponent is odd. This holds for infinite powers too:
one that overflows is negative exactly if the base is and the exponent is odd. A base below zero has
no power with an exponent between two whole numbers. -/
theorem pow_keeps_sign :
    (∀ b e fault, pow.apply b e = .error fault
      ↔ fault = .invalidExponent e ∧ e.less .zero = true)
    ∧ (∀ b e, Guarded.pow b e = .ok (pow.apply b e))
    ∧ (∀ b s m (n : ℕ), Double.value s m = n → ∃ z, pow.apply b (.finite s m) = .ok z
      ∧ pow.apply b.neg (.finite s m) = .ok (if Even n then z else z.neg))
    ∧ (∀ t b s m u, pow.apply (.finite t b) (.finite s m) = .ok (.infinite u) →
      (u = true ↔ (Double.finite t b).less .zero = true ∧ ∃ n : ℕ, Odd n ∧ Double.value s m = n))
    ∧ ∀ t b s m, (Double.finite t b).less .zero = true → Double.zero.less (.finite s m) = true →
      (∀ k : ℤ, Double.value s m ≠ k) → pow.apply (.finite t b) (.finite s m) = .ok .nan := by
  simp only [Double.less_zero]
  refine ⟨pow_error_iff, Guarded.pow_eq, fun b s m n h => ?_, fun t b s m u h => ?_,
    fun t b s m hb he hk => ?_⟩
  · have hbelow := (Double.value_eq_natCast_iff.mp h).1
    refine ⟨b.pow (.finite s m), pow_of_not_below hbelow b, ?_⟩
    rw [pow_of_not_below hbelow, Double.neg_pow b h]
  · have hbelow : (Double.finite s m).isBelowZero = false := by
      rw [Bool.eq_false_iff]
      intro hbelow
      rw [(pow_error_iff _ _ _).mpr ⟨rfl, hbelow⟩] at h
      cases h
    rw [pow_of_not_below hbelow, Except.ok.injEq] at h
    exact Double.pow_eq_infinite hbelow h
  · obtain ⟨rfl, hbelow⟩ := Double.isBelowZero_of_zero_less he
    have hw : m.isWhole = false := by
      rw [Bool.eq_false_iff]
      intro hw
      obtain ⟨n, hn⟩ := Magnitude.isWhole_iff.mp hw
      have hvalue := Double.value_eq_natCast_iff.mpr ⟨hbelow, hn⟩
      exact hk n (by rw [hvalue, Int.cast_natCast])
    rw [pow_of_not_below hbelow, Double.pow_eq_nan hb hw]

/-- The cube of the largest double overflows with the sign of the base, and minus two has no square
root. -/
theorem pow_keeps_sign_overflow :
    let largest : Magnitude := ⟨rankCount - 1, by decide⟩
    let two : Magnitude := ⟨1024 * blockSize, by decide⟩
    let three : Magnitude := ⟨1024 * blockSize + blockSize / 2, by decide⟩
    let half : Magnitude := ⟨1022 * blockSize, by decide⟩
    Double.value false three = (3 : ℕ)
      ∧ pow.apply (.finite false largest) (.finite false three) = .ok (.infinite false)
      ∧ pow.apply (.finite true largest) (.finite false three) = .ok (.infinite true)
      ∧ (Double.finite true largest).less .zero = true
      ∧ (Double.finite true two).less .zero = true
      ∧ Double.zero.less (.finite false half) = true
      ∧ (∀ k : ℤ, Double.value false half ≠ k)
      ∧ pow.apply (.finite true two) (.finite false half) = .ok .nan := by
  intro largest two three half
  obtain ⟨-, -, hsign, hoverflow, hnan⟩ := pow_keeps_sign
  have hthree : Double.value false three = (3 : ℕ) :=
    Double.value_eq_natCast_iff.mpr ⟨rfl, by decide +kernel⟩
  have hcube : pow.apply (.finite false largest) (.finite false three) = .ok (.infinite false) := by
    decide +kernel
  have hnegative : pow.apply (.finite true largest) (.finite false three)
      = .ok (.infinite true) := by
    obtain ⟨z, hz, hneg⟩ := hsign (.finite false largest) false three 3 hthree
    rw [hcube, Except.ok.injEq] at hz
    rw [← hz, if_neg (by decide)] at hneg
    exact hneg
  have htwo : (Double.finite true two).less .zero = true := by decide +kernel
  have hhalf : Double.zero.less (.finite false half) = true := by decide +kernel
  have hbetween : ∀ k : ℤ, Double.value false half ≠ k := by
    intro k hk
    have hunits : (Magnitude.unitsPerOne : ℤ) = 2 * Double.signedUnits false half := by
      decide +kernel
    have hne : Double.signedUnits false half ≠ 0 := by decide +kernel
    rw [Double.value_eq_iff, hunits] at hk
    have hzero : Double.signedUnits false half * (1 - 2 * k) = 0 := by linarith
    rcases mul_eq_zero.mp hzero with h | h
    · exact hne h
    · omega
  exact ⟨hthree, hcube, hnegative, ((hoverflow _ _ _ _ _ hnegative).mp rfl).1, htwo, hhalf,
    hbetween, hnan _ _ _ _ htwo hhalf hbetween⟩

end BinaryOp

end Reckoner
