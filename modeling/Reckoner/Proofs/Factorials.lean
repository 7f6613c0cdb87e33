import Mathlib.Algebra.Order.Floor.Semifield
import Mathlib.Data.Nat.Factorial.Basic
import Mathlib.Data.Rat.Floor
import Reckoner.Proofs.NearestDouble

/-!
# Factorials

The factorial of a double is the nearest double to the exact factorial of its whole part
(`UnaryOp.factorial_finite`). The constant from which it is infinite is where that overflows
(`Double.factorial_lt_overflow_iff`), so both sides of the constant follow one rule, and the
factorials keep the order of their operands (`UnaryOp.factorial_atLeast`).
-/

namespace Reckoner

open scoped Nat

theorem productTo_eq_factorial (n : Nat) : productTo n = n ! := by
  induction n with
  | zero => rfl
  | succ n ih => rw [productTo, ih, Nat.factorial_succ]

namespace Double

theorem less_zero (x : Double) : x.less .zero = x.isBelowZero := by
  cases x with
  | nan => rfl
  | infinite s => rfl
  | finite s m =>
    have hs := isBelowZero_finite (s := s) (m := m)
    simp only [zero, less, signedUnits_zero, ← hs]
    simp

/-- Of a value that is not below zero the whole part is found by whole division of its units. -/
theorem floor_value {s : Bool} {m : Magnitude} (h : (finite s m).isBelowZero = false) :
    ⌊value s m⌋₊ = m.floor := by
  unfold value Magnitude.floor
  rw [signedUnits_of_not_below h, Int.cast_natCast, Nat.floor_div_eq_div]

theorem natCast_lt_overflow_iff (n : Nat) : (n : ℚ) < overflow ↔ n + 2 ^ 970 < 2 ^ 1024 := by
  unfold overflow
  -- the powers are too large to compute with
  generalize 970 = i
  generalize 1024 = j
  rw [lt_sub_iff_add_lt]
  exact_mod_cast Iff.rfl

/-- The factorial of 171 is the first to overflow. -/
theorem factorial_lt_overflow_iff (n : Nat) : (n ! : ℚ) < overflow ↔ n < 171 := by
  have hlast : 170 ! + 2 ^ 970 < 2 ^ 1024 := by decide +kernel
  have hfirst : 2 ^ 1024 ≤ 171 ! + 2 ^ 970 := by decide +kernel
  rw [natCast_lt_overflow_iff]
  constructor
  · intro h
    by_contra hn
    have hle := Nat.add_le_add_right (Nat.factorial_le (Nat.not_lt.mp hn)) (2 ^ 970)
    exact Nat.lt_irrefl _ (Nat.lt_of_lt_of_le h (Nat.le_trans hfirst hle))
  · intro hn
    have hle := Nat.add_le_add_right (Nat.factorial_le (Nat.le_of_lt_succ hn)) (2 ^ 970)
    exact Nat.lt_of_le_of_lt hle hlast

theorem isNearest_ofNat (n : Nat) : IsNearest n (ofNat n) := by
  refine isNearest_nearest Nat.one_pos ?_
  rw [Nat.cast_one, mul_one, Nat.cast_mul]

end Double

namespace UnaryOp

theorem factorial_error_iff (x : Double) (fault : Fault) :
    factorial.apply x = .error fault
      ↔ fault = .invalidFactorial x ∧ (x = .nan ∨ x.isBelowZero = true) := by
  have hnone : x.factorial? = none ↔ x = .nan ∨ x.isBelowZero = true := by
    rcases x with _ | s | ⟨s, m⟩
    · simp [Double.factorial?]
    · simp [Double.factorial?, Double.isBelowZero]
    · by_cases hs : (s && m.rank != 0) = true
      · simp [Double.factorial?, Double.isBelowZero, hs]
      · by_cases hm : 171 ≤ m.floor <;> simp [Double.factorial?, Double.isBelowZero, hs, hm]
  rw [← hnone]
  cases hx : x.factorial? with
  | none => simp [apply, hx, eq_comm]
  | some y => simp [apply, hx]

theorem factorial_finite {s : Bool} {m : Magnitude}
    (h : (Double.finite s m).isBelowZero = false) :
    ∃ y, factorial.apply (.finite s m) = .ok y ∧ Double.IsNearest (m.floor ! : ℕ) y
      ∧ (y = .infinite false ↔ 171 ≤ m.floor) := by
  have hs : (s && m.rank != 0) = false := h
  by_cases hbound : 171 ≤ m.floor
  · refine ⟨.infinite false, by simp [apply, Double.factorial?, hs, hbound], ?_, by simp [hbound]⟩
    exact ⟨rfl, not_lt.mp (mt (Double.factorial_lt_overflow_iff _).mp (Nat.not_lt.mpr hbound))⟩
  · have hnearest := Double.isNearest_ofNat (m.floor !)
    refine ⟨.ofNat (m.floor !), ?_, hnearest, ?_⟩
    · simp [apply, Double.factorial?, hs, hbound, productTo_eq_factorial]
    · refine iff_of_false (fun hy => ?_) hbound
      rw [hy] at hnearest
      exact absurd ((Double.factorial_lt_overflow_iff _).mpr (by omega)) (not_lt.mpr hnearest.2)

/-- Everything that has a factorial. -/
theorem factorial_ok_cases {x u : Double} (h : factorial.apply x = .ok u) :
    (x = .infinite false ∧ u = .infinite false)
      ∨ ∃ s m, x = .finite s m ∧ x.isBelowZero = false ∧ Double.IsNearest (m.floor ! : ℕ) u := by
  have hx : ¬ (x = .nan ∨ x.isBelowZero = true) := by
    intro hbad
    rw [(factorial_error_iff x _).mpr ⟨rfl, hbad⟩] at h
    cases h
  rcases x with _ | s | ⟨s, m⟩
  · exact absurd (Or.inl rfl) hx
  · obtain rfl : s = false := by simpa [Double.isBelowZero] using hx
    cases h
    exact Or.inl ⟨rfl, rfl⟩
  · have hbelow : (Double.finite s m).isBelowZero = false := by simpa using hx
    obtain ⟨y, hy, hnearest, -⟩ := factorial_finite hbelow
    rw [hy] at h
    cases h
    exact Or.inr ⟨s, m, rfl, hbelow, hnearest⟩

theorem factorial_atLeast {x y u v : Double} (h : y.atLeast x = true)
    (hx : factorial.apply x = .ok u) (hy : factorial.apply y = .ok v) : v.atLeast u = true := by
  rcases factorial_ok_cases hy with ⟨rfl, rfl⟩ | ⟨t, b, rfl, hb, hv⟩
  · rcases factorial_ok_cases hx with ⟨-, rfl⟩ | ⟨s, a, rfl, ha, hu⟩
    · rfl
    · refine Double.infinite_atLeast ?_
      rintro rfl
      exact hu
  rcases factorial_ok_cases hx with ⟨rfl, rfl⟩ | ⟨s, a, rfl, ha, hu⟩
  · cases h
  have hunits : a.units ≤ b.units := by
    simpa [Double.atLeast, Double.less, Double.signedUnits_of_not_below ha,
      Double.signedUnits_of_not_below hb] using h
  have hfloor : a.floor ≤ b.floor := Nat.div_le_div_right hunits
  exact hu.atLeast hv (Nat.cast_le.mpr (Nat.factorial_le hfloor))

/-- The factorial is refused for what is not a number or is below zero, and the tolerance decides
nothing, so strict operations behind their guards give it without a refusal of their own. Of any
other finite value it is the double nearest to the exact factorial of the whole
part, which is infinite from 171 on and only there, and of infinity it is infinity. Factorials keep
the order. -/
theorem factorial_nearest :
    (∀ x fault, factorial.apply x = .error fault
      ↔ fault = .invalidFactorial x ∧ (x = .nan ∨ x.less .zero = true))
    ∧ (∀ x : Double, (Guarded.tolerance.less (x.abs.sub x) = true ∨ ¬ x.atLeast .zero = true)
      ↔ ¬ x.atLeast .zero = true)
    ∧ (∀ x : Double, Guarded.factorial x = .ok (factorial.apply x))
    ∧ (∀ s m, (Double.finite s m).less .zero = false → ∃ y, factorial.apply (.finite s m) = .ok y
      ∧ (∀ z, Double.IsNearest (⌊Double.value s m⌋₊ ! : ℕ) z ↔ z = y)
      ∧ (y = .infinite false ↔ 171 ≤ Double.value s m))
    ∧ factorial.apply (.infinite false) = .ok (.infinite false)
    ∧ ∀ x y u v, y.atLeast x = true → factorial.apply x = .ok u → factorial.apply y = .ok v
      → v.atLeast u = true := by
  refine ⟨fun x fault => ?_, fun x => ?_, Guarded.factorial_eq, fun s m hless => ?_, rfl, ?_⟩
  · rw [Double.less_zero]
    exact factorial_error_iff x fault
  · rw [Guarded.guard_iff, Double.atLeast_zero]
    simp [or_iff_not_imp_left]
  · have hbelow : (Double.finite s m).isBelowZero = false := by rwa [← Double.less_zero]
    obtain ⟨y, hy, hnearest, hinf⟩ := factorial_finite hbelow
    rw [← Double.floor_value hbelow] at hnearest hinf
    rw [Nat.le_floor_iff' (by decide)] at hinf
    refine ⟨y, hy, fun z => ⟨fun hz => hz.unique hnearest, ?_⟩, hinf⟩
    rintro rfl
    exact hnearest
  · intro x y u v h hx hy
    exact factorial_atLeast h hx hy

theorem factorial_nearest_negative_zero :
    (Double.finite true .zero).less .zero = false
    ∧ (∃ y, factorial.apply (.finite true .zero) = .ok y
      ∧ (∀ z, Double.IsNearest (⌊Double.value true .zero⌋₊ ! : ℕ) z ↔ z = y)
      ∧ (y = .infinite false ↔ 171 ≤ Double.value true .zero))
    ∧ (Double.ofNat 171).atLeast (.finite true .zero) = true
    ∧ factorial.apply (.finite true .zero) = .ok .one
    ∧ factorial.apply (.ofNat 171) = .ok (.infinite false)
    ∧ (Double.infinite false).atLeast .one = true := by
  have hzero : (Double.finite true .zero).less .zero = false := by decide
  have horder : (Double.ofNat 171).atLeast (.finite true .zero) = true := by decide +kernel
  have hone : factorial.apply (.finite true .zero) = .ok .one := by decide +kernel
  have hinf : factorial.apply (.ofNat 171) = .ok (.infinite false) := by decide +kernel
  obtain ⟨-, -, -, hfinite, -, hmono⟩ := factorial_nearest
  exact ⟨hzero, hfinite true .zero hzero, horder, hone, hinf, hmono _ _ _ _ horder hone hinf⟩

end UnaryOp

end Reckoner
