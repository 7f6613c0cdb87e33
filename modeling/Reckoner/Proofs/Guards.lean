import Reckoner.Proofs.Failures

/-!
# Guards

A strict operation refuses some operands outright: it does not divide by zero, has no root for a
number below zero, and no answer past the largest double. Behind the right guards strict operations
give those of the calculator, and no refusal gets out (`UnaryOp.guarded_eq`, `BinaryOp.guarded_eq`,
`callGuarded_eq`).
-/

namespace Reckoner

/-- Why a strict operation refuses its operands. -/
inductive Refusal where
  | zeroDivision
  | overflow
  | domain
deriving DecidableEq

namespace Double

/-- The sign, which zeros have too. -/
def isNegative : Double → Bool
  | .nan => false
  | .infinite negative => negative
  | .finite negative _ => negative

/-- The first double with the sign of the second. -/
def copySign (x y : Double) : Double := if y.isNegative then x.abs.neg else x.abs

/-- Less than. What is not a number is neither less nor greater than anything. -/
def less : Double → Double → Bool
  | .nan, _ => false
  | _, .nan => false
  | .infinite s, .infinite t => s && !t
  | .infinite s, .finite _ _ => s
  | .finite _ _, .infinite t => !t
  | .finite s a, .finite t b => signedUnits s a < signedUnits t b

def atLeast (x y : Double) : Bool := x ≠ .nan && y ≠ .nan && !x.less y

end Double

namespace Strict

def div (x y : Double) : Except Refusal Double :=
  if y.isZero then .error .zeroDivision else .ok (x.div y)

def sqrt (x : Double) : Except Refusal Double :=
  if x.isBelowZero then .error .domain else .ok x.sqrt

/-- The power for an exponent that is not below zero. That of finite operands must be finite. -/
def pow (x y : Double) : Except Refusal Double :=
  match x, y, x.pow y with
  | .finite _ _, .finite _ _, .nan => .error .domain
  | .finite _ _, .finite _ _, .infinite _ => .error .overflow
  | _, _, z => .ok z

def floor : Double → Except Refusal Int
  | .nan => .error .domain
  | .infinite _ => .error .overflow
  | .finite s m => .ok (Double.signedUnits s m / Magnitude.unitsPerOne)

def factorial (n : Int) : Except Refusal Nat :=
  if n < 0 then .error .domain else .ok (productTo n.toNat)

def inRange : Double → Except Refusal Double
  | .nan => .ok .nan
  | .infinite _ => .error .overflow
  | .finite s m => .ok (.finite s m)

def ofNat (n : Nat) : Except Refusal Double := inRange (.ofNat n)

end Strict

namespace Guarded

def sqrt (x : Double) : Except Refusal Double := if x.isBelowZero then .ok .nan else Strict.sqrt x

def div (x y : Double) : Except Refusal Double :=
  if y.isZero then
    if x.isZero ∨ x = .nan then .ok .nan
    else .ok (((Double.infinite false).copySign x).mul (Double.one.copySign y))
  else Strict.div x y

/-- One part in a hundred million. -/
def tolerance : Double := .nearest false Magnitude.unitsPerOne 100000000

def factorial (x : Double) : Except Refusal (Except Fault Double) :=
  if tolerance.less (x.abs.sub x) ∨ ¬ x.atLeast .zero then .ok (.error (.invalidFactorial x))
  else if x.atLeast (.ofNat 171) then .ok (.ok (.infinite false))
  else do
    let n ← Strict.floor x
    let product ← Strict.factorial n
    let y ← Strict.ofNat product
    return .ok y

def isOddWhole : Double → Bool
  | .finite _ m => m.isOddWhole
  | _ => false

def pow (x y : Double) : Except Refusal (Except Fault Double) :=
  if y.isBelowZero then .ok (.error (.invalidExponent y))
  else
    match Strict.pow x y with
    | .ok z => .ok (.ok z)
    | .error .overflow => .ok (.ok (.infinite (x.isBelowZero && isOddWhole y)))
    | .error .domain => .ok (.ok .nan)
    | .error refusal => .error refusal

end Guarded

def UnaryOp.guarded : UnaryOp → Double → Except Refusal (Except Fault Double)
  | plus, x => .ok (.ok x)
  | minus, x => .ok (.ok x.neg)
  | factorial, x => Guarded.factorial x

def BinaryOp.guarded : BinaryOp → Double → Double → Except Refusal (Except Fault Double)
  | add, x, y => .ok (.ok (x.add y))
  | sub, x, y => .ok (.ok (x.sub y))
  | mul, x, y => .ok (.ok (x.mul y))
  | div, x, y => (Guarded.div x y).map .ok
  | pow, x, y => Guarded.pow x y

def callGuarded (name : String) (x : Double) : Except Refusal (Except Fault Double) :=
  match name with
  | "sqrt" => (Guarded.sqrt x).map .ok
  | "abs" => .ok (.ok x.abs)
  | _ => .ok (.error (.unknownFunction name))

/-! ## No refusal gets out -/

namespace Double

theorem copySign_infinite (x : Double) : (infinite false).copySign x = .infinite x.isNegative := by
  cases h : x.isNegative <;> simp [copySign, h, abs, neg]

theorem infinite_mul_copySign (s : Bool) (y : Double) :
    (infinite s).mul (one.copySign y) = .infinite (s ^^ y.isNegative) := by
  have h1 : Magnitude.one.rank ≠ 0 := by decide
  cases h : y.isNegative <;> simp [copySign, h, abs, neg, one, mul, h1]

end Double

namespace Guarded

theorem sqrt_eq (x : Double) : sqrt x = .ok x.sqrt := by
  unfold sqrt Strict.sqrt
  split
  · rename_i h
    cases x with
    | nan => rfl
    | infinite s =>
      obtain rfl : s = true := h
      rfl
    | finite s m =>
      obtain ⟨rfl, hm⟩ : s = true ∧ m.rank ≠ 0 := by simpa [Double.isBelowZero] using h
      simp [Double.sqrt, hm]
  · rfl

theorem div_eq (x y : Double) : div x y = .ok (x.div y) := by
  unfold div Strict.div
  by_cases hy : y.isZero
  · rw [if_pos hy, Double.copySign_infinite, Double.infinite_mul_copySign]
    rcases y with _ | t | ⟨t, b⟩
    · cases hy
    · cases hy
    have hb : b.rank = 0 := by simpa [Double.isZero] using hy
    rcases x with _ | s | ⟨s, a⟩
    · rfl
    · simp [Double.isZero, Double.isNegative, Double.div]
    · by_cases ha : a.rank = 0 <;> simp [Double.isZero, Double.isNegative, Double.div, hb, ha]
  · rw [if_neg hy, if_neg hy]

end Guarded

namespace Double

theorem isNegative_nearest (negative : Bool) (num den : Nat) :
    (nearest negative num den).isNegative = negative := by
  simp only [nearest]
  split <;> rfl

theorem isNegative_endpoint (m : Nat) (e : Int) : (Enclosure.endpoint m e).isNegative = false := by
  unfold Enclosure.endpoint
  split
  · rfl
  · split
    · rfl
    · exact isNegative_nearest false _ _

/-- The power of a magnitude is one end of an enclosure, unless it is plain. -/
theorem isNegative_pow (b e : Magnitude) : (b.pow e).isNegative = false := by
  unfold Magnitude.pow
  split
  · rfl
  · split
    · rfl
    · split
      · rename_i power hf
        obtain ⟨places, -, hp⟩ := List.exists_of_findSome?_eq_some hf
        simp only [Enclosure.round?, Option.ite_none_right_eq_some, Option.some.injEq] at hp
        rw [← hp.2]
        exact isNegative_endpoint _ _
      · exact isNegative_endpoint _ _

end Double

namespace Guarded

theorem pow_ne_infinite {b e : Magnitude} (hb : b.rank = 0) (u : Bool) :
    b.pow e ≠ .infinite u := by
  unfold Magnitude.pow
  split
  · simp [Double.one]
  · simp [Double.zero]

/-- A power of finite operands that is past every double has the sign of the base if the exponent
is odd. -/
theorem pow_finite_eq_infinite {s t u : Bool} {b e : Magnitude}
    (h : (Double.finite s b).pow (.finite t e) = .infinite u) :
    u = ((Double.finite s b).isBelowZero && e.isOddWhole) := by
  have hn := Double.isNegative_pow b e
  simp only [Double.pow] at h
  split at h
  · cases h
  split at h
  · cases h
  split at h
  · rename_i hodd
    have hp : b.pow e = .infinite (!u) := by
      rw [← Double.neg_neg (b.pow e), h]
      rfl
    have hb : b.rank ≠ 0 := fun hb => pow_ne_infinite hb _ hp
    rw [hp, Double.isNegative, Bool.not_eq_false'] at hn
    simp [hn, hodd, hb, Double.isBelowZero]
  · rename_i hodd
    rw [h, Double.isNegative] at hn
    subst hn
    cases s with
    | false => rfl
    | true =>
      have heven : e.isOddWhole = false := by simpa using hodd
      simp [heven]

theorem pow_eq (x y : Double) : pow x y = .ok (BinaryOp.pow.apply x y) := by
  simp only [pow, BinaryOp.apply, Double.pow?]
  by_cases hy : y.isBelowZero
  · simp only [hy, if_true]
  · simp only [hy, if_false, Bool.false_eq_true]
    -- only finite operands can be refused
    rcases x with _ | s | ⟨s, b⟩
    · rfl
    · rfl
    rcases y with _ | t | ⟨t, e⟩
    · rfl
    · rfl
    rcases hz : (Double.finite s b).pow (.finite t e) with _ | u | ⟨u, m⟩
    · simp only [Strict.pow, hz]
    · simp only [Strict.pow, hz, isOddWhole, pow_finite_eq_infinite hz]
    · simp only [Strict.pow, hz]

end Guarded

theorem Magnitude.units_eq_zero_iff (m : Magnitude) : m.units = 0 ↔ m.rank = 0 := by
  unfold units
  split
  · rfl
  · have hb : 0 < blockSize := by decide
    simp only [Nat.shiftLeft_eq, Nat.mul_eq_zero, Nat.pow_eq_zero]
    omega

namespace Double

theorem nearest_ne_nan (negative : Bool) (num den : Nat) : nearest negative num den ≠ .nan := by
  simp only [nearest]
  split <;> simp

theorem isBelowZero_finite {s : Bool} {m : Magnitude} :
    (finite s m).isBelowZero = true ↔ signedUnits s m < 0 := by
  have h := m.units_eq_zero_iff
  cases s with
  | false => simp [isBelowZero, signedUnits]
  | true =>
    simp only [isBelowZero, signedUnits, Bool.true_and, bne_iff_ne, ne_eq, if_true]
    omega

theorem signedUnits_of_not_below {s : Bool} {m : Magnitude}
    (h : (finite s m).isBelowZero = false) : signedUnits s m = m.units := by
  cases s with
  | false => rfl
  | true =>
    have hr : m.rank = 0 := by simpa [isBelowZero] using h
    simp [signedUnits, m.units_eq_zero_iff.mpr hr]

@[simp] theorem signedUnits_zero : signedUnits false .zero = 0 := by decide

theorem atLeast_zero (x : Double) : x.atLeast .zero = (x ≠ .nan && !x.isBelowZero) := by
  cases x with
  | nan => rfl
  | infinite s => cases s <;> rfl
  | finite s m =>
    have hs := isBelowZero_finite (s := s) (m := m)
    simp only [atLeast, zero, less, signedUnits_zero, ← hs]
    simp

theorem infinite_atLeast {y : Double} (hy : y ≠ .nan) : (infinite false).atLeast y = true := by
  cases y with
  | nan => exact absurd rfl hy
  | _ => rfl

/-- Nothing is left of a number that is not below zero if it is taken from its size. -/
theorem not_less_abs_sub {x y : Double} (hx : x.isBelowZero = false) (hy : y.isNegative = false) :
    y.less (x.abs.sub x) = false := by
  cases x with
  | nan => cases y <;> rfl
  | infinite s =>
    cases s with
    | false => cases y <;> rfl
    | true => simp [isBelowZero] at hx
  | finite s m =>
    have hneg : signedUnits (!s) m = -signedUnits s m := by cases s <;> simp [signedUnits]
    have hsum : signedUnits false m + signedUnits (!s) m = 0 := by
      rw [hneg, signedUnits_of_not_below hx]
      exact Int.add_right_neg (m.units : Int)
    simp only [sub, abs, neg, add, hsum, if_true, Bool.false_and]
    cases y with
    | nan => rfl
    | infinite t => exact hy
    | finite t a =>
      obtain rfl : t = false := hy
      simp only [less, signedUnits_zero]
      simp [signedUnits]

end Double

theorem roundDiv_le (num den : Nat) : roundDiv num den ≤ num / den + 1 := by
  simp only [roundDiv]
  split <;> omega

/-- A number of `53 + k` binary places at most passes over `k` blocks of ranks, and its kept places
fill no more than two others. -/
theorem Magnitude.nearestRank_le {num den k : Nat} (h : (num / den).log2 ≤ 52 + k) :
    nearestRank num den ≤ (k + 2) * blockSize := by
  simp only [nearestRank]
  generalize hd : (num / den).log2 - 52 = dropped
  have hlt : num / den < 2 ^ dropped * 2 ^ 53 := by
    rw [← Nat.pow_add]
    exact Nat.lt_of_lt_of_le Nat.lt_log2_self (Nat.pow_le_pow_right (by decide) (by omega))
  have hq : num / (den <<< dropped) < 2 ^ 53 := by
    rw [Nat.shiftLeft_eq, ← Nat.div_div_eq_div_mul]
    exact Nat.div_lt_of_lt_mul hlt
  have hr := roundDiv_le num (den <<< dropped)
  have hb : 2 * blockSize = 2 ^ 53 := by decide
  calc dropped * blockSize + roundDiv num (den <<< dropped)
      ≤ k * blockSize + 2 * blockSize :=
        Nat.add_le_add (Nat.mul_le_mul_right _ (by omega)) (by omega)
    _ = (k + 2) * blockSize := (Nat.add_mul _ _ _).symm

theorem productTo_le {n k : Nat} (h : n ≤ k) : productTo n ≤ productTo k := by
  induction h with
  | refl => exact Nat.le_refl _
  | step _ ih => exact Nat.le_trans ih (Nat.le_mul_of_pos_left _ (Nat.succ_pos _))

theorem Strict.ofNat_eq {n : Nat}
    (h : Magnitude.nearestRank (n * Magnitude.unitsPerOne) 1 < rankCount) :
    ofNat n = .ok (.ofNat n) := by
  obtain ⟨m, hm⟩ : ∃ m, Double.ofNat n = .finite false m := by
    simp only [Double.ofNat, Double.nearest, dif_pos h]
    exact ⟨_, rfl⟩
  unfold ofNat
  rw [hm]
  rfl

namespace Guarded

/-- The factorials below the bound are doubles. -/
theorem ofNat_productTo {n : Nat} (hn : n < 171) :
    Strict.ofNat (productTo n) = .ok (.ofNat (productTo n)) := by
  have hpos (k : Nat) : productTo k * Magnitude.unitsPerOne ≠ 0 :=
    Nat.ne_of_gt (Nat.mul_pos (productTo_le (Nat.zero_le k)) (by decide))
  have hle := Nat.mul_le_mul_right Magnitude.unitsPerOne (productTo_le (Nat.le_of_lt_succ hn))
  have hlog : (productTo n * Magnitude.unitsPerOne / 1).log2
      ≤ (productTo 170 * Magnitude.unitsPerOne).log2 := by
    rw [Nat.div_one, Nat.le_log2 (hpos 170)]
    exact Nat.le_trans (Nat.log2_self_le (hpos n)) hle
  have h170 : (productTo 170 * Magnitude.unitsPerOne).log2 ≤ 52 + 2044 := by decide +kernel
  have hr := Magnitude.nearestRank_le (Nat.le_trans hlog h170)
  exact Strict.ofNat_eq (Nat.lt_of_le_of_lt hr (by decide))

theorem atLeast_bound {s : Bool} {m : Magnitude} (h : (Double.finite s m).isBelowZero = false) :
    (Double.finite s m).atLeast (.ofNat 171) = true ↔ 171 ≤ m.floor := by
  have h171 : Double.ofNat 171 = .finite false ⟨1030 * blockSize + 43 * 2 ^ 45, by decide⟩ := by
    decide +kernel
  have hunits : Double.signedUnits false ⟨1030 * blockSize + 43 * 2 ^ 45, by decide⟩
      = (171 * Magnitude.unitsPerOne : Nat) := by decide +kernel
  have hone : 0 < Magnitude.unitsPerOne := by decide
  rw [h171, Magnitude.floor, Nat.le_div_iff_mul_le hone]
  simp only [Double.atLeast, Double.less, hunits, Double.signedUnits_of_not_below h, Int.ofNat_lt]
  simp

/-- The tolerance decides nothing: what it would refuse is below zero. -/
theorem guard_iff (x : Double) :
    (tolerance.less (x.abs.sub x) = true ∨ ¬ x.atLeast .zero = true)
      ↔ x = .nan ∨ x.isBelowZero = true := by
  rw [Double.atLeast_zero]
  cases hx : x.isBelowZero with
  | false =>
    have ht : tolerance.isNegative = false := Double.isNegative_nearest false _ _
    simp [Double.not_less_abs_sub hx ht]
  | true => simp

theorem factorial_eq (x : Double) : factorial x = .ok (UnaryOp.factorial.apply x) := by
  simp only [factorial, guard_iff, UnaryOp.apply]
  split
  · rename_i h
    rcases x with _ | s | ⟨s, m⟩
    · rfl
    · obtain rfl : s = true := by simpa [Double.isBelowZero] using h
      rfl
    · have hs : (s && m.rank != 0) = true := by simpa [Double.isBelowZero] using h
      simp only [Double.factorial?, hs, if_true]
  · rename_i h
    rcases x with _ | s | ⟨s, m⟩
    · exact absurd (Or.inl rfl) h
    · obtain rfl : s = false := by simpa [Double.isBelowZero] using h
      have hbound : Double.ofNat 171 ≠ .nan := Double.nearest_ne_nan false _ _
      rw [if_pos (Double.infinite_atLeast hbound)]
      rfl
    · have hx : (Double.finite s m).isBelowZero = false := by simpa using h
      have hs : (s && m.rank != 0) = false := hx
      have hfloor : Strict.floor (.finite s m) = .ok m.floor := by
        rw [Strict.floor, Double.signedUnits_of_not_below hx, Magnitude.floor, Int.natCast_ediv]
      have hproduct : Strict.factorial m.floor = .ok (productTo m.floor) := by
        simp [Strict.factorial]
      simp only [Double.factorial?, hs, Bool.false_eq_true, if_false]
      by_cases hbound : (Double.finite s m).atLeast (.ofNat 171) = true
      · rw [if_pos hbound, if_pos ((atLeast_bound hx).mp hbound)]
      · have hlt := Nat.not_le.mp (mt (atLeast_bound hx).mpr hbound)
        rw [if_neg hbound, if_neg (Nat.not_le.mpr hlt), hfloor, ok_bind, hproduct, ok_bind,
          ofNat_productTo hlt, ok_bind]
        rfl

end Guarded

theorem UnaryOp.guarded_eq (op : UnaryOp) (x : Double) : op.guarded x = .ok (op.apply x) := by
  cases op with
  | plus | minus => rfl
  | factorial => exact Guarded.factorial_eq x

theorem BinaryOp.guarded_eq (op : BinaryOp) (x y : Double) :
    op.guarded x y = .ok (op.apply x y) := by
  cases op with
  | add | sub | mul => rfl
  | div =>
    simp only [guarded, Guarded.div_eq]
    rfl
  | pow => exact Guarded.pow_eq x y

theorem callGuarded_eq (name : String) (x : Double) :
    callGuarded name x = .ok (callFunction name x) := by
  unfold callGuarded
  split
  · rw [Guarded.sqrt_eq]
    rfl
  · rfl
  · rename_i hsqrt habs
    have hf : function? name = none := by
      unfold function?
      split
      · exact absurd rfl hsqrt
      · exact absurd rfl habs
      · rfl
    rw [callFunction, hf]

end Reckoner
