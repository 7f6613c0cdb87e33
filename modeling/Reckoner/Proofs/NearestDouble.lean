import Mathlib.Algebra.Order.Field.Rat
import Mathlib.Algebra.Order.Ring.Abs
import Mathlib.Tactic.Linarith
import Mathlib.Tactic.Ring
import Reckoner.Proofs.Guards
import Reckoner.Proofs.Rounding

/-!
# Correct rounding

What it means for a double to be the nearest to a number (`Double.IsNearest`), that rounding gives
such a double (`Double.isNearest_nearest`), and that there is no other (`Double.IsNearest.unique`).
A quotient lies between two ranks in a row, and rounding takes the nearer of them
(`Magnitude.nearestRank_cases`). Units grow with the rank, so no rank further out is nearer. The
overflow is the middle between the last rank and the first that is missing.
-/

namespace Reckoner

namespace Magnitude

/-- The units at a rank, as if there were no largest one. -/
def unitsAt (rank : Nat) : Nat :=
  if rank < blockSize then rank
  else (blockSize + rank % blockSize) <<< (rank / blockSize - 1)

theorem unitsAt_rank (m : Magnitude) : unitsAt m.rank = m.units := rfl

theorem eq_of_rank_eq {a b : Magnitude} (h : a.rank = b.rank) : a = b := by
  cases a
  cases b
  cases h
  rfl

/-- After `k` blocks, two more have ranks `2 ^ k` units apart. The first block of all has no block
before it and starts at zero. -/
theorem unitsAt_mul_add {k f : Nat} (hk : k = 0 ∨ blockSize ≤ f) (hf : f ≤ 2 * blockSize) :
    unitsAt (k * blockSize + f) = f * 2 ^ k := by
  have hb : 0 < blockSize := by decide
  have hblock (j g : Nat) (hg : g < blockSize) :
      unitsAt (blockSize * (j + 1) + g) = (blockSize + g) * 2 ^ j := by
    have hlarge : ¬ blockSize * (j + 1) + g < blockSize := by
      rw [Nat.mul_succ]
      omega
    rw [unitsAt, if_neg hlarge, Nat.mul_add_mod, Nat.mod_eq_of_lt hg, Nat.mul_add_div hb,
      Nat.div_eq_of_lt hg, Nat.shiftLeft_eq]
    rfl
  by_cases hsmall : f < blockSize
  · obtain rfl : k = 0 := by omega
    simp [unitsAt, hsmall]
  by_cases htop : f = 2 * blockSize
  · have hrank : k * blockSize + f = blockSize * (k + 1 + 1) + 0 := by
      rw [htop]
      ring
    rw [hrank, hblock (k + 1) 0 hb, htop]
    ring
  · have hrank : k * blockSize + f = blockSize * (k + 1) + (f - blockSize) := by
      rw [Nat.mul_succ, Nat.mul_comm]
      omega
    have hsum : blockSize + (f - blockSize) = f := by omega
    rw [hrank, hblock k (f - blockSize) (by omega), hsum]

theorem unitsAt_lt_succ (rank : Nat) : unitsAt rank < unitsAt (rank + 1) := by
  obtain ⟨k, f, rfl, hk, hf⟩ :
      ∃ k f, rank = k * blockSize + f ∧ (k = 0 ∨ blockSize ≤ f) ∧ f < 2 * blockSize := by
    have hb : 0 < blockSize := by decide
    have hmod := Nat.mod_lt rank hb
    have hrank := Nat.div_add_mod rank blockSize
    rcases hk : rank / blockSize with _ | k
    · rw [hk, Nat.mul_zero] at hrank
      exact ⟨0, rank, by omega, Or.inl rfl, by omega⟩
    · rw [hk, Nat.mul_succ, Nat.mul_comm] at hrank
      exact ⟨k, blockSize + rank % blockSize, by omega, Or.inr (by omega), by omega⟩
  have hnext := unitsAt_mul_add (k := k) (f := f + 1) (by omega) (by omega)
  rw [Nat.add_assoc, hnext, unitsAt_mul_add hk (by omega)]
  exact Nat.mul_lt_mul_of_pos_right (Nat.lt_succ_self f) (Nat.two_pow_pos k)

theorem unitsAt_strictMono : StrictMono unitsAt := strictMono_nat_of_lt_succ unitsAt_lt_succ

/-- The places that are kept fill a block, unless none is dropped, and no more than two. -/
theorem kept_bounds {num den dropped : Nat} (hd : (num / den).log2 - 52 = dropped) :
    (dropped = 0 ∨ blockSize ≤ num / (den * 2 ^ dropped))
      ∧ num / (den * 2 ^ dropped) < 2 * blockSize := by
  have hblock : blockSize = 2 ^ 52 := by decide
  have hpos : 0 < 2 ^ dropped := Nat.two_pow_pos dropped
  rw [← Nat.div_div_eq_div_mul, Nat.div_lt_iff_lt_mul hpos, Nat.le_div_iff_mul_le hpos, hblock]
  constructor
  · by_cases h0 : dropped = 0
    · exact Or.inl h0
    · right
      have hne : num / den ≠ 0 := by
        intro hzero
        rw [hzero, Nat.log2_zero] at hd
        omega
      calc 2 ^ 52 * 2 ^ dropped = 2 ^ (num / den).log2 := by
            rw [← Nat.pow_add]
            congr 1
            omega
        _ ≤ num / den := Nat.log2_self_le hne
  · calc num / den < 2 ^ ((num / den).log2 + 1) := Nat.lt_log2_self
      _ ≤ 2 ^ (1 + 52 + dropped) := Nat.pow_le_pow_right (by decide) (by omega)
      _ = 2 * 2 ^ 52 * 2 ^ dropped := by rw [Nat.pow_add, Nat.pow_add, Nat.pow_one]

/-- The quotient lies between two ranks in a row. The lower one is taken if the quotient is below
their middle, or in the middle with the lower one even, and else the upper one. -/
theorem nearestRank_cases (num : Nat) {den : Nat} (hd : 0 < den) :
    ∃ n, unitsAt n * den ≤ num ∧ num < unitsAt (n + 1) * den
      ∧ ((nearestRank num den = n ∧ 2 * num ≤ (unitsAt n + unitsAt (n + 1)) * den
          ∧ (2 * num = (unitsAt n + unitsAt (n + 1)) * den → n % 2 = 0))
        ∨ (nearestRank num den = n + 1 ∧ (unitsAt n + unitsAt (n + 1)) * den ≤ 2 * num
          ∧ (2 * num = (unitsAt n + unitsAt (n + 1)) * den → (n + 1) % 2 = 0))) := by
  simp only [nearestRank, Nat.shiftLeft_eq, roundDiv]
  generalize hk : (num / den).log2 - 52 = k
  obtain ⟨hlow, hhigh⟩ := kept_bounds hk
  have hnum := Nat.div_add_mod num (den * 2 ^ k)
  have hmod := Nat.mod_lt num (Nat.mul_pos hd (Nat.two_pow_pos k))
  generalize num / (den * 2 ^ k) = f at *
  generalize num % (den * 2 ^ k) = rest at *
  have hat : unitsAt (k * blockSize + f) * den = den * 2 ^ k * f := by
    rw [unitsAt_mul_add hlow (by omega)]
    ring
  have hnext : unitsAt (k * blockSize + f + 1) * den = den * 2 ^ k * f + den * 2 ^ k := by
    rw [Nat.add_assoc, unitsAt_mul_add (by omega) (by omega)]
    ring
  -- a block has an even number of ranks
  have heven : (k * blockSize + f) % 2 = f % 2 := by
    have hb : blockSize = 2 * 2 ^ 51 := by decide
    rw [hb]
    omega
  refine ⟨k * blockSize + f, ?_⟩
  rw [Nat.add_mul, hat, hnext]
  generalize den * 2 ^ k * f = base at *
  generalize den * 2 ^ k = step at *
  refine ⟨by omega, by omega, ?_⟩
  split
  · exact Or.inl ⟨rfl, by omega, by omega⟩
  · exact Or.inr ⟨(Nat.add_assoc _ f 1).symm, by omega, by omega⟩

variable {num den : Nat}

theorem two_mul_le_of_above (hd : 0 < den) {r : Nat} (hr : nearestRank num den < r) :
    2 * num ≤ (unitsAt (nearestRank num den) + unitsAt r) * den
      ∧ (2 * num = (unitsAt (nearestRank num den) + unitsAt r) * den
        → nearestRank num den % 2 = 0) := by
  obtain ⟨n, -, hlt, ⟨hn, hle, htie⟩ | ⟨hn, -, -⟩⟩ := nearestRank_cases num hd
  · rw [hn] at hr ⊢
    have hnext : n + 1 ≤ r := hr
    have hmono := Nat.mul_le_mul_right den (unitsAt_strictMono.monotone hnext)
    rw [Nat.add_mul] at hle htie ⊢
    exact ⟨by omega, fun h => htie (by omega)⟩
  · rw [hn] at hr ⊢
    have hmono := Nat.mul_le_mul_right den (unitsAt_strictMono.monotone hr.le)
    rw [Nat.add_mul]
    exact ⟨by omega, fun h => by omega⟩

theorem le_two_mul_of_below (hd : 0 < den) {r : Nat} (hr : r < nearestRank num den) :
    (unitsAt r + unitsAt (nearestRank num den)) * den ≤ 2 * num
      ∧ (2 * num = (unitsAt r + unitsAt (nearestRank num den)) * den
        → nearestRank num den % 2 = 0) := by
  obtain ⟨n, hle, -, ⟨hn, -, -⟩ | ⟨hn, hge, htie⟩⟩ := nearestRank_cases num hd
  · rw [hn] at hr ⊢
    have hmono := Nat.mul_lt_mul_of_pos_right (unitsAt_strictMono hr) hd
    rw [Nat.add_mul]
    exact ⟨by omega, fun h => by omega⟩
  · rw [hn] at hr ⊢
    have hmono := Nat.mul_le_mul_right den (unitsAt_strictMono.monotone (Nat.le_of_lt_succ hr))
    rw [Nat.add_mul] at hge htie ⊢
    exact ⟨by omega, fun h => htie (by omega)⟩

end Magnitude

/-! ## Nearest doubles -/

/-- Of two numbers, the lower one is no further from `q` if `q` is not past their middle. -/
theorem abs_sub_le_abs_sub_iff {q a b : ℚ} (h : a < b) :
    |q - a| ≤ |q - b| ↔ 2 * q ≤ a + b := by
  rw [← sq_le_sq]
  constructor <;> intro _ <;> nlinarith

theorem abs_sub_le_abs_sub_iff' {q a b : ℚ} (h : a < b) :
    |q - b| ≤ |q - a| ↔ a + b ≤ 2 * q := by
  rw [← sq_le_sq]
  constructor <;> intro _ <;> nlinarith

namespace Double

/-- The value of a finite double. -/
def value (negative : Bool) (m : Magnitude) : ℚ := signedUnits negative m / Magnitude.unitsPerOne

/-- The middle between the largest double and the one that would come next. -/
def overflow : ℚ := 2 ^ 1024 - 2 ^ 970

/-- The double nearest to `q`, a number that is not below zero. From the overflow on it is infinite.
Below that no finite double is nearer to `q`, and another one is as near only if this one is
even. -/
def IsNearest (q : ℚ) : Double → Prop
  | .nan => False
  | .infinite negative => negative = false ∧ overflow ≤ q
  | .finite negative m => negative = false ∧ q < overflow ∧ ∀ t n,
      |q - value negative m| ≤ |q - value t n|
        ∧ (|q - value negative m| = |q - value t n| → n = m ∨ m.rank % 2 = 0)

end Double

namespace Magnitude

theorem unitsPerOne_pos : (0 : ℚ) < unitsPerOne := by
  have h : 0 < unitsPerOne := by decide
  exact_mod_cast h

/-- The value at a rank, as if there were no largest one. -/
def valueAt (rank : Nat) : ℚ := unitsAt rank / unitsPerOne

theorem valueAt_strictMono : StrictMono valueAt := fun _ _ h =>
  div_lt_div_of_pos_right (Nat.cast_lt.mpr (unitsAt_strictMono h)) unitsPerOne_pos

theorem valueAt_nonneg (rank : Nat) : 0 ≤ valueAt rank :=
  div_nonneg (Nat.cast_nonneg _) unitsPerOne_pos.le

theorem overflow_eq : valueAt (rankCount - 1) + valueAt rankCount = 2 * Double.overflow := by
  have hunits : unitsAt (rankCount - 1) + unitsAt rankCount + 2 * 2 ^ 970 * unitsPerOne
      = 2 * 2 ^ 1024 * unitsPerOne := by decide +kernel
  have hcast : (unitsAt (rankCount - 1) + unitsAt rankCount + 2 * 2 ^ 970 * unitsPerOne : ℚ)
      = 2 * 2 ^ 1024 * unitsPerOne := by
    -- the powers are too large to compute with
    generalize 970 = i at hunits ⊢
    generalize 1024 = j at hunits ⊢
    exact_mod_cast hunits
  unfold valueAt Double.overflow
  rw [← add_div, div_eq_iff unitsPerOne_pos.ne', mul_sub, sub_mul]
  exact eq_sub_of_add_eq hcast

section Closest

variable {num den : Nat} {q : ℚ} (hd : 0 < den) (hq : q * unitsPerOne * den = num)
include hd hq

theorem two_mul_le_iff (a b : Nat) :
    2 * num ≤ (unitsAt a + unitsAt b) * den ↔ 2 * q ≤ valueAt a + valueAt b := by
  have hden : (0 : ℚ) < den := by exact_mod_cast hd
  unfold valueAt
  rw [← add_div, le_div_iff₀ unitsPerOne_pos, ← mul_le_mul_iff_left₀ hden, mul_assoc 2 q,
    mul_assoc 2, hq]
  exact_mod_cast Iff.rfl

theorem le_two_mul_iff (a b : Nat) :
    (unitsAt a + unitsAt b) * den ≤ 2 * num ↔ valueAt a + valueAt b ≤ 2 * q := by
  have hden : (0 : ℚ) < den := by exact_mod_cast hd
  unfold valueAt
  rw [← add_div, div_le_iff₀ unitsPerOne_pos, ← mul_le_mul_iff_left₀ hden, mul_assoc 2 q,
    mul_assoc 2, hq]
  exact_mod_cast Iff.rfl

theorem two_mul_le_valueAt {r : Nat} (hr : nearestRank num den < r) :
    2 * q ≤ valueAt (nearestRank num den) + valueAt r
      ∧ (2 * q = valueAt (nearestRank num den) + valueAt r → nearestRank num den % 2 = 0) := by
  obtain ⟨hle, htie⟩ := two_mul_le_of_above hd hr
  refine ⟨(two_mul_le_iff hd hq _ _).mp hle, fun h => htie (Nat.le_antisymm hle ?_)⟩
  exact (le_two_mul_iff hd hq _ _).mpr h.ge

theorem valueAt_le_two_mul {r : Nat} (hr : r < nearestRank num den) :
    valueAt r + valueAt (nearestRank num den) ≤ 2 * q
      ∧ (2 * q = valueAt r + valueAt (nearestRank num den) → nearestRank num den % 2 = 0) := by
  obtain ⟨hge, htie⟩ := le_two_mul_of_below hd hr
  refine ⟨(le_two_mul_iff hd hq _ _).mp hge, fun h => htie (Nat.le_antisymm ?_ hge)⟩
  exact (two_mul_le_iff hd hq _ _).mpr h.le

/-- No rank is nearer than the one that rounding gives, and another one is as near only if that is
even. -/
theorem nearestRank_closest (r : Nat) :
    |q - valueAt (nearestRank num den)| ≤ |q - valueAt r|
      ∧ (|q - valueAt (nearestRank num den)| = |q - valueAt r|
        → r = nearestRank num den ∨ nearestRank num den % 2 = 0) := by
  rcases Nat.lt_trichotomy r (nearestRank num den) with hr | hr | hr
  · obtain ⟨hle, htie⟩ := valueAt_le_two_mul hd hq hr
    have hlt := valueAt_strictMono hr
    refine ⟨(abs_sub_le_abs_sub_iff' hlt).mpr hle, fun h => Or.inr (htie ?_)⟩
    exact le_antisymm ((abs_sub_le_abs_sub_iff hlt).mp h.ge) hle
  · rw [hr]
    exact ⟨le_refl _, fun _ => Or.inl rfl⟩
  · obtain ⟨hle, htie⟩ := two_mul_le_valueAt hd hq hr
    have hlt := valueAt_strictMono hr
    refine ⟨(abs_sub_le_abs_sub_iff hlt).mpr hle, fun h => Or.inr (htie ?_)⟩
    exact le_antisymm hle ((abs_sub_le_abs_sub_iff' hlt).mp h.ge)

/-- The largest double is odd, so the overflow itself is rounded up. -/
theorem nearestRank_lt_iff : nearestRank num den < rankCount ↔ q < Double.overflow := by
  have hmiddle := overflow_eq
  have hodd : ¬ (rankCount - 1) % 2 = 0 := by decide
  constructor
  · intro h
    obtain ⟨hle, htie⟩ := two_mul_le_valueAt hd hq h
    have hlast := valueAt_strictMono.monotone (Nat.le_sub_one_of_lt h)
    by_contra hge
    have heq : valueAt (nearestRank num den) = valueAt (rankCount - 1) := by linarith
    have heven := htie (by linarith)
    rw [valueAt_strictMono.injective heq] at heven
    exact hodd heven
  · intro h
    by_contra hge
    have hfirst := valueAt_strictMono.monotone (Nat.not_lt.mp hge)
    have hbelow : rankCount - 1 < nearestRank num den :=
      Nat.lt_of_lt_of_le (by decide) (Nat.not_lt.mp hge)
    have hle := (valueAt_le_two_mul hd hq hbelow).1
    linarith

end Closest

end Magnitude

namespace Double

theorem value_false (m : Magnitude) : value false m = Magnitude.valueAt m.rank := rfl

theorem value_true (m : Magnitude) : value true m = -Magnitude.valueAt m.rank := by
  unfold value Magnitude.valueAt signedUnits
  rw [if_pos rfl, Int.cast_neg, neg_div, Magnitude.unitsAt_rank, Int.cast_natCast]

/-- A number that is not below zero is no nearer to the negative of a magnitude. -/
theorem abs_sub_valueAt_le {q : ℚ} (hq : 0 ≤ q) (t : Bool) (m : Magnitude) :
    |q - Magnitude.valueAt m.rank| ≤ |q - value t m| := by
  have hm := Magnitude.valueAt_nonneg m.rank
  cases t with
  | false => exact le_refl _
  | true =>
    rw [value_true, sub_neg_eq_add, abs_of_nonneg (add_nonneg hq hm), abs_le]
    constructor <;> linarith

/-- Rounding gives the nearest double. -/
theorem isNearest_nearest {q : ℚ} {num den : Nat} (hd : 0 < den)
    (hq : q * Magnitude.unitsPerOne * den = num) : IsNearest q (nearest false num den) := by
  have hq0 : 0 ≤ q := by
    have hden : (0 : ℚ) < den := by exact_mod_cast hd
    have hnum : 0 ≤ q * Magnitude.unitsPerOne * den := by
      rw [hq]
      exact Nat.cast_nonneg num
    exact nonneg_of_mul_nonneg_left (nonneg_of_mul_nonneg_left hnum hden) Magnitude.unitsPerOne_pos
  have hlt := Magnitude.nearestRank_lt_iff hd hq
  simp only [nearest]
  split
  · rename_i h
    refine ⟨rfl, hlt.mp h, fun t n => ?_⟩
    rw [value_false]
    obtain ⟨hle, htie⟩ := Magnitude.nearestRank_closest hd hq n.rank
    have hsign := abs_sub_valueAt_le hq0 t n
    refine ⟨le_trans hle hsign, fun heq => ?_⟩
    rcases htie (le_antisymm hle (le_trans hsign heq.ge)) with hrank | heven
    · exact Or.inl (Magnitude.eq_of_rank_eq hrank)
    · exact Or.inr heven
  · rename_i h
    exact ⟨rfl, not_lt.mp (mt hlt.mpr h)⟩

theorem atLeast_finite {a b : Magnitude} :
    (finite false b).atLeast (finite false a) = true ↔ a.units ≤ b.units := by
  simp [Double.atLeast, less, signedUnits]

/-- Rounding keeps the order. -/
theorem IsNearest.atLeast {p q : ℚ} {x y : Double} (hx : IsNearest p x) (hy : IsNearest q y)
    (h : p ≤ q) : y.atLeast x = true := by
  rcases x with _ | s | ⟨s, a⟩
  · exact hx.elim
  · obtain ⟨rfl, hp⟩ := hx
    rcases y with _ | t | ⟨t, b⟩
    · exact hy.elim
    · obtain rfl := hy.1
      rfl
    · exact absurd hy.2.1 (not_lt.mpr (le_trans hp h))
  · rcases y with _ | t | ⟨t, b⟩
    · exact hy.elim
    · obtain rfl := hy.1
      rfl
    obtain ⟨rfl, -, hp⟩ := hx
    obtain ⟨rfl, -, hq⟩ := hy
    rw [atLeast_finite]
    by_contra hlt
    have hrank : b.rank < a.rank := Magnitude.unitsAt_strictMono.lt_iff_lt.mp (Nat.not_le.mp hlt)
    have hvalue := Magnitude.valueAt_strictMono hrank
    -- both numbers are the middle of the two doubles, so both of these are even
    have hup := (abs_sub_le_abs_sub_iff' hvalue).mp (hp false b).1
    have hdown := (abs_sub_le_abs_sub_iff hvalue).mp (hq false a).1
    obtain rfl : p = q := by linarith
    have hsame : |p - value false a| = |p - value false b| :=
      le_antisymm (hp false b).1 (hq false a).1
    have hne : b ≠ a := by
      rintro rfl
      exact hlt (Nat.le_refl _)
    have heven : a.rank % 2 = 0 ∧ b.rank % 2 = 0 :=
      ⟨((hp false b).2 hsame).resolve_left hne,
        ((hq false a).2 hsame.symm).resolve_left hne.symm⟩
    -- the rank after the lower one is nearer than the upper one
    have hnext : b.rank + 1 < a.rank := by omega
    have hbetween := (abs_sub_le_abs_sub_iff' (Magnitude.valueAt_strictMono hnext)).mp
      (hp false ⟨b.rank + 1, Nat.lt_trans hnext a.rank_lt⟩).1
    have hstep := Magnitude.valueAt_strictMono (Nat.lt_succ_self b.rank)
    linarith

theorem IsNearest.unique {q : ℚ} {x y : Double} (hx : IsNearest q x) (hy : IsNearest q y) :
    x = y := by
  have hyx := hx.atLeast hy (le_refl q)
  have hxy := hy.atLeast hx (le_refl q)
  rcases x with _ | s | ⟨s, a⟩
  · exact hx.elim
  · rcases y with _ | t | ⟨t, b⟩
    · exact hy.elim
    · rw [hx.1, hy.1]
    · exact absurd hy.2.1 (not_lt.mpr hx.2)
  · rcases y with _ | t | ⟨t, b⟩
    · exact hy.elim
    · exact absurd hx.2.1 (not_lt.mpr hy.2)
    obtain rfl := hx.1
    obtain rfl := hy.1
    have hunits := Nat.le_antisymm (atLeast_finite.mp hyx) (atLeast_finite.mp hxy)
    rw [Magnitude.eq_of_rank_eq (Magnitude.unitsAt_strictMono.injective hunits)]

end Double

end Reckoner
