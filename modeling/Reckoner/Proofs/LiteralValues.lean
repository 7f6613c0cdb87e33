import Reckoner.Proofs.NearestDouble
import Reckoner.Proofs.ReadBack

/-!
# The values of number literals

A literal denotes the sum of its digits, each by the place it stands at (`placeValue`). However
many digits there are, they are brought into one whole coefficient without loss
(`Decimal.value_ofPlain`), and the only rounding is that of the exact number
(`Decimal.isNearest_nearest`). So the value of a number token is the nearest double to what its
text denotes, in the middle of two doubles, among the smallest ones and at the overflow alike.
-/

namespace Reckoner

def digitValue (c : Char) : ℚ := (c.toNat - '0'.toNat : ℕ)

/-- Digits left of the point: the last one counts for itself, and each further one ten times the
place before. -/
def wholeValue : List Char → ℚ
  | [] => 0
  | c :: cs => digitValue c * 10 ^ cs.length + wholeValue cs

/-- Digits right of the point: each place counts for a tenth of the one before. -/
def fractionValue : List Char → ℚ
  | [] => 0
  | c :: cs => (digitValue c + fractionValue cs) / 10

/-- The number that digits with at most one point among them denote. -/
def placeValue (cs : List Char) : ℚ :=
  wholeValue (cs.takeWhile (· ≠ '.')) + fractionValue ((cs.dropWhile (· ≠ '.')).drop 1)

theorem ofDigitChars_eq_wholeValue :
    ∀ (cs : List Char) (n : Nat),
      (Nat.ofDigitChars 10 cs n : ℚ) = n * 10 ^ cs.length + wholeValue cs
  | [], n => by simp [wholeValue]
  | c :: cs, n => by
    rw [Nat.ofDigitChars_cons, ofDigitChars_eq_wholeValue cs]
    simp only [wholeValue, digitValue, List.length_cons]
    push_cast
    ring

theorem wholeValue_eq_fractionValue :
    ∀ cs : List Char, wholeValue cs = fractionValue cs * 10 ^ cs.length
  | [] => by simp [wholeValue, fractionValue]
  | c :: cs => by
    simp only [wholeValue, fractionValue, List.length_cons, wholeValue_eq_fractionValue cs]
    ring

/-- All digits of a literal are kept, in a coefficient that is as long as it has to be. -/
theorem Decimal.value_ofPlain (cs : List Char) : (ofPlain cs).value = placeValue cs := by
  simp only [ofPlain, value, placeValue]
  generalize cs.takeWhile (· ≠ '.') = ws
  generalize (cs.dropWhile (· ≠ '.')).drop 1 = fs
  have hten : (10 : ℚ) ^ fs.length ≠ 0 := pow_ne_zero _ (by norm_num)
  rw [Nat.ofDigitChars_append, ofDigitChars_eq_wholeValue, ofDigitChars_eq_wholeValue,
    wholeValue_eq_fractionValue fs, zpow_neg, zpow_natCast]
  field_simp
  simp

theorem Decimal.isNearest_nearest (d : Decimal) : Double.IsNearest d.value (d.nearest false) := by
  have hpow : 0 < 10 ^ (-d.exponent).toNat := Nat.pow_pos (by norm_num)
  have hden : ((10 ^ (-d.exponent).toNat : ℕ) : ℚ) ≠ 0 := by exact_mod_cast hpow.ne'
  refine Double.isNearest_nearest hpow ?_
  rw [value_eq_div, mul_right_comm, Nat.pow_eq, Nat.pow_eq, div_mul_cancel₀ _ hden]
  push_cast
  rfl

namespace Double

theorem IsNearest.eq_infinite_iff {q : ℚ} {v : Double} (h : IsNearest q v) :
    v = .infinite false ↔ overflow ≤ q := by
  rcases v with _ | s | ⟨s, m⟩
  · exact h.elim
  · obtain ⟨rfl, hq⟩ := h
    simpa using hq
  · simpa using h.2.1

theorem IsNearest.isNegative {q : ℚ} {v : Double} (h : IsNearest q v) :
    v ≠ .nan ∧ v.isNegative = false := by
  rcases v with _ | s | ⟨s, m⟩
  · exact h.elim
  · exact ⟨by simp, h.1⟩
  · exact ⟨by simp, h.1⟩

theorem eq_zero_of_isZero {v : Double} (hz : v.isZero = true) (hs : v.isNegative = false) :
    v = .zero := by
  rcases v with _ | s | ⟨s, m⟩
  · simp [isZero] at hz
  · simp [isZero] at hz
  · have hrank : m.rank = 0 := by simpa [isZero] using hz
    rw [Magnitude.eq_of_rank_eq (b := .zero) hrank, show s = false from hs]
    rfl

end Double

namespace Token

/-- The text of a number token is digits, perhaps with a point and more digits, of any length. Its
value is the one double nearest to the number that the digits denote by their places: `+0` when
that rounds to zero, infinity exactly from the overflow on, and never negative. -/
theorem scan_number_nearest {line : String} {tokens : List Token} (h : scan line = .ok tokens)
    {t : Token} (ht : t ∈ tokens) (hk : t.kind = .number) :
    Plain t.lexeme.toList ∧ ∃ v, t.value = some v
      ∧ (∀ z, Double.IsNearest (placeValue t.lexeme.toList) z ↔ z = v)
      ∧ (v.isZero = true → v = .zero)
      ∧ (v = .infinite false ↔ 2 ^ 1024 - 2 ^ 970 ≤ placeValue t.lexeme.toList)
      ∧ v ≠ .nan ∧ v.isNegative = false := by
  obtain ⟨cs, hplain, hlexeme, hvalue⟩ := scan_faithful h t ht hk
  rw [hlexeme, String.toList_ofList]
  have hnearest := Decimal.isNearest_nearest (Decimal.ofPlain cs)
  rw [Decimal.value_ofPlain] at hnearest
  obtain ⟨hnan, hsign⟩ := hnearest.isNegative
  refine ⟨hplain, _, hvalue, fun z => ⟨fun hz => hz.unique hnearest, ?_⟩,
    fun hz => Double.eq_zero_of_isZero hz hsign, hnearest.eq_infinite_iff, hnan, hsign⟩
  rintro rfl
  exact hnearest

/-- `2 ^ 53 + 1` is in the middle of two doubles, and the even one is below it. -/
theorem scan_number_nearest_tie :
    let t : Token := ⟨.number, "9007199254740993.", 0, some (.ofNat 9007199254740992)⟩
    scan "9007199254740993." = .ok [t] ∧ t.kind = .number
      ∧ placeValue t.lexeme.toList = 9007199254740993
      ∧ ∀ z, Double.IsNearest 9007199254740993 z ↔ z = .ofNat 9007199254740992 := by
  intro t
  have hplain : Plain (String.toList "9007199254740993.") :=
    @Plain.fraction "9007199254740993".toList [] (by simp) (by simp [Digits]) (by simp [Digits])
  have hscan : scan "9007199254740993." = .ok [t] := by
    rw [scan, scanFrom_plain 0 hplain]
    have hvalue : (Decimal.ofPlain (String.toList "9007199254740993.")).nearest false
        = .ofNat 9007199254740992 := by decide +kernel
    rw [hvalue]
    rfl
  have hplace : placeValue t.lexeme.toList = 9007199254740993 := by
    rw [← Decimal.value_ofPlain]
    decide +kernel
  obtain ⟨-, v, hv, hnearest, -⟩ := scan_number_nearest hscan List.mem_cons_self rfl
  rw [hplace, ← Option.some.inj hv] at hnearest
  exact ⟨hscan, rfl, hplace, hnearest⟩

end Token

end Reckoner
