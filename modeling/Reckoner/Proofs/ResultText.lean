import Mathlib.Data.List.DropRight
import Reckoner.Proofs.CanonicalText

/-!
# The text of a result

The text of a finite value in results has the one shape of a plain text and denotes the number of
the exact text (`Double.plainText_canonical`).

It is also what becomes of the exact text itself (`Double.spelledText`): the exact text is read as a
decimal, the decimal is written without its exponent, and zeros at the end are taken off, but only
behind a point. For a whole number the point and a zero have to go. Any other text keeps all its
characters, because the decimal that is read back has no zero at the end of its coefficient.
-/

namespace Reckoner

namespace Decimal

/-- All digits of the coefficient and a point in its place, with zeros where digits are missing. A
zero has no more than one digit before the point. -/
def spelled (d : Decimal) : List Char :=
  let d := if d.coefficient = 0 ∧ 0 < d.exponent then ⟨0, 0⟩ else d
  let place := d.digits.length + d.exponent
  let (whole, fraction) :=
    if place < 0 then (['0'], List.replicate (-place).toNat '0' ++ d.digits)
    else if d.digits.length < place then
      (d.digits ++ List.replicate (place - d.digits.length).toNat '0', [])
    else (if place = 0 then ['0'] else d.digits.take place.toNat, d.digits.drop place.toNat)
  whole ++ if fraction = [] then [] else '.' :: fraction

theorem spelled_eq {d : Decimal} (h : d.coefficient ≠ 0 ∨ d.exponent ≤ 0) :
    d.spelled = d.plainChars := by
  have hnonzero : ¬ (d.coefficient = 0 ∧ 0 < d.exponent) := by omega
  have hpoint : d.point = d.digits.length + d.exponent := rfl
  unfold spelled plainChars wholeDigits fractionDigits
  simp only [if_neg hnonzero, ← hpoint]
  split
  · -- zeros between the point and the digits
    rename_i hneg
    have hdrop : d.point.toNat = 0 := by omega
    simp [hneg.le, hdrop]
  · have hnone : (-d.point).toNat = 0 := by omega
    split
    · -- zeros between the digits and the point
      rename_i hlarge
      have hsize : d.digits.length ≤ d.point.toNat := by omega
      have hexponent : d.point - d.digits.length = d.exponent := by omega
      have hpos : ¬ d.point ≤ 0 := by omega
      simp [hnone, hpos, hsize, hexponent, List.take_of_length_le hsize]
    · have hexponent : d.exponent.toNat = 0 := by omega
      have hzero : d.point = 0 ↔ d.point ≤ 0 := by omega
      simp [hnone, hexponent, hzero]

end Decimal

namespace Numeral

theorem toDigits_mul_ten {n : Nat} (h : n ≠ 0) :
    Nat.toDigits 10 (n * 10) = Nat.toDigits 10 n ++ ['0'] := by
  have hlarge : ¬ n * 10 < 10 := by omega
  rw [Nat.toDigits_eq_if (by decide), if_neg hlarge, Nat.mul_div_cancel n (by decide),
    Nat.mul_mod_left]
  rfl

theorem toDigits_mul_pow {n : Nat} (h : n ≠ 0) (e : Nat) :
    Nat.toDigits 10 (n * 10 ^ e) = Nat.toDigits 10 n ++ List.replicate e '0' := by
  induction e with
  | zero => simp
  | succ e ih =>
    have hpos : n * 10 ^ e ≠ 0 := Nat.mul_ne_zero h (Nat.pow_pos (by decide)).ne'
    rw [pow_succ, ← Nat.mul_assoc, toDigits_mul_ten hpos, ih, List.replicate_succ',
      List.append_assoc]

/-- Zeros at the end and then points are taken off a text that has a point. -/
def withoutZeros (cs : List Char) : List Char :=
  if '.' ∈ cs then (cs.rdropWhile (· = '0')).rdropWhile (· = '.') else cs

theorem no_point {cs : List Char} (negative : Bool) (h : Digits cs) :
    '.' ∉ signChars negative ++ cs := by
  intro hmem
  rcases List.mem_append.mp hmem with hmem | hmem
  · cases negative <;> simp [signChars] at hmem
  · exact absurd (h '.' hmem) (by decide)

theorem withoutZeros_whole {cs : List Char} (negative : Bool) (h : Digits cs) :
    withoutZeros (signChars negative ++ cs) = signChars negative ++ cs :=
  if_neg (no_point negative h)

theorem withoutZeros_point_zero {cs : List Char} (negative : Bool) (h : Digits cs) :
    withoutZeros (signChars negative ++ (cs ++ ['.', '0'])) = signChars negative ++ cs := by
  have hlast : (signChars negative ++ cs).rdropWhile (· = '.') = signChars negative ++ cs := by
    refine List.rdropWhile_eq_self_iff.mpr fun hne hpoint => ?_
    refine no_point negative h ?_
    rw [← of_decide_eq_true hpoint]
    exact List.getLast_mem hne
  have happend : signChars negative ++ (cs ++ ['.', '0'])
      = signChars negative ++ cs ++ ['.'] ++ ['0'] := by simp
  unfold withoutZeros
  rw [happend, if_pos (by simp), List.rdropWhile_concat_pos _ _ _ (by decide),
    List.rdropWhile_concat_neg _ _ _ (by decide), List.rdropWhile_concat_pos _ _ _ (by decide),
    hlast]

theorem withoutZeros_fraction {cs : List Char} {c : Char} (h : c ∈ nonzeroDigits) :
    withoutZeros (cs ++ [c]) = cs ++ [c] := by
  have hzero : c ≠ '0' := by
    rintro rfl
    exact absurd h (by decide)
  have hpoint : c ≠ '.' := by
    rintro rfl
    exact absurd h (by decide)
  unfold withoutZeros
  split
  · rw [List.rdropWhile_concat_neg _ _ _ (by simpa using hzero),
      List.rdropWhile_concat_neg _ _ _ (by simpa using hpoint)]
  · rfl

end Numeral

namespace Decimal

open Numeral

variable {d : Decimal}

theorem Stripped.withoutZeros_plainChars (h : d.Stripped) (negative : Bool) :
    withoutZeros (signChars negative ++ d.plainChars) = signChars negative ++ d.plainChars := by
  unfold plainChars
  rcases h.fractionPart with hnone | ⟨es, c, hfraction, _, hc⟩
  · rw [hnone, List.append_nil]
    exact withoutZeros_whole negative d.digits_wholeDigits
  · have hlast : signChars negative ++ (d.wholeDigits ++ '.' :: (es ++ [c]))
        = signChars negative ++ d.wholeDigits ++ '.' :: es ++ [c] := by simp
    rw [hfraction, hlast, withoutZeros_fraction hc]

theorem Stripped.spelled_eq (h : d.Stripped) : d.spelled = d.plainChars := by
  refine Decimal.spelled_eq ?_
  rcases h with rfl | h
  · exact Or.inr le_rfl
  · exact Or.inl (by omega)

/-- The digits of a whole number are those of the number itself. -/
theorem Stripped.wholeDigits_eq (h : d.Stripped) (hnone : d.fractionDigits = []) :
    d.wholeDigits = Nat.toDigits 10 (d.coefficient * 10 ^ d.exponent.toNat) := by
  rcases h with rfl | h
  · rfl
  have hlength := d.length_fractionDigits
  rw [hnone, List.length_nil] at hlength
  have hpos : 0 < d.digits.length := Nat.length_toDigits_pos
  have hpoint : d.point = d.digits.length + d.exponent := rfl
  have hcoefficient : d.coefficient ≠ 0 := by omega
  have hleft : ¬ d.point ≤ 0 := by omega
  have hsize : d.digits.length ≤ d.point.toNat := by omega
  rw [wholeDigits, if_neg hleft, List.take_of_length_le hsize, toDigits_mul_pow hcoefficient]
  rfl

/-- A whole number that is given with one zero behind the point is written so. -/
theorem spelled_tenths (n : Nat) :
    (⟨n * 10, -1⟩ : Decimal).spelled = Nat.toDigits 10 n ++ ['.', '0'] := by
  by_cases hn : n = 0
  · subst hn
    rfl
  · have hdigits : (⟨n * 10, -1⟩ : Decimal).digits = Nat.toDigits 10 n ++ ['0'] :=
      toDigits_mul_ten hn
    have hpos : 0 < (Nat.toDigits 10 n).length := Nat.length_toDigits_pos
    have hpoint : (⟨n * 10, -1⟩ : Decimal).point = (Nat.toDigits 10 n).length := by
      simp [point, hdigits]
    have hleft : ¬ (⟨n * 10, -1⟩ : Decimal).point ≤ 0 := by omega
    rw [Decimal.spelled_eq (Or.inr (by simp)), plainChars, wholeDigits, fractionDigits,
      if_neg hleft, hdigits, hpoint]
    simp

theorem ofPlain_exactChars_whole (hnone : d.fractionDigits = []) :
    ofPlain d.exactChars = ⟨d.coefficient * 10 ^ d.exponent.toNat * 10, -1⟩ := by
  have hdigits : Nat.ofDigitChars 10 d.wholeDigits 0 = d.coefficient * 10 ^ d.exponent.toNat := by
    rw [← d.ofDigitChars_positional, hnone, List.append_nil]
  rw [exactChars, if_pos hnone, ofPlain_append d.digits_wholeDigits, Nat.ofDigitChars_append,
    hdigits]
  simp [Nat.ofDigitChars_cons, Nat.mul_comm]

theorem ofPlain_exactChars_fraction (hsome : d.fractionDigits ≠ []) :
    ofPlain d.exactChars = d := by
  have hlength : 0 < d.fractionDigits.length := List.length_pos_iff.mpr hsome
  rw [length_fractionDigits] at hlength
  have hexponent : d.exponent.toNat = 0 := by omega
  have hshift : -((-d.exponent).toNat : ℤ) = d.exponent := by omega
  have hchars : d.exactChars = d.plainChars := by
    rw [exactChars, plainChars, if_neg hsome, if_neg hsome]
  rw [hchars, ofPlain_plainChars, hexponent, hshift, pow_zero, Nat.mul_one]

/-- What is read back from the digits with a point gives the plain digits. -/
theorem Stripped.withoutZeros_exactChars (h : d.Stripped) (negative : Bool) :
    withoutZeros (signChars negative ++ (ofPlain d.exactChars).spelled)
      = signChars negative ++ d.plainChars := by
  by_cases hnone : d.fractionDigits = []
  · rw [ofPlain_exactChars_whole hnone, spelled_tenths, ← h.wholeDigits_eq hnone,
      withoutZeros_point_zero negative d.digits_wholeDigits, plainChars, if_pos hnone,
      List.append_nil]
  · rw [ofPlain_exactChars_fraction hnone, h.spelled_eq, h.withoutZeros_plainChars]

end Decimal

namespace Double

open Numeral

/-- The text of a value as the decimal that the exact text is read as, without its exponent. -/
def spelledText : Double → String
  | .nan => "NaN"
  | .infinite negative => if negative then "-inf" else "inf"
  | .finite negative m =>
    let (sign, d) := ofText (finite negative m).exactText
    String.ofList (withoutZeros (signChars sign ++ d.spelled))

variable (negative : Bool) (m : Magnitude)

theorem spelledText_finite {d : Decimal}
    (h : ofText (finite negative m).exactText = (negative, d)) :
    (finite negative m).spelledText
      = String.ofList (withoutZeros (signChars negative ++ d.spelled)) := by
  rw [spelledText, h]

/-- The text of a result is the one that the decimal of the exact text gives. -/
theorem plainText_eq_spelledText (x : Double) : x.plainText = x.spelledText := by
  rcases x with _ | negative | ⟨negative, m⟩
  · rfl
  · cases negative <;> rfl
  have hstripped := m.stripped_shortest
  rw [plainText_finite]
  generalize hd : m.shortest = d at hstripped
  rcases NumberStyle.exact_writeMagnitude m hd with hwrite | hwrite
  · have hread : ofText (finite negative m).exactText = (negative, .ofPlain d.exactChars) := by
      rw [exactText, write_finite negative m .exact hwrite,
        ofText_plain negative d.plain_exactChars]
    rw [spelledText_finite negative m hread, hstripped.withoutZeros_exactChars]
  · rw [spelledText_finite negative m (ofText_exact_scientific negative m hwrite),
      hstripped.spelled_eq, hstripped.withoutZeros_plainChars]

/-- The text of a finite value in results has no exponent and no zero that could be left out, starts
with a minus sign exactly if the value has the sign bit, as negative zero does, and denotes the very
number that the exact style writes. It is the decimal of the exact text, without its exponent and
without zeros at the end. -/
theorem plainText_canonical :
    canonical.rmatch (finite negative m).plainText.toList = true
    ∧ ((finite negative m).plainText.toList.head? = some '-' ↔ negative = true)
    ∧ (finite true .zero).plainText = "-0"
    ∧ denoted (finite negative m).plainText = denoted (finite negative m).exactText
    ∧ (finite negative m).plainText = (finite negative m).spelledText := by
  have hstripped := m.stripped_shortest
  refine ⟨?_, ?_, rfl, by rw [denoted_plainText, denoted_exactText], plainText_eq_spelledText _⟩
  · rw [plainText_finite, String.toList_ofList]
    exact rmatch_canonical negative hstripped.wholePart hstripped.fractionPart
  · rw [plainText_finite, String.toList_ofList]
    cases negative with
    | true => simp [signChars]
    | false =>
      obtain ⟨c, cs, hcs, hc⟩ := m.shortest.plain_plainChars.exists_cons
      rw [hcs]
      have hminus : c ≠ '-' := ne_of_isDigit hc rfl
      simpa [signChars] using hminus

end Double

end Reckoner
