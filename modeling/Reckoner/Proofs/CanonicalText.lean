import Mathlib.Computability.RegularExpressions
import Reckoner.Proofs.ReadBack

/-!
# Shapes of decimal texts

A decimal with no zero at the end of its coefficient (`Decimal.Stripped`), as the shortest one
always is, has a plain text of one shape only (`Numeral.canonical`): digits that start with a zero
only if they are a single zero, and perhaps a point with digits that do not end in a zero.

The exact style writes the same decimal with a point or with an exponent. What a text of either
style denotes is read off its characters (`Numeral.denoted`), and the two denote the same number.
-/

namespace Reckoner

namespace Numeral

/-- The number denoted by digits with a point, after a sign and before an exponent that may both be
missing. -/
def denoted (text : String) : ℚ :=
  let (negative, cs) := splitSign text.toList
  let (significand, exponent) := splitAt? (· == 'e') cs
  let (down, size) := splitSign (exponent.getD [])
  let shift : ℤ := Nat.ofDigitChars 10 size 0
  (if negative then -1 else 1)
    * ((Decimal.ofPlain significand).value * 10 ^ (if down then -shift else shift))

theorem ne_of_isDigit {c d : Char} (hc : c.isDigit = true) (hd : d.isDigit = false) : c ≠ d := by
  rintro rfl
  rw [hc] at hd
  cases hd

theorem splitSign_signChars (negative : Bool) {c : Char} (hc : c.isDigit = true) (cs : List Char) :
    splitSign (signChars negative ++ c :: cs) = (negative, c :: cs) := by
  have hminus : c ≠ '-' := ne_of_isDigit hc rfl
  have hplus : c ≠ '+' := ne_of_isDigit hc rfl
  cases negative with
  | true => rfl
  | false =>
    unfold splitSign
    split
    · rename_i h
      exact absurd (List.cons.inj h).1 hminus
    · rename_i h
      exact absurd (List.cons.inj h).1 hplus
    · rfl

theorem no_exponent {cs : List Char} (h : Plain cs) : ∀ c ∈ cs, (c == 'e') = false :=
  h.forall_mem (by decide)

/-- The sign and the decimal with which a text is read. -/
def ofText (text : String) : Bool × Decimal :=
  let (negative, cs) := splitSign text.toList
  let (significand, exponent) := splitAt? (· == 'e') cs
  let (down, size) := splitSign (exponent.getD [])
  let shift : ℤ := Nat.ofDigitChars 10 size 0
  let d := Decimal.ofPlain significand
  (negative, ⟨d.coefficient, d.exponent + if down then -shift else shift⟩)

theorem denoted_eq (text : String) :
    denoted text = (if (ofText text).1 then -1 else 1) * (ofText text).2.value := by
  have hshift (d : Decimal) (shift : ℤ) :
      d.value * 10 ^ shift = (⟨d.coefficient, d.exponent + shift⟩ : Decimal).value := by
    rw [Decimal.value, Decimal.value, zpow_add₀ (by norm_num), mul_assoc]
  unfold denoted
  simp only [hshift]
  rfl

theorem ofText_plain (negative : Bool) {cs : List Char} (h : Plain cs) :
    ofText (String.ofList (signChars negative ++ cs)) = (negative, Decimal.ofPlain cs) := by
  obtain ⟨c, rest, rfl, hc⟩ := h.exists_cons
  unfold ofText
  rw [String.toList_ofList, splitSign_signChars negative hc]
  simp only [splitAt?_of_none (no_exponent h)]
  simp [splitSign]

theorem ofText_scientific (negative down : Bool) {cs : List Char} (h : Plain cs)
    (size : List Char) :
    ofText (String.ofList (signChars negative
        ++ (cs ++ 'e' :: (if down then '-' else '+') :: size)))
      = (negative, ⟨(Decimal.ofPlain cs).coefficient, (Decimal.ofPlain cs).exponent
        + if down then -(Nat.ofDigitChars 10 size 0 : ℤ) else Nat.ofDigitChars 10 size 0⟩) := by
  have hexponent : splitSign ((if down then '-' else '+') :: size) = (down, size) := by
    cases down <;> rfl
  obtain ⟨c, rest, hcs, hc⟩ := h.exists_cons
  unfold ofText
  rw [String.toList_ofList, hcs, List.cons_append, splitSign_signChars negative hc,
    ← List.cons_append, ← hcs]
  simp only [splitAt?_append (no_exponent h) (beq_self_eq_true 'e'), Option.getD_some, hexponent]

def nonzeroDigits : List Char := ['1', '2', '3', '4', '5', '6', '7', '8', '9']

def oneOf (cs : List Char) : RegularExpression Char := (cs.map .char).foldr (· + ·) 0

def anyDigits : RegularExpression Char := .star (oneOf ('0' :: nonzeroDigits))

/-- The texts `-?(0|[1-9][0-9]*)(\.[0-9]*[1-9])?`. -/
def canonical : RegularExpression Char :=
  (1 + .char '-') * (.char '0' + oneOf nonzeroDigits * anyDigits)
    * (1 + .char '.' * anyDigits * oneOf nonzeroDigits)

theorem rmatch_oneOf {c : Char} : ∀ {cs : List Char}, c ∈ cs → (oneOf cs).rmatch [c] = true
  | d :: cs, h => by
    unfold oneOf
    rw [List.map_cons, List.foldr_cons]
    refine (RegularExpression.add_rmatch_iff _ _ _).mpr ?_
    rcases List.mem_cons.mp h with rfl | h
    · exact Or.inl ((RegularExpression.char_rmatch_iff _ _).mpr rfl)
    · exact Or.inr (rmatch_oneOf h)

theorem mem_digits {c : Char} (h : c.isDigit = true) : c ∈ '0' :: nonzeroDigits := by
  have hmem := mem_of_isNumberChar (c := c) (by simp [Token.isNumberChar, h])
  have hpoint : c ≠ '.' := ne_of_isDigit h rfl
  simpa [numberChars, nonzeroDigits, hpoint] using hmem

theorem rmatch_anyDigits {ds : List Char} (h : Digits ds) : anyDigits.rmatch ds = true := by
  refine (RegularExpression.star_rmatch_iff _ _).mpr ⟨ds.map fun c => [c], ?_, fun t ht => ?_⟩
  · rw [← List.flatMap_def, List.flatMap_singleton']
  · obtain ⟨c, hc, rfl⟩ := List.mem_map.mp ht
    exact ⟨by simp, rmatch_oneOf (mem_digits (h c hc))⟩

/-- Digits without a zero in front of others. -/
def WholePart (ds : List Char) : Prop :=
  ds = ['0'] ∨ ∃ c es, ds = c :: es ∧ c ∈ nonzeroDigits ∧ Digits es

/-- Nothing, or a point and digits without a zero at the end. -/
def FractionPart (ds : List Char) : Prop :=
  ds = [] ∨ ∃ es c, ds = '.' :: (es ++ [c]) ∧ Digits es ∧ c ∈ nonzeroDigits

theorem rmatch_canonical (negative : Bool) {whole fraction : List Char} (hw : WholePart whole)
    (hf : FractionPart fraction) :
    canonical.rmatch (signChars negative ++ (whole ++ fraction)) = true := by
  have hsign : (1 + .char '-' : RegularExpression Char).rmatch (signChars negative) = true := by
    cases negative <;> rfl
  have hwhole : (.char '0' + oneOf nonzeroDigits * anyDigits).rmatch whole = true := by
    refine (RegularExpression.add_rmatch_iff _ _ _).mpr ?_
    rcases hw with rfl | ⟨c, es, rfl, hc, hes⟩
    · exact Or.inl rfl
    · refine Or.inr ((RegularExpression.mul_rmatch_iff _ _ _).mpr ⟨[c], es, rfl, ?_, ?_⟩)
      · exact rmatch_oneOf hc
      · exact rmatch_anyDigits hes
  have hfraction : (1 + .char '.' * anyDigits * oneOf nonzeroDigits : RegularExpression Char).rmatch
      fraction = true := by
    refine (RegularExpression.add_rmatch_iff _ _ _).mpr ?_
    rcases hf with rfl | ⟨es, c, rfl, hes, hc⟩
    · exact Or.inl rfl
    · refine Or.inr ((RegularExpression.mul_rmatch_iff _ _ _).mpr
        ⟨'.' :: es, [c], rfl, ?_, rmatch_oneOf hc⟩)
      exact (RegularExpression.mul_rmatch_iff _ _ _).mpr ⟨['.'], es, rfl, rfl, rmatch_anyDigits hes⟩
  refine (RegularExpression.mul_rmatch_iff _ _ _).mpr
    ⟨signChars negative ++ whole, fraction, by simp, ?_, hfraction⟩
  exact (RegularExpression.mul_rmatch_iff _ _ _).mpr ⟨_, whole, rfl, hsign, hwhole⟩

theorem digitChar_mem {d : Nat} (h0 : d ≠ 0) (h10 : d < 10) : d.digitChar ∈ nonzeroDigits := by
  have hall : ∀ d < 10, d ≠ 0 → d.digitChar ∈ nonzeroDigits := by decide
  exact hall d h10 h0

theorem toDigits_first {n : Nat} (h : n ≠ 0) :
    ∃ c ds, Nat.toDigits 10 n = c :: ds ∧ c ∈ nonzeroDigits := by
  induction n using Nat.strongRecOn with
  | ind n ih =>
    rw [Nat.toDigits_eq_if (by decide)]
    split
    · rename_i hlt
      exact ⟨_, [], rfl, digitChar_mem h hlt⟩
    · obtain ⟨c, ds, hds, hc⟩ := ih (n / 10) (by omega) (by omega)
      rw [hds]
      exact ⟨c, _, rfl, hc⟩

theorem toDigits_last {n : Nat} (h : n % 10 ≠ 0) :
    ∃ ds c, Nat.toDigits 10 n = ds ++ [c] ∧ c ∈ nonzeroDigits := by
  rw [Nat.toDigits_eq_if (by decide)]
  split
  · exact ⟨[], _, rfl, digitChar_mem (by omega) (by omega)⟩
  · exact ⟨_, _, rfl, digitChar_mem h (Nat.mod_lt _ (by decide))⟩

end Numeral

namespace Decimal

open Numeral

/-- The coefficient has no zero at its end, or the decimal is the plain zero. -/
def Stripped (d : Decimal) : Prop := d = ⟨0, 0⟩ ∨ d.coefficient % 10 ≠ 0

theorem stripped_strip (d : Decimal) : d.strip.Stripped := by
  fun_induction strip d with
  | case1 => exact Or.inl rfl
  | case2 d _ h => exact Or.inr h
  | case3 d _ _ ih => exact ih

variable {d : Decimal}

theorem Stripped.wholePart (h : d.Stripped) : WholePart d.wholeDigits := by
  rcases h with rfl | h
  · exact Or.inl rfl
  have hdigits := d.digits_wholeDigits
  by_cases hpoint : d.point ≤ 0
  · rw [wholeDigits, if_pos hpoint]
    exact Or.inl rfl
  · obtain ⟨c, ds, hds, hc⟩ := toDigits_first (n := d.coefficient) (by omega)
    obtain ⟨p, hp⟩ : ∃ p, d.point.toNat = p + 1 := ⟨d.point.toNat - 1, by omega⟩
    have hds : d.digits = c :: ds := hds
    rw [wholeDigits, if_neg hpoint, hds, hp, List.take_succ_cons, List.cons_append] at hdigits ⊢
    exact Or.inr ⟨c, _, rfl, hc, fun e he => hdigits e (List.mem_cons_of_mem _ he)⟩

theorem Stripped.fractionPart (h : d.Stripped) :
    FractionPart (if d.fractionDigits = [] then [] else '.' :: d.fractionDigits) := by
  split
  · exact Or.inl rfl
  · rename_i hne
    have hlength := List.length_pos_iff.mpr hne
    rw [length_fractionDigits] at hlength
    rcases h with rfl | h
    · exact absurd rfl hne
    obtain ⟨ds, c, hds, hc⟩ := toDigits_last h
    have hds : d.digits = ds ++ [c] := hds
    have hpoint : d.point = d.digits.length + d.exponent := rfl
    rw [hds, List.length_append, List.length_singleton] at hpoint
    -- the exponent is negative, so the last digit is behind the point
    have hdrop : d.digits.drop d.point.toNat = ds.drop d.point.toNat ++ [c] := by
      rw [hds, List.drop_append_of_le_length (by omega)]
    have hfraction : d.fractionDigits
        = (List.replicate (-d.point).toNat '0' ++ ds.drop d.point.toNat) ++ [c] := by
      rw [fractionDigits, hdrop, List.append_assoc]
    refine Or.inr ⟨_, c, by rw [hfraction], fun e he => ?_, hc⟩
    exact d.digits_fractionDigits e (by rw [hfraction]; exact List.mem_append_left _ he)

end Decimal

theorem Magnitude.stripped_shortest (m : Magnitude) : m.shortest.Stripped := by
  unfold shortest
  split
  · exact Or.inl rfl
  · exact Decimal.stripped_strip _

/-! ## The exact style -/

namespace Decimal

variable (d : Decimal)

/-- All digits, with the point after the first one if there are others. -/
def significand : List Char :=
  d.digits.take 1 ++ if d.digits.drop 1 = [] then [] else '.' :: d.digits.drop 1

theorem digits_take : Digits (d.digits.take 1) :=
  fun c hc => d.digits_digits c (List.mem_of_mem_take hc)

theorem digits_drop : Digits (d.digits.drop 1) :=
  fun c hc => d.digits_digits c (List.mem_of_mem_drop hc)

theorem digits_take_ne_nil : d.digits.take 1 ≠ [] := by
  have hpos : 0 < d.digits.length := Nat.length_toDigits_pos
  refine List.length_pos_iff.mp ?_
  rw [List.length_take]
  omega

theorem plain_significand : Plain d.significand := by
  unfold significand
  split
  · rw [List.append_nil]
    exact .whole d.digits_take_ne_nil d.digits_take
  · exact .fraction d.digits_take_ne_nil d.digits_take d.digits_drop

theorem ofPlain_significand :
    ofPlain d.significand = ⟨d.coefficient, -((d.digits.length - 1 : ℕ) : ℤ)⟩ := by
  have hdigits : Nat.ofDigitChars 10 d.digits 0 = d.coefficient := Nat.ofDigitChars_ten_toDigits
  calc ofPlain d.significand = ofPlain (d.digits.take 1 ++ '.' :: d.digits.drop 1) := by
        unfold significand
        split
        · rename_i hnone
          rw [hnone, List.append_nil, Numeral.ofPlain_point d.digits_take]
        · rfl
    _ = ⟨d.coefficient, -((d.digits.length - 1 : ℕ) : ℤ)⟩ := by
        rw [ofPlain_append d.digits_take, List.take_append_drop, List.length_drop, hdigits]

/-- The digits with a point, and with a zero behind it if nothing else is. -/
def exactChars : List Char :=
  d.wholeDigits ++ '.' :: if d.fractionDigits = [] then ['0'] else d.fractionDigits

theorem plain_exactChars : Plain d.exactChars := by
  refine .fraction d.wholeDigits_ne_nil d.digits_wholeDigits ?_
  split
  · exact .zeros 1
  · exact d.digits_fractionDigits

theorem value_exactChars : (ofPlain d.exactChars).value = d.value := by
  rw [← d.value_plainChars]
  unfold exactChars plainChars
  split
  · -- a zero behind the point changes nothing
    rw [ofPlain_append d.digits_wholeDigits, List.append_nil,
      ← Numeral.ofPlain_point d.digits_wholeDigits, ofPlain_append d.digits_wholeDigits,
      List.append_nil, Nat.ofDigitChars_append]
    simp only [value, Nat.ofDigitChars_cons, Nat.ofDigitChars_nil, List.length_nil,
      List.length_singleton, Nat.sub_self, Nat.add_zero, Nat.cast_mul, Nat.cast_ofNat,
      Nat.cast_zero, Nat.cast_one, neg_zero, zpow_zero, zpow_neg_one]
    ring
  · rfl

end Decimal

namespace NumberStyle

theorem exact_writePositional (d : Decimal) :
    exact.writePositional d = String.ofList d.exactChars := by
  unfold writePositional Decimal.exactChars
  rcases d.fractionDigits with _ | ⟨c, cs⟩
  · simp [exact, String.ofList_append]
  · simp [String.ofList_append, String.append_assoc]

/-- The digits of an exponent, at least two. -/
def sizeChars (e : Int) : List Char :=
  List.replicate (2 - (Nat.toDigits 10 e.natAbs).length) '0' ++ Nat.toDigits 10 e.natAbs

theorem ofDigitChars_sizeChars (e : Int) : Nat.ofDigitChars 10 (sizeChars e) 0 = e.natAbs := by
  rw [sizeChars, Nat.ofDigitChars_append, Nat.ofDigitChars_replicate_zero, Nat.mul_zero,
    Nat.ofDigitChars_ten_toDigits]

theorem writeScientific_eq (d : Decimal) :
    writeScientific d = String.ofList (d.significand
      ++ 'e' :: (if d.point - 1 < 0 then '-' else '+') :: sizeChars (d.point - 1)) := by
  have hexponent : writeExponent (d.point - 1) = String.ofList
      ('e' :: (if d.point - 1 < 0 then '-' else '+') :: sizeChars (d.point - 1)) := by
    unfold writeExponent
    rw [← String.toList_inj]
    split <;> simp [sizeChars]
  unfold writeScientific Decimal.significand
  rw [hexponent]
  rcases d.digits.drop 1 with _ | ⟨c, cs⟩
  · simp [String.ofList_append]
  · simp [String.ofList_append, String.append_assoc]

/-- The exact style writes the digits with a point, or one digit before it and an exponent. -/
theorem exact_writeMagnitude (m : Magnitude) {d : Decimal} (hd : m.shortest = d) :
    exact.writeMagnitude m = String.ofList d.exactChars
      ∨ exact.writeMagnitude m = String.ofList (d.significand
        ++ 'e' :: (if d.point - 1 < 0 then '-' else '+') :: sizeChars (d.point - 1)) := by
  rw [writeMagnitude, hd]
  by_cases hpositional : exact.positional (d.point - 1) = true
  · rw [if_pos hpositional, exact_writePositional]
    exact Or.inl rfl
  · rw [if_neg hpositional, writeScientific_eq]
    exact Or.inr rfl

end NumberStyle

namespace Double

open Numeral

variable (negative : Bool) (m : Magnitude)

theorem write_finite (style : NumberStyle) {cs : List Char}
    (h : style.writeMagnitude m = String.ofList cs) :
    style.write (.finite negative m) = String.ofList (signChars negative ++ cs) := by
  rw [NumberStyle.write, h, String.ofList_append]
  cases negative <;> rfl

theorem plainText_finite :
    (finite negative m).plainText = String.ofList (signChars negative ++ m.shortest.plainChars) :=
  write_finite negative m .plain (NumberStyle.plain_writePositional m.shortest)

theorem denoted_plainText :
    denoted (finite negative m).plainText = (if negative then -1 else 1) * m.shortest.value := by
  rw [plainText_finite, denoted_eq, ofText_plain negative m.shortest.plain_plainChars,
    Decimal.value_plainChars]

theorem ofText_exact_scientific {d : Decimal} (hwrite : NumberStyle.exact.writeMagnitude m
    = String.ofList (d.significand ++ 'e' :: (if d.point - 1 < 0 then '-' else '+')
      :: NumberStyle.sizeChars (d.point - 1))) :
    ofText (finite negative m).exactText = (negative, d) := by
  have hpos : 0 < d.digits.length := Nat.length_toDigits_pos
  have hpoint : d.point = d.digits.length + d.exponent := rfl
  have hexponent : -((d.digits.length - 1 : ℕ) : ℤ)
      + (if d.point - 1 < 0 then -((d.point - 1).natAbs : ℤ) else (d.point - 1).natAbs)
        = d.exponent := by
    split <;> omega
  have hread := ofText_scientific negative (decide (d.point - 1 < 0)) d.plain_significand
    (NumberStyle.sizeChars (d.point - 1))
  simp only [decide_eq_true_eq, NumberStyle.ofDigitChars_sizeChars, Decimal.ofPlain_significand,
    hexponent] at hread
  rw [exactText, write_finite negative m .exact hwrite, hread]

theorem denoted_exactText :
    denoted (finite negative m).exactText = (if negative then -1 else 1) * m.shortest.value := by
  generalize hd : m.shortest = d
  rcases NumberStyle.exact_writeMagnitude m hd with hwrite | hwrite
  · rw [exactText, write_finite negative m .exact hwrite, denoted_eq,
      ofText_plain negative d.plain_exactChars, Decimal.value_exactChars]
  · rw [denoted_eq, ofText_exact_scientific negative m hwrite]

end Double

end Reckoner
