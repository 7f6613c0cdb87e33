import Reckoner.Decimal.Style
import Reckoner.Proofs.Chunks
import Reckoner.Proofs.Execution
import Reckoner.Proofs.Rounding

/-!
# Results as lines

The text of a finite value is a plain number, perhaps after a minus sign (`Double.plainText_eq`),
and the number is the shortest decimal of the magnitude with its digits written out. So as a line
the text is a number or a sign before one, and working it out gives the value again, sign of zero
and all. With a name and an equal sign before it, the line is an assignment of the value.
-/

namespace Reckoner

namespace Digits

theorem zeros (n : Nat) : Digits (List.replicate n '0') := by
  intro c hc
  rw [List.eq_of_mem_replicate hc]
  decide

theorem append {ds es : List Char} (hd : Digits ds) (he : Digits es) : Digits (ds ++ es) := by
  intro c hc
  rcases List.mem_append.1 hc with hc | hc
  · exact hd c hc
  · exact he c hc

end Digits

namespace Decimal

variable (d : Decimal)

theorem digits_digits : Digits d.digits := by
  intro c hc
  exact Nat.isDigit_of_mem_toDigits (by decide) (by decide) hc

theorem digits_wholeDigits : Digits d.wholeDigits := by
  unfold wholeDigits
  split
  · exact .zeros 1
  · have htake : Digits (d.digits.take d.point.toNat) :=
      fun c hc => d.digits_digits c (List.mem_of_mem_take hc)
    exact htake.append (.zeros _)

theorem digits_fractionDigits : Digits d.fractionDigits :=
  (Digits.zeros _).append fun c hc => d.digits_digits c (List.mem_of_mem_drop hc)

theorem wholeDigits_ne_nil : d.wholeDigits ≠ [] := by
  have hpos : 0 < d.digits.length := Nat.length_toDigits_pos
  unfold wholeDigits
  split
  · simp
  · rename_i hpoint
    have htake : 0 < (d.digits.take d.point.toNat).length := by
      rw [List.length_take]
      omega
    exact List.append_ne_nil_of_left_ne_nil (List.length_pos_iff.1 htake) _

/-- There are as many digits after the point as the exponent says. -/
theorem length_fractionDigits : d.fractionDigits.length = (-d.exponent).toNat := by
  have hpos : 0 < d.digits.length := Nat.length_toDigits_pos
  have hpoint : d.point = d.digits.length + d.exponent := rfl
  simp only [fractionDigits, List.length_append, List.length_replicate, List.length_drop]
  omega

/-- Without the point, the digits are those of the coefficient with zeros on either side. -/
theorem ofDigitChars_positional :
    Nat.ofDigitChars 10 (d.wholeDigits ++ d.fractionDigits) 0
      = d.coefficient * 10 ^ d.exponent.toNat := by
  have hdigits : Nat.ofDigitChars 10 d.digits 0 = d.coefficient := Nat.ofDigitChars_ten_toDigits
  have hpoint : d.point = d.digits.length + d.exponent := rfl
  unfold wholeDigits fractionDigits
  split
  · -- zeros before the digits
    have hexponent : d.exponent.toNat = 0 := by omega
    have hdrop : d.point.toNat = 0 := by omega
    simp [hexponent, hdrop, Nat.ofDigitChars_cons, Nat.ofDigitChars_append, hdigits]
  · have hnone : (-d.point).toNat = 0 := by omega
    rw [hnone, List.replicate_zero, List.nil_append]
    rcases Int.lt_or_le d.exponent 0 with hneg | hnonneg
    · have hexponent : d.exponent.toNat = 0 := by omega
      simp [hexponent, hdigits]
    · -- zeros after the digits
      have hall : d.digits.length ≤ d.point.toNat := by omega
      rw [List.take_of_length_le hall, List.drop_eq_nil_of_le hall, List.append_nil,
        Nat.ofDigitChars_append, hdigits, Nat.ofDigitChars_replicate_zero, Nat.mul_comm]

/-- The digits with a point if there are any behind it. -/
def plainChars : List Char :=
  d.wholeDigits ++ if d.fractionDigits = [] then [] else '.' :: d.fractionDigits

theorem plain_plainChars : Plain d.plainChars := by
  unfold plainChars
  split
  · rw [List.append_nil]
    exact .whole d.wholeDigits_ne_nil d.digits_wholeDigits
  · exact .fraction d.wholeDigits_ne_nil d.digits_wholeDigits d.digits_fractionDigits

theorem ofPlain_append {ds : List Char} (h : Digits ds) (es : List Char) :
    ofPlain (ds ++ '.' :: es) = ⟨Nat.ofDigitChars 10 (ds ++ es) 0, -(es.length : Int)⟩ := by
  have hds : ∀ c ∈ ds, (c ≠ '.' : Bool) = true := by
    intro c hc
    simpa using Numeral.ne_point h c hc
  unfold ofPlain
  rw [List.dropWhile_append_of_pos hds, List.takeWhile_append_of_pos hds]
  simp

theorem ofPlain_plainChars :
    ofPlain d.plainChars
      = ⟨d.coefficient * 10 ^ d.exponent.toNat, -((-d.exponent).toNat : Int)⟩ := by
  rw [← ofDigitChars_positional, ← length_fractionDigits, ← ofPlain_append d.digits_wholeDigits]
  unfold plainChars
  split
  · rename_i h
    rw [h, List.append_nil, Numeral.ofPlain_point d.digits_wholeDigits]
  · rfl

/-- The text denotes the number that it was written for. -/
theorem value_plainChars : (ofPlain d.plainChars).value = d.value := by
  rw [ofPlain_plainChars, value_eq_div d, value, zpow_neg, zpow_natCast]
  push_cast
  ring

end Decimal

theorem NumberStyle.plain_writePositional (d : Decimal) :
    plain.writePositional d = String.ofList d.plainChars := by
  unfold writePositional Decimal.plainChars
  rcases d.fractionDigits with _ | ⟨c, cs⟩
  · simp [plain]
  · simp [String.ofList_append, String.append_assoc]

/-- The text of a magnitude is a plain number that is read as the magnitude. -/
theorem NumberStyle.plain_writeMagnitude (m : Magnitude) :
    ∃ cs, plain.writeMagnitude m = String.ofList cs ∧ Plain cs
      ∧ (Decimal.ofPlain cs).nearest false = .finite false m := by
  refine ⟨m.shortest.plainChars, ?_, m.shortest.plain_plainChars, ?_⟩
  · exact plain_writePositional m.shortest
  · rw [Decimal.nearest_eq_of_value_eq m.shortest.value_plainChars, m.nearest_shortest]

/-! ## Values as lines -/

theorem Plain.count_point_le {cs : List Char} (h : Plain cs) : cs.count '.' ≤ 1 := by
  have hzero {ds : List Char} (hd : Digits ds) : ds.count '.' = 0 := by
    refine List.count_eq_zero.2 fun hmem => ?_
    simpa using hd '.' hmem
  cases h with
  | whole _ hd => simp [hzero hd]
  | fraction _ hd he => simp [hzero hd, hzero he]

/-- A letter with letters and digits after it. -/
def IsName (n : String) : Prop :=
  ∃ c run, n = String.ofList (c :: run) ∧ c.isAlpha = true ∧ ∀ d ∈ run, d.isAlphanum = true

/-- A sign in front of a number, if it is negative. -/
def signChars (negative : Bool) : List Char := if negative then ['-'] else []

namespace Token

theorem scanFrom_plain (i : Nat) {cs : List Char} (h : Plain cs) :
    scanFrom i cs
      = .ok [⟨.number, String.ofList cs, i, some ((Decimal.ofPlain cs).nearest false)⟩] := by
  obtain ⟨c, run, rfl, hc⟩ := h.exists_cons
  have hrun : MaximalRun isNumberChar run [] :=
    ⟨fun d hd => h.isNumberChar d (List.mem_cons_of_mem _ hd), by simp⟩
  have hchunk := scanFrom_chunk i (.number hc hrun h.count_point_le)
  rw [List.append_nil, ofChunk_number i h, scanFrom] at hchunk
  exact hchunk

/-- The tokens of a plain number with its sign, from position `i` on. -/
def ofSigned (i : Nat) (negative : Bool) (cs : List Char) (v : Double) : List Token :=
  if negative then [⟨.minus, "-", i, none⟩, ⟨.number, String.ofList cs, (i + 1 : Nat), some v⟩]
  else [⟨.number, String.ofList cs, i, some v⟩]

theorem scanFrom_signed (i : Nat) (negative : Bool) {cs : List Char} (h : Plain cs) :
    scanFrom i (signChars negative ++ cs)
      = .ok (ofSigned i negative cs ((Decimal.ofPlain cs).nearest false)) := by
  cases negative with
  | false => exact scanFrom_plain i h
  | true =>
    have hminus : Chunk (some .minus) ['-'] cs := .symbol (by decide)
    have hchunk := scanFrom_chunk i hminus
    rw [scanFrom_plain _ h] at hchunk
    exact hchunk

/-- The tokens of a name and an equal sign. -/
def ofTarget (name : List Char) : List Token :=
  [⟨.identifier, String.ofList name, 0, none⟩, ⟨.equal, "=", (name.length + 1 : Nat), none⟩]

theorem scanFrom_target {c : Char} {run : List Char} (hc : c.isAlpha = true)
    (hrun : ∀ d ∈ run, d.isAlphanum = true) (rest : List Char) :
    scanFrom 0 (c :: run ++ [' ', '=', ' '] ++ rest)
      = (scanFrom (run.length + 4) rest).map (ofTarget (c :: run) ++ ·) := by
  have hname : Chunk (some .identifier) (c :: run) ([' '] ++ (['='] ++ ([' '] ++ rest))) :=
    .name hc ⟨hrun, by simp⟩
  have hequal : Chunk (some .equal) ['='] ([' '] ++ rest) := .symbol (by decide)
  have hspace (cs : List Char) : Chunk none [' '] cs := .separator (by decide)
  have happend : c :: run ++ [' ', '=', ' '] ++ rest
      = c :: run ++ ([' '] ++ (['='] ++ ([' '] ++ rest))) := by simp
  rw [happend, scanFrom_chunk _ hname, scanFrom_chunk _ (hspace _), scanFrom_chunk _ hequal,
    scanFrom_chunk _ (hspace _)]
  have hlength : 0 + (c :: run).length + [' '].length + ['='].length + [' '].length
      = run.length + 4 := by simp
  rw [hlength]
  rcases scanFrom (run.length + 4) rest with e | ts
  · rfl
  · simp [Except.map, ofChunk, ofTarget]

end Token

namespace Expr

/-- A number with its sign. -/
def signed (negative : Bool) (v : Double) : Expr :=
  if negative then .unary .minus (.number v) else .number v

theorem eval_signed (vars : Variables) (levels : Nat) (negative : Bool) (m : Magnitude) :
    (signed negative (.finite false m)).eval vars (levels + 2) = .ok (.finite negative m) := by
  cases negative <;> rfl

end Expr

namespace Statement

/-- A sign and its number take four levels: an expression and an operand each. -/
theorem ofTokens_signed (depth i : Nat) (negative : Bool) (cs : List Char) (v : Double) :
    ofTokens (depth + 4) (Token.ofSigned i negative cs v)
      = .ok (.expression (.signed negative v)) := by
  cases negative <;> rfl

theorem ofTokens_target (depth i : Nat) (name : List Char) (negative : Bool) (cs : List Char)
    (v : Double) :
    ofTokens (depth + 4) (Token.ofTarget name ++ Token.ofSigned i negative cs v)
      = .ok (.assign (String.ofList name) (.signed negative v)) := by
  cases negative <;> rfl

end Statement

theorem Double.plainText_eq (negative : Bool) (m : Magnitude) :
    ∃ cs, (Double.finite negative m).plainText = String.ofList (signChars negative ++ cs)
      ∧ Plain cs ∧ (Decimal.ofPlain cs).nearest false = .finite false m := by
  obtain ⟨cs, htext, hplain, hnearest⟩ := NumberStyle.plain_writeMagnitude m
  refine ⟨cs, ?_, hplain, hnearest⟩
  simp only [plainText, NumberStyle.write, htext, String.ofList_append]
  cases negative <;> rfl

namespace Session

/-- A line whose statement has a value on its tree succeeds with it, in either mode and whoever
watches. -/
theorem effect_run {s : Session} {line : String} {tokens : List Token} {st : Statement}
    {r : Result} {vars : Variables} (hscan : Token.scan line = .ok tokens)
    (hparse : Statement.ofTokens s.limits.nesting tokens = .ok st)
    (heval : st.eval s.vars s.limits.levels = .ok (r, vars)) :
    (s.run line).effect = (.ok r, vars) := by
  have hexecute : (s.execute st).effect = (.ok r, vars) := execute_ok_iff.2 heval
  obtain ⟨gap, hrender⟩ := st.render_eq s.limits.levels
  rw [(Statement.eval_ok heval).1] at hrender
  unfold run
  simp only [hscan, hparse, showAndExecute, hrender, Report.effect_after]
  split
  · exact hexecute
  · exact hexecute

theorem effect_run_plainText {s : Session} (hnesting : 4 ≤ s.limits.nesting)
    (hlevels : 2 ≤ s.limits.levels) (negative : Bool) (m : Magnitude) :
    (s.run (Double.finite negative m).plainText).effect
      = (.ok ⟨none, .finite negative m⟩, s.vars) := by
  obtain ⟨depth, hdepth⟩ := Nat.exists_eq_add_of_le' hnesting
  obtain ⟨levels, hlevels⟩ := Nat.exists_eq_add_of_le' hlevels
  obtain ⟨cs, htext, hplain, hnearest⟩ := Double.plainText_eq negative m
  have hscan : Token.scan (Double.finite negative m).plainText
      = .ok (Token.ofSigned 0 negative cs (.finite false m)) := by
    rw [htext, Token.scan, String.toList_ofList, Token.scanFrom_signed 0 negative hplain, hnearest]
  have hparse := Statement.ofTokens_signed depth 0 negative cs (.finite false m)
  rw [← hdepth] at hparse
  refine effect_run hscan hparse ?_
  rw [hlevels, Statement.eval, Expr.eval_signed]
  rfl

theorem effect_run_assignment {s : Session} (hnesting : 4 ≤ s.limits.nesting)
    (hlevels : 2 ≤ s.limits.levels) (negative : Bool) (m : Magnitude) {n : String} (hn : IsName n) :
    (s.run (Result.mk (some n) (.finite negative m)).text).effect
      = (.ok ⟨some n, .finite negative m⟩, s.vars.set n (.finite negative m)) := by
  obtain ⟨depth, hdepth⟩ := Nat.exists_eq_add_of_le' hnesting
  obtain ⟨levels, hlevels⟩ := Nat.exists_eq_add_of_le' hlevels
  obtain ⟨cs, htext, hplain, hnearest⟩ := Double.plainText_eq negative m
  obtain ⟨c, run, rfl, hc, hrun⟩ := hn
  have hline : (Result.mk (some (String.ofList (c :: run))) (.finite negative m)).text.toList
      = c :: run ++ [' ', '=', ' '] ++ (signChars negative ++ cs) := by
    simp [Result.text, htext]
  have hscan : Token.scan (Result.mk (some (String.ofList (c :: run))) (.finite negative m)).text
      = .ok (Token.ofTarget (c :: run)
        ++ Token.ofSigned (run.length + 4) negative cs (.finite false m)) := by
    rw [Token.scan, hline, Token.scanFrom_target hc hrun, Token.scanFrom_signed _ negative hplain,
      hnearest]
    rfl
  have hparse :=
    Statement.ofTokens_target depth (run.length + 4) (c :: run) negative cs (.finite false m)
  rw [← hdepth] at hparse
  refine effect_run hscan hparse ?_
  rw [hlevels, Statement.eval, Expr.eval_signed]
  rfl

/-- What is printed for a finite value, typed in as a line, succeeds with the same value, down to
the sign of a zero. What is printed for an assignment makes the same assignment again. All that
this takes is room for a sign before a number. -/
theorem run_text_reads_back (s : Session) (hnesting : 4 ≤ s.limits.nesting)
    (hlevels : 2 ≤ s.limits.levels) (negative : Bool) (m : Magnitude) :
    let v := Double.finite negative m
    (s.run v.plainText).effect = (.ok ⟨none, v⟩, s.vars)
    ∧ ∀ n : String, IsName n →
      let r : Result := ⟨some n, v⟩
      (s.run r.text).effect = (.ok r, s.vars.set n v)
        ∧ (s.next (s.run r.text)).vars.get? n = some v := by
  intro v
  refine ⟨effect_run_plainText hnesting hlevels negative m, ?_⟩
  intro n hn r
  have heffect := effect_run_assignment hnesting hlevels negative m hn
  have hvars : (s.run r.text).vars = s.vars.set n v := congrArg Prod.snd heffect
  exact ⟨heffect, by simp only [next, hvars, Variables.get?_set_self]⟩

/-- Negative zero keeps its sign by way of a minus that is worked out. -/
theorem run_text_reads_back_negative_zero :
    let s : Session := { mode := .compile }
    let v := Double.finite true .zero
    4 ≤ s.limits.nesting ∧ 2 ≤ s.limits.levels ∧ IsName "x1" ∧ v.plainText = "-0"
      ∧ (s.run "-0").effect = (.ok ⟨none, v⟩, s.vars)
      ∧ (s.next (s.run "x1 = -0")).vars.get? "x1" = some v := by
  intro s v
  have hnesting : 4 ≤ s.limits.nesting := by decide
  have hlevels : 2 ≤ s.limits.levels := by decide
  have hname : IsName "x1" := ⟨'x', ['1'], rfl, rfl, by simp [Char.isAlphanum]⟩
  have htext : v.plainText = "-0" := rfl
  obtain ⟨hvalue, hassign⟩ := run_text_reads_back s hnesting hlevels true .zero
  have hline : (Result.mk (some "x1") v).text = "x1 = -0" := by
    simp only [Result.text, htext]
    rfl
  rw [← htext, ← hline]
  exact ⟨hnesting, hlevels, hname, rfl, hvalue, (hassign "x1" hname).2⟩

end Session

end Reckoner
