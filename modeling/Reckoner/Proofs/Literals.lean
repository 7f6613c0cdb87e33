import Reckoner.Decimal.Numeral
import Reckoner.Proofs.Failures
import Reckoner.Token.Scan

/-!
# The numbers of a line

A number of a line is a run of digits, perhaps with a point and more digits after it (`Plain`). Such
a text is always a numeral, and as a numeral it stands for the value that its token carries
(`Token.scan_faithful`).
-/

namespace Reckoner

/-- Nothing but digits. -/
def Digits (cs : List Char) : Prop := ∀ c ∈ cs, c.isDigit = true

/-- Digits, or digits with a point that more digits may follow. -/
inductive Plain : List Char → Prop where
  | whole {ds : List Char} : ds ≠ [] → Digits ds → Plain ds
  | fraction {ds es : List Char} : ds ≠ [] → Digits ds → Digits es → Plain (ds ++ '.' :: es)

/-- The characters of a run one by one, for what can be checked of each. -/
def numberChars : List Char := ['0', '1', '2', '3', '4', '5', '6', '7', '8', '9', '.']

theorem mem_of_isNumberChar {c : Char} (h : Token.isNumberChar c = true) :
    c ∈ numberChars := by
  simp only [Token.isNumberChar, Bool.or_eq_true, beq_iff_eq] at h
  rcases h with h | rfl
  · obtain ⟨h0, h9⟩ := Char.isDigit_iff_toNat.mp h
    have hall : ∀ n, n ≤ 57 → 48 ≤ n → Char.ofNat n ∈ numberChars := by decide
    have hc := hall c.toNat h9 h0
    rwa [Char.ofNat_toNat] at hc
  · decide

theorem digits_of_no_point {cs : List Char} (h : ∀ c ∈ cs, Token.isNumberChar c = true)
    (hp : '.' ∉ cs) : Digits cs := by
  intro c hc
  have hn := h c hc
  simp only [Token.isNumberChar, Bool.or_eq_true, beq_iff_eq] at hn
  rcases hn with hd | rfl
  · exact hd
  · exact absurd hc hp

/-- A run with one point at most is cut in two by it, or is all digits. -/
theorem split_run :
    ∀ {cs : List Char}, (∀ c ∈ cs, Token.isNumberChar c = true) → cs.count '.' ≤ 1 →
      Digits cs ∨ ∃ ds es, cs = ds ++ '.' :: es ∧ Digits ds ∧ Digits es
  | [], _, _ => Or.inl (by simp [Digits])
  | c :: cs, h, hp => by
    have hcs : ∀ d ∈ cs, Token.isNumberChar d = true := fun d hd => h d (List.mem_cons_of_mem _ hd)
    by_cases hc : c = '.'
    · subst hc
      rw [List.count_cons_self] at hp
      have hnone : '.' ∉ cs := List.count_eq_zero.mp (by omega)
      exact Or.inr ⟨[], cs, rfl, by simp [Digits], digits_of_no_point hcs hnone⟩
    · rw [List.count_cons_of_ne hc] at hp
      have hd : c.isDigit = true := by simpa [Token.isNumberChar, hc] using h c List.mem_cons_self
      rcases split_run hcs hp with hds | ⟨ds, es, rfl, hds, hes⟩
      · exact Or.inl (by simpa [Digits, hd] using hds)
      · exact Or.inr ⟨c :: ds, es, rfl, by simpa [Digits, hd] using hds, hes⟩

theorem Plain.of_run {c : Char} {run : List Char} (hc : c.isDigit = true)
    (h : ∀ d ∈ run, Token.isNumberChar d = true) (hp : (c :: run).count '.' ≤ 1) :
    Plain (c :: run) := by
  have hpoint : c ≠ '.' := by
    rintro rfl
    simp at hc
  rw [List.count_cons_of_ne hpoint] at hp
  rcases split_run h hp with hds | ⟨ds, es, rfl, hds, hes⟩
  · exact .whole (by simp) (by simpa [Digits, hc] using hds)
  · exact @fraction (c :: ds) es (by simp) (by simpa [Digits, hc] using hds) hes

namespace Plain

variable {cs : List Char}

theorem isNumberChar (h : Plain cs) : ∀ c ∈ cs, Token.isNumberChar c = true := by
  have hd {ds : List Char} (hds : Digits ds) : ∀ c ∈ ds, Token.isNumberChar c = true :=
    fun c hc => by simp [Token.isNumberChar, hds c hc]
  cases h with
  | whole _ hds => exact hd hds
  | @fraction ds es _ hds hes =>
    simp only [List.mem_append, List.mem_cons, or_imp, forall_and, forall_eq]
    exact ⟨hd hds, by decide, hd hes⟩

/-- What holds of each digit and of the point holds of each character. -/
theorem forall_mem {P : Char → Prop} [DecidablePred P] (h : Plain cs)
    (hp : numberChars.all (P ·) = true) : ∀ c ∈ cs, P c := by
  intro c hc
  have hmem := mem_of_isNumberChar (h.isNumberChar c hc)
  simpa using List.all_eq_true.mp hp c hmem

theorem exists_cons (h : Plain cs) : ∃ c rest, cs = c :: rest ∧ c.isDigit = true := by
  cases h with
  | @whole ds hne hds =>
    obtain ⟨c, rest, rfl⟩ := List.exists_cons_of_ne_nil hne
    exact ⟨c, rest, rfl, hds c List.mem_cons_self⟩
  | @fraction ds es hne hds =>
    obtain ⟨c, rest, rfl⟩ := List.exists_cons_of_ne_nil hne
    exact ⟨c, rest ++ '.' :: es, rfl, hds c List.mem_cons_self⟩

end Plain

namespace Numeral

theorem groupedDigits?_digits :
    ∀ {ds : List Char}, ds ≠ [] → Digits ds → groupedDigits? ds = some ds
  | [], hne, _ => absurd rfl hne
  | [c], _, h => by simp [groupedDigits?, h c]
  | c :: d :: ds, _, h => by
    have hc : c.isDigit = true := h c (by simp)
    have hd : d.isDigit = true := h d (by simp)
    have hu : d ≠ '_' := by
      rintro rfl
      simp at hd
    have ih : groupedDigits? (d :: ds) = some (d :: ds) :=
      groupedDigits?_digits (by simp) fun x hx => h x (List.mem_cons_of_mem _ hx)
    rw [groupedDigits?]
    · simp [hc, ih]
    · simp
    · simpa using hu

theorem optionalDigits?_digits {ds : List Char} (h : Digits ds) : optionalDigits? ds = some ds := by
  unfold optionalDigits?
  split
  · rename_i he
    rw [List.isEmpty_iff.mp he]
  · rename_i he
    exact groupedDigits?_digits (by simpa using he) h

theorem splitAt?_of_none {p : Char → Bool} {cs : List Char} (h : ∀ c ∈ cs, p c = false) :
    splitAt? p cs = (cs, none) := by
  have hcs : ∀ c ∈ cs, (!p c) = true := fun c hc => by simp [h c hc]
  have hd : cs.dropWhile (!p ·) = [] := by
    simpa using @List.dropWhile_append_of_pos _ _ cs [] hcs
  unfold splitAt?
  rw [hd]

theorem splitAt?_append {p : Char → Bool} {cs ds : List Char} {c : Char}
    (h : ∀ d ∈ cs, p d = false) (hc : p c = true) :
    splitAt? p (cs ++ c :: ds) = (cs, some ds) := by
  have hcs : ∀ d ∈ cs, (!p d) = true := fun d hd => by simp [h d hd]
  unfold splitAt?
  rw [List.dropWhile_append_of_pos hcs, List.takeWhile_append_of_pos hcs]
  simp [hc]

theorem ne_point {ds : List Char} (h : Digits ds) : ∀ c ∈ ds, (c == '.') = false := by
  intro c hc
  rw [beq_eq_false_iff_ne]
  rintro rfl
  simpa using h _ hc

theorem ofPlain_point {ds : List Char} (h : Digits ds) :
    Decimal.ofPlain (ds ++ ['.']) = Decimal.ofPlain ds := by
  have hds : ∀ c ∈ ds, (c ≠ '.' : Bool) = true := fun c hc => by simpa using ne_point h c hc
  have hd : ds.dropWhile (· ≠ '.') = [] := by
    simpa using @List.dropWhile_append_of_pos _ _ ds [] hds
  have ht : ds.takeWhile (· ≠ '.') = ds := by
    simpa using @List.takeWhile_append_of_pos _ _ ds [] hds
  unfold Decimal.ofPlain
  rw [List.dropWhile_append_of_pos hds, List.takeWhile_append_of_pos hds, hd, ht]
  simp

theorem significand?_eq {cs before whole fraction : List Char} {after : Option (List Char)}
    (hs : splitAt? (· == '.') cs = (before, after)) (hw : optionalDigits? before = some whole)
    (hf : optionalDigits? (after.getD []) = some fraction) (hne : whole ≠ []) :
    significand? cs = some (.ofPlain (whole ++ '.' :: fraction)) := by
  have hbind : significand? cs = (optionalDigits? before).bind fun w =>
      (optionalDigits? (after.getD [])).bind fun f =>
        (guard (!(w.isEmpty && f.isEmpty)) : Option Unit).bind fun _ =>
          some (.ofPlain (w ++ '.' :: f)) := by
    unfold significand?
    rw [hs]
    rfl
  obtain ⟨c, ds, rfl⟩ := List.exists_cons_of_ne_nil hne
  rw [hbind, hw, hf]
  rfl

theorem significand?_plain {cs : List Char} (h : Plain cs) :
    significand? cs = some (.ofPlain cs) := by
  cases h with
  | whole hne h =>
    rw [significand?_eq (splitAt?_of_none (ne_point h)) (optionalDigits?_digits h) rfl hne,
      ofPlain_point h]
  | @fraction ds es hne hd he =>
    exact significand?_eq (splitAt?_append (ne_point hd) rfl) (optionalDigits?_digits hd)
      (optionalDigits?_digits he) hne

theorem decimal?_plain {cs : List Char} (h : Plain cs) : decimal? cs = some (.ofPlain cs) := by
  have hs : splitAt? (fun c => c == 'e' || c == 'E') cs = (cs, none) :=
    splitAt?_of_none (h.forall_mem (by decide))
  simp [decimal?, hs, significand?_plain h]

theorem trim_eq_self {p : Char → Bool} {cs : List Char} (h : ∀ c ∈ cs, p c = false) :
    Text.trim p cs = cs := by
  have hself {ds : List Char} (hd : ∀ c ∈ ds, p c = false) : ds.dropWhile p = ds := by
    cases ds with
    | nil => rfl
    | cons d ds => exact List.dropWhile_cons_of_neg (by simp [hd d])
  rw [Text.trim, hself h, hself (by simpa using h), List.reverse_reverse]

theorem read?_plain {cs : List Char} (h : Plain cs) :
    read? (String.ofList cs) = some ((Decimal.ofPlain cs).nearest false) := by
  have htrim : Text.trim Text.isWhiteSpace cs = cs := trim_eq_self (h.forall_mem (by decide))
  have hplain : cs.map plainDigit = cs := by
    simpa using List.map_congr_left (h.forall_mem (P := fun c => plainDigit c = id c) (by decide))
  have hlower : cs.map Char.toLower = cs := by
    simpa using List.map_congr_left (h.forall_mem (P := fun c => c.toLower = id c) (by decide))
  have hsign : splitSign cs = (false, cs) := by
    have hs := h.forall_mem (P := fun c => c ≠ '-' ∧ c ≠ '+') (by decide)
    unfold splitSign
    split
    · exact absurd rfl (hs '-' (by simp)).1
    · exact absurd rfl (hs '+' (by simp)).2
    · rfl
  -- words for numbers start with letters
  have hword {d : Char} {ds : List Char} (hd : d.isDigit = false) :
      String.ofList cs ≠ String.ofList (d :: ds) := by
    obtain ⟨c, rest, rfl, hc⟩ := h.exists_cons
    intro he
    rw [String.ofList_inj, List.cons.injEq] at he
    rw [he.1, hd] at hc
    cases hc
  simp only [read?, String.toList_ofList, htrim, hplain, hsign, hlower, decimal?_plain h]
  rw [if_neg, if_neg]
  · rfl
  · exact hword (d := 'n') (by decide)
  · exact not_or.mpr ⟨hword (d := 'i') (by decide), hword (d := 'i') (by decide)⟩

end Numeral

/-- If the token is a number, its text is plain, and its value is what the text denotes. -/
def Token.Faithful (t : Token) : Prop :=
  t.kind = .number → ∃ cs, Plain cs ∧ t.lexeme = String.ofList cs
    ∧ t.value = some ((Decimal.ofPlain cs).nearest false)

theorem TokenKind.ofSymbol?_ne_number {c : Char} {kind : TokenKind}
    (h : ofSymbol? c = some kind) : kind ≠ .number := by
  unfold ofSymbol? at h
  split at h <;> cases h <;> decide

namespace Token

/-- The value of a number that comes from a line is the one that its text can be read as. -/
theorem Faithful.read? {t : Token} (h : t.Faithful) (hk : t.kind = .number) :
    ∃ v, t.value = some v ∧ Numeral.read? t.lexeme = some v := by
  obtain ⟨cs, hcs, hlexeme, hvalue⟩ := h hk
  exact ⟨_, hvalue, by rw [hlexeme, Numeral.read?_plain hcs]⟩

theorem scanFrom_faithful {position : Nat} {cs : List Char} {tokens : List Token}
    (h : scanFrom position cs = .ok tokens) : ∀ t ∈ tokens, t.Faithful := by
  fun_induction scanFrom position cs generalizing tokens with
  | case1 =>
    cases h
    simp
  | case2 => cases h
  | case3 position c rest hc lexeme hpoints =>
    rename_i ih
    obtain ⟨others, ho, h⟩ := bind_eq_ok_iff.mp h
    cases h
    have hrun : ∀ d ∈ rest.takeWhile isNumberChar, isNumberChar d = true :=
      List.all_eq_true.mp List.all_takeWhile
    have hplain : Plain lexeme := .of_run hc hrun (Nat.le_of_not_lt hpoints)
    exact List.forall_mem_cons.mpr ⟨fun _ => ⟨lexeme, hplain, rfl, rfl⟩, ih ho⟩
  | case4 =>
    rename_i ih
    obtain ⟨others, ho, h⟩ := bind_eq_ok_iff.mp h
    cases h
    exact List.forall_mem_cons.mpr ⟨fun hk => by simp at hk, ih ho⟩
  | case5 position c rest hd ha kind hk ih =>
    obtain ⟨others, ho, h⟩ := bind_eq_ok_iff.mp h
    cases h
    exact List.forall_mem_cons.mpr
      ⟨fun hn => absurd hn (TokenKind.ofSymbol?_ne_number hk), ih ho⟩
  | case6 position c rest hd ha hk hs ih => exact ih h
  | case7 => cases h

theorem scan_faithful {line : String} {tokens : List Token} (h : scan line = .ok tokens) :
    ∀ t ∈ tokens, t.Faithful := by
  unfold scan at h
  split at h
  · rename_i hs
    cases h
    exact scanFrom_faithful hs
  · cases h

end Token

end Reckoner
