import Reckoner.Proofs.Literals
import Reckoner.Session.Failure

/-!
# The chunks of a line

A line falls into chunks from left to right: separators, symbols, names and numbers, where a name or
a number takes every character that can belong to it (`Chunk`). Where no chunk starts, a character
or a number with two points stands (`Misfit`).

Reading a chunk gives its token and goes on behind it (`scanFrom_chunk`), so the reading of a line
gives the tokens of its chunks up to the first misfit (`Splits.scanFrom_eq`), and every line has
such a split (`exists_splits`). A chunk depends on no more than the first character after it, so
lines that start alike up to a misfit fail alike (`Splits.follow`).
-/

namespace Reckoner

/-- The first `n` characters of the line show its fault: they reach as far as the character that
does not fit, or as the second point of the number. -/
def ScanError.ShownBy (e : ScanError) (n : Nat) : Prop :=
  match e.fault with
  | .unexpectedCharacter _ => e.index < n
  | .invalidNumber _ => 1 < ((e.line.toList.take n).drop e.index).count '.'

namespace Token

def separators : List Char := [' ', '\t', '\n', '\r', '\x0c']

def symbols : List (Char × TokenKind) :=
  [('+', .plus), ('-', .minus), ('*', .star), ('/', .slash), ('^', .caret), ('!', .bang),
    ('(', .bracketOpen), (')', .bracketClose), ('=', .equal)]

/-- All characters of `run` satisfy `p`, and what follows does not go on with one that does. -/
def MaximalRun (p : Char → Bool) (run rest : List Char) : Prop :=
  (∀ c ∈ run, p c = true) ∧ ∀ c ∈ rest.head?, p c = false

/-- The characters `chunk` before `rest` are a separator, which has no kind, or the text of a token
of the given kind. -/
inductive Chunk : Option TokenKind → List Char → List Char → Prop where
  | separator {c : Char} {rest : List Char} : c ∈ separators → Chunk none [c] rest
  | symbol {c : Char} {kind : TokenKind} {rest : List Char} : (c, kind) ∈ symbols →
      Chunk (some kind) [c] rest
  | name {c : Char} {run rest : List Char} : c.isAlpha = true →
      MaximalRun Char.isAlphanum run rest → Chunk (some .identifier) (c :: run) rest
  | number {c : Char} {run rest : List Char} : c.isDigit = true →
      MaximalRun isNumberChar run rest → (c :: run).count '.' ≤ 1 →
      Chunk (some .number) (c :: run) rest

/-- No chunk starts with the first of the characters, for the given reason. -/
inductive Misfit : List Char → ScanFault → Prop where
  | number {c : Char} {run rest : List Char} : c.isDigit = true →
      MaximalRun isNumberChar run rest → 1 < (c :: run).count '.' →
      Misfit (c :: run ++ rest) (.invalidNumber (String.ofList (c :: run)))
  | character {c : Char} {rest : List Char} : c.isDigit = false → c.isAlpha = false →
      (∀ kind, (c, kind) ∉ symbols) → c ∉ separators → Misfit (c :: rest) (.unexpectedCharacter c)

/-- The token of a chunk, none for a separator. A number has the value of its text. -/
def ofChunk (position : Nat) (chunk : List Char) (kind? : Option TokenKind) : List Token :=
  kind?.toList.map fun kind =>
    { kind
      lexeme := String.ofList chunk
      position
      value := if kind = .number then Numeral.read? (String.ofList chunk) else none }

/-- From position `i` on, the characters split into chunks with the given tokens up to position `j`,
where `rest` is left. -/
inductive Splits : Nat → List Char → List Token → Nat → List Char → Prop where
  | done (i : Nat) (cs : List Char) : Splits i cs [] i cs
  | chunk {i j : Nat} {kind? : Option TokenKind} {chunk cs rest : List Char} {ts : List Token} :
      Chunk kind? chunk cs → Splits (i + chunk.length) cs ts j rest →
      Splits i (chunk ++ cs) (ofChunk i chunk kind? ++ ts) j rest

theorem isSpace_eq_true_iff {c : Char} : isSpace c = true ↔ c ∈ separators := by
  simp [isSpace, separators, or_assoc]

theorem ofSymbol?_eq_some_iff {c : Char} {kind : TokenKind} :
    TokenKind.ofSymbol? c = some kind ↔ (c, kind) ∈ symbols := by
  constructor
  · intro h
    unfold TokenKind.ofSymbol? at h
    split at h <;> cases h <;> decide
  · intro h
    simp only [symbols, List.mem_cons, Prod.mk.injEq, List.not_mem_nil, or_false] at h
    rcases h with ⟨rfl, rfl⟩ | ⟨rfl, rfl⟩ | ⟨rfl, rfl⟩ | ⟨rfl, rfl⟩ | ⟨rfl, rfl⟩ | ⟨rfl, rfl⟩ |
      ⟨rfl, rfl⟩ | ⟨rfl, rfl⟩ | ⟨rfl, rfl⟩ <;> rfl

theorem ofSymbol?_eq_none_iff {c : Char} :
    TokenKind.ofSymbol? c = none ↔ ∀ kind, (c, kind) ∉ symbols := by
  simp only [Option.eq_none_iff_forall_ne_some, ne_eq, ofSymbol?_eq_some_iff]

theorem not_isDigit_of_isAlpha {c : Char} (h : c.isAlpha = true) : c.isDigit = false := by
  rw [Bool.eq_false_iff]
  intro hd
  have hall : numberChars.all (!·.isAlpha) = true := by decide
  have hmem : c ∈ numberChars := mem_of_isNumberChar (by simp [isNumberChar, hd])
  have hc := List.all_eq_true.mp hall c hmem
  simp [h] at hc

theorem not_alphanumeric_of_symbol {c : Char} {kind : TokenKind} (h : (c, kind) ∈ symbols) :
    c.isDigit = false ∧ c.isAlpha = false := by
  have hall : ∀ x ∈ symbols, x.1.isDigit = false ∧ x.1.isAlpha = false := by decide
  exact hall _ h

theorem not_symbol_of_separator {c : Char} (h : c ∈ separators) :
    c.isDigit = false ∧ c.isAlpha = false ∧ TokenKind.ofSymbol? c = none := by
  simp only [separators, List.mem_cons, List.not_mem_nil, or_false] at h
  rcases h with rfl | rfl | rfl | rfl | rfl <;> exact ⟨rfl, rfl, rfl⟩

namespace MaximalRun

variable {p : Char → Bool} {run rest : List Char}

theorem takeWhile_eq (h : MaximalRun p run rest) : (run ++ rest).takeWhile p = run := by
  rw [List.takeWhile_append_of_pos h.1]
  rcases rest with _ | ⟨c, rest⟩
  · simp
  · simp [h.2 c rfl]

theorem dropWhile_eq (h : MaximalRun p run rest) : (run ++ rest).dropWhile p = rest := by
  rw [List.dropWhile_append_of_pos h.1]
  rcases rest with _ | ⟨c, rest⟩
  · rfl
  · simp [h.2 c rfl]

theorem of_span (p : Char → Bool) (cs : List Char) :
    MaximalRun p (cs.takeWhile p) (cs.dropWhile p) := by
  refine ⟨List.all_eq_true.mp List.all_takeWhile, fun c hc => ?_⟩
  have h := List.head?_dropWhile_not p cs
  rw [Option.mem_def.mp hc] at h
  exact h

/-- Only the first character after a run matters to it. -/
theorem congr {rest' : List Char} (h : MaximalRun p run rest) (hh : rest'.head? = rest.head?) :
    MaximalRun p run rest' :=
  ⟨h.1, by rw [hh]; exact h.2⟩

end MaximalRun

/-! ## Reading chunk by chunk -/

theorem ofChunk_number (i : Nat) {chunk : List Char} (h : Plain chunk) :
    ofChunk i chunk (some .number)
      = [⟨.number, String.ofList chunk, i, some ((Decimal.ofPlain chunk).nearest false)⟩] := by
  simp only [ofChunk, Option.toList_some, List.map_cons, List.map_nil, if_true,
    Numeral.read?_plain h]

theorem ofChunk_of_ne_number (i : Nat) (chunk : List Char) {kind : TokenKind} (h : kind ≠ .number) :
    ofChunk i chunk (some kind) = [⟨kind, String.ofList chunk, i, none⟩] := by
  simp only [ofChunk, Option.toList_some, List.map_cons, List.map_nil, if_neg h]

theorem scanFrom_chunk {kind? : Option TokenKind} {chunk cs : List Char} (i : Nat)
    (h : Chunk kind? chunk cs) :
    scanFrom i (chunk ++ cs)
      = (scanFrom (i + chunk.length) cs).map (ofChunk i chunk kind? ++ ·) := by
  cases h with
  | @separator c _ hc =>
    obtain ⟨hd, ha, hs⟩ := not_symbol_of_separator hc
    rw [List.singleton_append, scanFrom]
    simp only [hd, ha, hs, isSpace_eq_true_iff.mpr hc]
    rcases scanFrom (i + 1) cs with e | ts <;> rfl
  | @symbol c kind _ hc =>
    obtain ⟨hd, ha⟩ := not_alphanumeric_of_symbol hc
    have hs := ofSymbol?_eq_some_iff.mpr hc
    rw [ofChunk_of_ne_number i [c] (TokenKind.ofSymbol?_ne_number hs), List.singleton_append,
      scanFrom]
    simp only [hd, ha, hs, String.singleton_eq_ofList]
    rcases scanFrom (i + 1) cs with e | ts <;> rfl
  | @name c run _ hc hrun =>
    rw [List.cons_append, scanFrom]
    simp only [not_isDigit_of_isAlpha hc, hc, hrun.takeWhile_eq, hrun.dropWhile_eq]
    rcases scanFrom (i + (c :: run).length) cs with e | ts <;> rfl
  | @number c run _ hc hrun hp =>
    rw [ofChunk_number i (.of_run hc hrun.1 hp), List.cons_append, scanFrom]
    simp only [hc, hrun.takeWhile_eq, hrun.dropWhile_eq, if_neg (Nat.not_lt.mpr hp)]
    rcases scanFrom (i + (c :: run).length) cs with e | ts <;> rfl

theorem Misfit.scanFrom_eq {cs : List Char} {fault : ScanFault} (h : Misfit cs fault) (i : Nat) :
    scanFrom i cs = .error (fault, i) := by
  cases h with
  | @number c run rest hc hrun hp =>
    rw [List.cons_append, scanFrom]
    simp only [hc, hrun.takeWhile_eq, if_pos hp]
    rfl
  | @character c rest hd ha hk hs =>
    rw [scanFrom]
    simp only [hd, ha, ofSymbol?_eq_none_iff.mpr hk, mt isSpace_eq_true_iff.mp hs]
    rfl

theorem Splits.scanFrom_eq {i j : Nat} {cs rest : List Char} {ts : List Token}
    (h : Splits i cs ts j rest) : scanFrom i cs = (scanFrom j rest).map (ts ++ ·) := by
  induction h with
  | done i cs => rcases scanFrom i cs with e | us <;> rfl
  | @chunk i j kind? chunk cs rest ts hc _ ih =>
    rw [scanFrom_chunk i hc, ih]
    rcases scanFrom j rest with e | us
    · rfl
    · simp [Except.map]

theorem chunk_or_misfit (c : Char) (cs : List Char) :
    (∃ kind? chunk rest, c :: cs = chunk ++ rest ∧ chunk ≠ [] ∧ Chunk kind? chunk rest)
      ∨ ∃ fault, Misfit (c :: cs) fault := by
  by_cases hd : c.isDigit = true
  · have hrun := MaximalRun.of_span isNumberChar cs
    have hcs : c :: cs = c :: cs.takeWhile isNumberChar ++ cs.dropWhile isNumberChar := by simp
    by_cases hp : 1 < (c :: cs.takeWhile isNumberChar).count '.'
    · have hm := Misfit.number hd hrun hp
      rw [← hcs] at hm
      exact Or.inr ⟨_, hm⟩
    · exact Or.inl ⟨_, _, _, hcs, by simp, .number hd hrun (Nat.not_lt.mp hp)⟩
  by_cases ha : c.isAlpha = true
  · have hcs : c :: cs = c :: cs.takeWhile Char.isAlphanum ++ cs.dropWhile Char.isAlphanum := by
      simp
    exact Or.inl ⟨_, _, _, hcs, by simp, .name ha (.of_span _ cs)⟩
  by_cases hk : ∃ kind, (c, kind) ∈ symbols
  · obtain ⟨kind, hk⟩ := hk
    exact Or.inl ⟨_, [c], cs, rfl, by simp, .symbol hk⟩
  by_cases hs : c ∈ separators
  · exact Or.inl ⟨_, [c], cs, rfl, by simp, .separator hs⟩
  exact Or.inr ⟨_, .character (by simpa using hd) (by simpa using ha) (not_exists.mp hk) hs⟩

/-- Every text splits into chunks up to its end or up to a misfit. -/
theorem exists_splits (i : Nat) (cs : List Char) :
    ∃ ts j rest, Splits i cs ts j rest ∧ (rest = [] ∨ ∃ fault, Misfit rest fault) := by
  induction hn : cs.length using Nat.strongRecOn generalizing i cs with
  | ind n ih =>
    rcases cs with _ | ⟨c, cs⟩
    · exact ⟨[], i, [], .done i [], Or.inl rfl⟩
    rcases chunk_or_misfit c cs with ⟨kind?, chunk, rest, heq, hne, hc⟩ | hm
    · have hlt : rest.length < n := by
        have := List.length_pos_iff.mpr hne
        rw [← hn, heq, List.length_append]
        omega
      obtain ⟨ts, j, rest', hs, hr⟩ := ih _ hlt (i + chunk.length) rest rfl
      rw [heq]
      exact ⟨_, j, rest', .chunk hc hs, hr⟩
    · exact ⟨[], i, c :: cs, .done i _, Or.inr hm⟩

theorem Splits.length_eq {i j : Nat} {cs rest : List Char} {ts : List Token}
    (h : Splits i cs ts j rest) : i + cs.length = j + rest.length := by
  induction h with
  | done => rfl
  | chunk _ _ ih =>
    rw [List.length_append]
    omega

theorem Chunk.congr {kind? : Option TokenKind} {chunk cs cs' : List Char} (h : Chunk kind? chunk cs)
    (hh : cs'.head? = cs.head?) : Chunk kind? chunk cs' := by
  cases h with
  | separator hc => exact .separator hc
  | symbol hc => exact .symbol hc
  | name hc hrun => exact .name hc (hrun.congr hh)
  | number hc hrun hp => exact .number hc (hrun.congr hh) hp

/-- What is left after some chunks may be replaced by anything that starts in the same way. -/
theorem Splits.follow {i j : Nat} {cs rest rest' : List Char} {ts : List Token}
    (h : Splits i cs ts j rest) (hh : rest'.head? = rest.head?) :
    ∃ front, cs = front ++ rest ∧ Splits i (front ++ rest') ts j rest' := by
  induction h with
  | done i cs => exact ⟨[], rfl, .done i rest'⟩
  | @chunk i j kind? chunk cs rest ts hc _ ih =>
    obtain ⟨front, rfl, hs⟩ := ih hh
    refine ⟨chunk ++ front, by simp, ?_⟩
    rw [List.append_assoc]
    refine .chunk (hc.congr ?_) hs
    simp [List.head?_append, hh]

/-- A number with two points stays one if what it starts with up to the second point does. -/
theorem Misfit.number_of_take {rest rest' : List Char} {lexeme : String} {n : Nat}
    (h : Misfit rest (.invalidNumber lexeme)) (hp : 1 < (rest.take n).count '.')
    (ht : rest'.take n = rest.take n) : ∃ lexeme', Misfit rest' (.invalidNumber lexeme') := by
  cases h with
  | @number c run after hc hrun hcount =>
    obtain ⟨m, rfl⟩ : ∃ m, n = m + 1 := by
      refine ⟨n - 1, ?_⟩
      rcases n with _ | n
      · simp at hp
      · rfl
    obtain ⟨rest', rfl⟩ : ∃ cs, rest' = c :: cs := by
      rcases rest' with _ | ⟨d, cs⟩
      · simp at ht
      · simp only [List.cons_append, List.take_succ_cons, List.cons.injEq] at ht
        exact ⟨cs, by rw [ht.1]⟩
    have hn : isNumberChar c = true := by simp [isNumberChar, hc]
    have hrun' : ((c :: run) ++ after).takeWhile isNumberChar = c :: run := by
      rw [List.cons_append, List.takeWhile_cons_of_pos hn, hrun.takeWhile_eq]
    -- the two runs agree as far as the texts do
    have hsame : (c :: rest'.takeWhile isNumberChar).take (m + 1) = (c :: run).take (m + 1) := by
      rw [← List.takeWhile_cons_of_pos hn, List.take_takeWhile, ht, ← List.take_takeWhile, hrun']
    have hpoints : 1 < ((c :: run).take (m + 1)).count '.' := by
      rcases Nat.le_total (m + 1) (c :: run).length with hle | hle
      · rwa [List.take_append_of_le_length hle] at hp
      · rwa [List.take_of_length_le hle]
    have hm := Misfit.number hc (.of_span isNumberChar rest') (Nat.lt_of_lt_of_le hpoints
      (hsame ▸ (List.take_sublist _ _).count_le '.'))
    rw [List.cons_append, List.takeWhile_append_dropWhile] at hm
    exact ⟨_, hm⟩

theorem scanFrom_eq_ok_iff {i : Nat} {cs : List Char} {ts : List Token} :
    scanFrom i cs = .ok ts ↔ ∃ j, Splits i cs ts j [] := by
  constructor
  · intro h
    obtain ⟨us, j, rest, hs, rfl | ⟨fault, hm⟩⟩ := exists_splits i cs
    · rw [hs.scanFrom_eq, scanFrom] at h
      simp only [Except.map, List.append_nil, Except.ok.injEq] at h
      exact ⟨j, h ▸ hs⟩
    · rw [hs.scanFrom_eq, hm.scanFrom_eq] at h
      cases h
  · rintro ⟨j, hs⟩
    rw [hs.scanFrom_eq, scanFrom]
    simp [Except.map]

theorem scanFrom_eq_error_iff {i j : Nat} {cs : List Char} {fault : ScanFault} :
    scanFrom i cs = .error (fault, j) ↔ ∃ ts rest, Splits i cs ts j rest ∧ Misfit rest fault := by
  constructor
  · intro h
    obtain ⟨us, k, rest, hs, rfl | ⟨fault', hm⟩⟩ := exists_splits i cs
    · rw [hs.scanFrom_eq, scanFrom] at h
      cases h
    · rw [hs.scanFrom_eq, hm.scanFrom_eq] at h
      cases h
      exact ⟨us, rest, hs, hm⟩
  · rintro ⟨ts, rest, hs, hm⟩
    rw [hs.scanFrom_eq, hm.scanFrom_eq]
    rfl

theorem scan_eq_ok_iff {line : String} {tokens : List Token} :
    scan line = .ok tokens ↔ Splits 0 line.toList tokens line.length [] := by
  have hscan : scan line = .ok tokens ↔ scanFrom 0 line.toList = .ok tokens := by
    unfold scan
    rcases scanFrom 0 line.toList with ⟨fault, j⟩ | ts <;> simp
  rw [hscan, scanFrom_eq_ok_iff]
  constructor
  · rintro ⟨j, hs⟩
    have hj := hs.length_eq
    simp only [Nat.zero_add, List.length_nil, Nat.add_zero, String.length_toList] at hj
    rwa [hj]
  · intro hs
    exact ⟨_, hs⟩

theorem scan_eq_error_iff {line : String} {e : ScanError} :
    scan line = .error e ↔ e.line = line
      ∧ ∃ tokens rest, Splits 0 line.toList tokens e.index rest ∧ Misfit rest e.fault := by
  rw [← scanFrom_eq_error_iff]
  unfold scan
  rcases scanFrom 0 line.toList with ⟨fault, j⟩ | ts
  · obtain ⟨fault', line', index⟩ := e
    simp only [Except.error.injEq, ScanError.mk.injEq, Prod.mk.injEq]
    constructor
    · rintro ⟨rfl, rfl, rfl⟩
      exact ⟨rfl, rfl, rfl⟩
    · rintro ⟨rfl, rfl, rfl⟩
      exact ⟨rfl, rfl, rfl⟩
  · simp

/-- Texts that start alike split alike as far as they do. -/
theorem exists_append_of_take {front rest cs : List Char} {n : Nat} (hn : front.length < n)
    (h : cs.take n = (front ++ rest).take n) :
    ∃ rest', cs = front ++ rest' ∧ rest'.take (n - front.length) = rest.take (n - front.length)
      ∧ rest'.head? = rest.head? := by
  have hfront : cs.take front.length = front := by
    have hle : front.length ≤ n := Nat.le_of_lt hn
    rw [← Nat.min_eq_left hle, ← List.take_take, h, List.take_take, Nat.min_eq_left hle,
      List.take_left]
  have hrest : (cs.drop front.length).take (n - front.length) = rest.take (n - front.length) := by
    rw [← List.drop_take, h, List.drop_take, List.drop_left]
  refine ⟨cs.drop front.length, ?_, hrest, ?_⟩
  · calc cs = cs.take front.length ++ cs.drop front.length := (List.take_append_drop _ _).symm
      _ = front ++ cs.drop front.length := by rw [hfront]
  · have hhead := congrArg List.head? hrest
    rwa [List.head?_take, List.head?_take, if_neg (by omega), if_neg (by omega)] at hhead

theorem scan_error_of_take {line other : String} {e : ScanError} {n : Nat}
    (h : scan line = .error e) (hn : e.ShownBy n) (ht : other.toList.take n = line.toList.take n) :
    ∃ e', scan other = .error e' ∧ e'.index = e.index ∧ e'.fault.kind = e.fault.kind
      ∧ ∀ c, e.fault = .unexpectedCharacter c → e'.fault = e.fault := by
  obtain ⟨hline, ts, rest, hs, hm⟩ := scan_eq_error_iff.mp h
  obtain ⟨front, hfront, -⟩ := hs.follow rfl
  have hindex : front.length = e.index := by
    have hlen := hs.length_eq
    rw [hfront, List.length_append] at hlen
    omega
  -- whatever `other` goes on with after the chunks, it makes the same fault there
  have hother : ∀ {rest' : List Char} {fault' : ScanFault}, other.toList = front ++ rest' →
      rest'.head? = rest.head? → Misfit rest' fault' →
      scan other = .error ⟨fault', other, e.index⟩ := by
    intro rest' fault' heq hhead hm'
    obtain ⟨front', hfront', hs'⟩ := hs.follow hhead
    rw [List.append_cancel_right (hfront'.symm.trans hfront), ← heq] at hs'
    exact scan_eq_error_iff.mpr ⟨rfl, ts, rest', hs', hm'⟩
  rw [hfront] at ht
  unfold ScanError.ShownBy at hn
  rcases hf : e.fault with lexeme | c <;> rw [hf] at hm hn
  · simp only [hline, hfront, ← hindex, List.drop_take, List.drop_left] at hn
    have hlt : front.length < n := by
      rcases Nat.lt_or_ge front.length n with hlt | hge
      · exact hlt
      · simp [Nat.sub_eq_zero_of_le hge] at hn
    obtain ⟨rest', heq, htake, hhead⟩ := exists_append_of_take hlt ht
    obtain ⟨lexeme', hm'⟩ := hm.number_of_take hn htake
    exact ⟨_, hother heq hhead hm', rfl, rfl, fun c hc => by cases hc⟩
  · obtain ⟨rest', heq, -, hhead⟩ := exists_append_of_take (hindex ▸ hn) ht
    cases hm with
    | @character c after hd ha hk hsep =>
      obtain ⟨after', rfl⟩ := List.head?_eq_some_iff.mp hhead
      exact ⟨_, hother heq hhead (.character hd ha hk hsep), rfl, rfl, fun _ _ => rfl⟩

/-- The tokens of a line are those of its chunks, and a line that does not split into chunks fails
where the first chunk is missing, for a reason that is there in the text up to the fault. -/
theorem scan_iff_splits (line : String) :
    (∀ tokens, scan line = .ok tokens ↔ Splits 0 line.toList tokens line.length [])
    ∧ (∀ tokens, scan line = .ok tokens → ∀ t ∈ tokens, t.kind = .number → t.value ≠ none)
    ∧ (∀ e, scan line = .error e ↔ e.line = line
      ∧ ∃ tokens rest, Splits 0 line.toList tokens e.index rest ∧ Misfit rest e.fault)
    ∧ ∀ e n other, scan line = .error e → e.ShownBy n →
      other.toList.take n = line.toList.take n →
      ∃ e', scan other = .error e' ∧ e'.index = e.index ∧ e'.fault.kind = e.fault.kind
        ∧ ∀ c, e.fault = .unexpectedCharacter c → e'.fault = e.fault := by
  refine ⟨fun tokens => scan_eq_ok_iff, fun tokens h t ht hk => ?_, fun e => scan_eq_error_iff,
    fun e n other => scan_error_of_take⟩
  obtain ⟨v, hv, -⟩ := (scan_faithful h t ht).read? hk
  simp [hv]

/-- The second point of `2.5.` in `a1 2.5.x` is a fault whatever comes after it. -/
theorem scan_iff_splits_two_points :
    let e : ScanError := ⟨.invalidNumber "2.5.", "a1 2.5.x", 3⟩
    scan "a1 2.5.x" = .error e ∧ e.ShownBy 7
      ∧ ∃ e', scan "a1 2.5.71" = .error e' ∧ e'.index = 3 ∧ e'.fault.kind = "InvalidNumber" := by
  intro e
  have hletters : MaximalRun Char.isAlphanum ['1'] [' ', '2', '.', '5', '.', 'x'] :=
    ⟨List.all_eq_true.mp rfl, by rintro c ⟨⟩; rfl⟩
  have hname : Chunk (some .identifier) ['a', '1'] [' ', '2', '.', '5', '.', 'x'] :=
    .name rfl hletters
  have hspace : Chunk none [' '] ['2', '.', '5', '.', 'x'] := .separator (by decide)
  have hrun : MaximalRun isNumberChar ['.', '5', '.'] ['x'] :=
    ⟨List.all_eq_true.mp rfl, by rintro c ⟨⟩; rfl⟩
  have hnumber : Misfit ['2', '.', '5', '.', 'x'] (.invalidNumber "2.5.") :=
    .number rfl hrun (by decide)
  have h : scan "a1 2.5.x" = .error e :=
    scan_eq_error_iff.mpr ⟨rfl, _, _, .chunk hname (.chunk hspace (.done _ _)), hnumber⟩
  have hn : e.ShownBy 7 := by
    change 1 < (("a1 2.5.x".toList.take 7).drop 3).count '.'
    decide
  obtain ⟨e', he, hi, hk, -⟩ := (scan_iff_splits "a1 2.5.x").2.2.2 e 7 "a1 2.5.71" h hn (by decide)
  exact ⟨h, hn, e', he, hi, hk⟩

end Token

end Reckoner
