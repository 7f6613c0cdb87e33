import Reckoner.Proofs.CanonicalText
import Reckoner.Proofs.Guards
import Reckoner.Proofs.ParserGrammar

/-!
# The text of a tree

A tree is written as a single word, or as a bracket that holds a word and the operands
(`toList_text_of_bracket`). A word ends where a space or a bracket stands, so with the words and the
operands the whole text can be taken apart again (`bracketChars_inj`), whatever follows it
(`Expr.Determined`). Operators, functions and the equal sign of an assignment are different words.

Of the single words, names start with a letter and finite numbers do not, and different numbers have
different texts (`Double.exactText_inj`). Only an infinite number looks like a name: texts are
equal exactly if the trees are after every infinite number is replaced by the name `inf`.
-/

namespace Reckoner

open Token (MaximalRun)

def isWordChar (c : Char) : Bool := c != ' ' && c != '(' && c != ')'

def IsWord (cs : List Char) : Prop := cs ≠ [] ∧ ∀ c ∈ cs, isWordChar c = true

/-- Nothing, or a space or a bracket first. -/
def EndsWord (rest : List Char) : Prop := ∀ c ∈ rest.head?, isWordChar c = false

theorem IsWord.maximalRun {cs rest : List Char} (h : IsWord cs) (hr : EndsWord rest) :
    MaximalRun isWordChar cs rest :=
  ⟨h.2, hr⟩

theorem IsWord.append_inj {cs ds r r' : List Char} (hc : IsWord cs) (hd : IsWord ds)
    (hr : EndsWord r) (hr' : EndsWord r') (h : cs ++ r = ds ++ r') : cs = ds ∧ r = r' := by
  have hrun := hc.maximalRun hr
  have hrun' := hd.maximalRun hr'
  have ht := hrun.takeWhile_eq
  have hdrop := hrun.dropWhile_eq
  rw [h, hrun'.takeWhile_eq] at ht
  rw [h, hrun'.dropWhile_eq] at hdrop
  exact ⟨ht.symm, hdrop.symm⟩

theorem isWordChar_of_isAlphanum {c : Char} (h : c.isAlphanum = true) : isWordChar c = true := by
  simp only [isWordChar, Bool.and_eq_true, bne_iff_ne, ne_eq]
  refine ⟨⟨?_, ?_⟩, ?_⟩ <;> rintro rfl <;> simp [Char.isAlphanum] at h

theorem IsName.isWord {n : String} (h : IsName n) : IsWord n.toList := by
  obtain ⟨c, run, rfl, hc, hrun⟩ := h
  rw [String.toList_ofList]
  refine ⟨by simp, fun d hd => isWordChar_of_isAlphanum ?_⟩
  rcases List.mem_cons.mp hd with rfl | hd
  · simp [Char.isAlphanum, hc]
  · exact hrun d hd

theorem IsName.isAlpha_head {n : String} (h : IsName n) :
    n.toList.head?.any Char.isAlpha = true := by
  obtain ⟨c, run, rfl, hc, -⟩ := h
  simpa using hc

theorem not_isName_of_head {n : String} (h : n.toList.head?.any Char.isAlpha = false) :
    ¬ IsName n := by
  intro hn
  rw [hn.isAlpha_head] at h
  cases h

namespace UnaryOp

theorem isWord_symbol (op : UnaryOp) : IsWord op.symbol.toList := by
  cases op <;> simp [symbol, IsWord, isWordChar]

theorem not_isName_symbol (op : UnaryOp) : ¬ IsName op.symbol := by
  cases op <;> exact not_isName_of_head rfl

theorem symbol_inj {op op' : UnaryOp} (h : op.symbol = op'.symbol) : op = op' := by
  cases op <;> cases op' <;> simp_all [symbol]

end UnaryOp

namespace BinaryOp

theorem isWord_symbol (op : BinaryOp) : IsWord op.symbol.toList := by
  cases op <;> simp [symbol, IsWord, isWordChar]

theorem symbol_inj {op op' : BinaryOp} (h : op.symbol = op'.symbol) : op = op' := by
  cases op <;> cases op' <;> simp_all [symbol]

end BinaryOp

namespace Double

theorem atLeast_zero_of_isNegative {v : Double} (hv : v ≠ .nan) (hs : v.isNegative = false) :
    v.atLeast .zero = true := by
  rcases v with _ | s | ⟨s, m⟩
  · exact absurd rfl hv
  · simpa [atLeast_zero, isBelowZero, isNegative] using hs
  · obtain rfl : s = false := hs
    simp [atLeast_zero, isBelowZero]

theorem isWordChar_of_plain {cs : List Char} (h : Plain cs) : ∀ c ∈ cs, isWordChar c = true :=
  h.forall_mem (by decide)

/-- A finite number is written as a sign, if it has one, and a word that starts with a digit. -/
theorem exactText_finite (s : Bool) (m : Magnitude) :
    ∃ c cs, (finite s m).exactText = String.ofList (signChars s ++ c :: cs)
      ∧ c.isDigit = true ∧ ∀ d ∈ c :: cs, isWordChar d = true := by
  generalize hd : m.shortest = d
  rcases NumberStyle.exact_writeMagnitude m hd with hwrite | hwrite
  · obtain ⟨c, cs, hcs, hc⟩ := d.plain_exactChars.exists_cons
    rw [hcs] at hwrite
    refine ⟨c, cs, write_finite s m .exact hwrite, hc, ?_⟩
    rw [← hcs]
    exact isWordChar_of_plain d.plain_exactChars
  · obtain ⟨c, cs, hcs, hc⟩ := d.plain_significand.exists_cons
    rw [hcs, List.cons_append] at hwrite
    refine ⟨c, _, write_finite s m .exact hwrite, hc, ?_⟩
    have hdigits : Digits (NumberStyle.sizeChars (d.point - 1)) :=
      (Digits.zeros _).append fun x hx => Nat.isDigit_of_mem_toDigits (by omega) (by omega) hx
    have hsign : isWordChar (if d.point - 1 < 0 then '-' else '+') = true := by
      split <;> rfl
    rw [← List.cons_append, ← hcs]
    simp only [List.mem_append, List.mem_cons]
    rintro x (hx | rfl | rfl | hx)
    · exact isWordChar_of_plain d.plain_significand x hx
    · rfl
    · exact hsign
    · exact isWordChar_of_isAlphanum (by simp [Char.isAlphanum, hdigits x hx])

theorem isWord_exactText (s : Bool) (m : Magnitude) : IsWord (finite s m).exactText.toList := by
  obtain ⟨c, cs, htext, -, hword⟩ := exactText_finite s m
  rw [htext, String.toList_ofList]
  refine ⟨by simp, fun d hd => ?_⟩
  rcases List.mem_append.mp hd with hd | hd
  · cases s <;> simp_all [signChars, isWordChar]
  · exact hword d hd

theorem not_isName_exactText (s : Bool) (m : Magnitude) : ¬ IsName (finite s m).exactText := by
  obtain ⟨c, cs, htext, hc, -⟩ := exactText_finite s m
  have hletter : c.isAlpha = false := by
    by_contra hletter
    rw [Token.not_isDigit_of_isAlpha (by simpa using hletter)] at hc
    cases hc
  refine not_isName_of_head ?_
  rw [htext, String.toList_ofList]
  cases s <;> simp [signChars, hletter]

/-- The sign and the magnitude can both be told from the text. -/
theorem exactText_inj {s t : Bool} {m n : Magnitude}
    (h : (finite s m).exactText = (finite t n).exactText) : s = t ∧ m = n := by
  have hst : s = t := by
    obtain ⟨c, cs, htext, hc, -⟩ := exactText_finite s m
    obtain ⟨d, ds, htext', hd, -⟩ := exactText_finite t n
    have hchars := congrArg String.toList h
    rw [htext, htext', String.toList_ofList, String.toList_ofList] at hchars
    have hsplit := congrArg Numeral.splitSign hchars
    rw [Numeral.splitSign_signChars s hc, Numeral.splitSign_signChars t hd] at hsplit
    exact congrArg Prod.fst hsplit
  subst hst
  have hdenoted := congrArg Numeral.denoted h
  rw [denoted_exactText, denoted_exactText] at hdenoted
  have hvalue : m.shortest.value = n.shortest.value := by
    cases s <;> simpa using hdenoted
  have hread := Decimal.nearest_eq_of_value_eq hvalue false
  rw [m.nearest_shortest, n.nearest_shortest] at hread
  simpa using hread

end Double

namespace Expr

/-- The names are names, and the numbers are not below zero. -/
def FromLine : Expr → Prop
  | number v => v.atLeast .zero = true
  | name n => IsName n
  | unary _ e => e.FromLine
  | binary _ l r => l.FromLine ∧ r.FromLine
  | call f e => IsName f ∧ e.FromLine
  | hole => False

/-- Every infinite number becomes the name `inf`. -/
def nameInfinite : Expr → Expr
  | number v => if v = .infinite false then name "inf" else number v
  | name n => name n
  | unary op e => unary op e.nameInfinite
  | binary op l r => binary op l.nameInfinite r.nameInfinite
  | call f e => call f e.nameInfinite
  | hole => hole

theorem text_nameInfinite : ∀ e : Expr, e.nameInfinite.text = e.text
  | number v => by
    by_cases hv : v = .infinite false
    · subst hv
      rfl
    · simp [nameInfinite, hv]
  | name _ | hole => rfl
  | unary _ e => by simp [nameInfinite, text, text_nameInfinite e]
  | binary _ l r => by simp [nameInfinite, text, text_nameInfinite l, text_nameInfinite r]
  | call _ e => by simp [nameInfinite, text, text_nameInfinite e]

/-- The first word and the operands of a tree that is written with a bracket. -/
def bracket? : Expr → Option (String × List Expr)
  | unary op e => some (op.symbol, [e])
  | binary op l r => some (op.symbol, [l, r])
  | call f e => some (f, [e])
  | _ => none

def operandChars (es : List Expr) : List Char := es.flatMap fun e => ' ' :: e.text.toList

def bracketChars (head : String) (es : List Expr) : List Char :=
  '(' :: (head.toList ++ (operandChars es ++ [')']))

/-- The text, together with whatever stands after it, is that of no other tree. -/
def Determined (e : Expr) : Prop :=
  ∀ (f : Expr) (r r' : List Char), f.FromLine → EndsWord r → EndsWord r' →
    e.text.toList ++ r = f.text.toList ++ r' → e.nameInfinite = f.nameInfinite ∧ r = r'

theorem bracket?_cases {e : Expr} {head : String} {es : List Expr}
    (h : e.bracket? = some (head, es)) :
    (∃ op x, e = unary op x ∧ head = op.symbol ∧ es = [x])
      ∨ (∃ op l r, e = binary op l r ∧ head = op.symbol ∧ es = [l, r])
      ∨ ∃ f x, e = call f x ∧ head = f ∧ es = [x] := by
  cases e <;> simp_all [bracket?, eq_comm]

section Brackets

variable {e f : Expr} {es fs : List Expr} {head head' : String} {r r' : List Char}

theorem toList_text_of_bracket (h : e.bracket? = some (head, es)) :
    e.text.toList = bracketChars head es := by
  obtain ⟨op, x, rfl, rfl, rfl⟩ | ⟨op, x, y, rfl, rfl, rfl⟩ | ⟨g, x, rfl, rfl, rfl⟩ :=
    bracket?_cases h <;> simp [text, bracketChars, operandChars]

/-- The first word of a bracket is an operator or a name, and never the sign of an assignment. -/
theorem head_of_bracket (he : e.FromLine) (h : e.bracket? = some (head, es)) :
    IsWord head.toList ∧ head ≠ "=" ∧ ∀ x ∈ es, x.FromLine := by
  obtain ⟨op, x, rfl, rfl, rfl⟩ | ⟨op, x, y, rfl, rfl, rfl⟩ | ⟨g, x, rfl, rfl, rfl⟩ :=
    bracket?_cases h
  · refine ⟨op.isWord_symbol, ?_, by simpa [FromLine] using he⟩
    cases op <;> simp [UnaryOp.symbol]
  · refine ⟨op.isWord_symbol, ?_, by simpa [FromLine] using he⟩
    cases op <;> simp [BinaryOp.symbol]
  · refine ⟨he.1.isWord, ?_, by simpa using he.2⟩
    rintro rfl
    exact not_isName_of_head rfl he.1

theorem endsWord_operandChars (es : List Expr) (r : List Char) :
    EndsWord (operandChars es ++ ')' :: r) := by
  rcases es with _ | ⟨e, es⟩ <;> simp [EndsWord, operandChars, isWordChar]

theorem operandChars_inj (he : ∀ e ∈ es, e.Determined) (hf : ∀ f ∈ fs, f.FromLine)
    (h : operandChars es ++ ')' :: r = operandChars fs ++ ')' :: r') :
    es.map nameInfinite = fs.map nameInfinite ∧ r = r' := by
  induction es generalizing fs with
  | nil =>
    rcases fs with _ | ⟨f, fs⟩
    · simpa [operandChars] using h
    · simp [operandChars] at h
  | cons e es ih =>
    rcases fs with _ | ⟨f, fs⟩
    · simp [operandChars] at h
    · have hcons (x : Expr) (xs : List Expr) (r : List Char) :
          operandChars (x :: xs) ++ ')' :: r
            = ' ' :: (x.text.toList ++ (operandChars xs ++ ')' :: r)) := by
        simp [operandChars]
      rw [hcons, hcons, List.cons.injEq] at h
      obtain ⟨hfirst, hrest⟩ := he e (by simp) f _ _ (hf f (by simp))
        (endsWord_operandChars es r) (endsWord_operandChars fs r') h.2
      obtain ⟨hothers, hr⟩ := ih (fun x hx => he x (by simp [hx])) (fun x hx => hf x (by simp [hx]))
        hrest
      exact ⟨by rw [List.map_cons, List.map_cons, hfirst, hothers], hr⟩

theorem bracketChars_inj (hh : IsWord head.toList) (hh' : IsWord head'.toList)
    (he : ∀ e ∈ es, e.Determined) (hf : ∀ f ∈ fs, f.FromLine)
    (h : bracketChars head es ++ r = bracketChars head' fs ++ r') :
    head = head' ∧ es.map nameInfinite = fs.map nameInfinite ∧ r = r' := by
  simp only [bracketChars, List.cons_append, List.append_assoc, List.cons.injEq, true_and,
    List.nil_append] at h
  obtain ⟨hhead, hrest⟩ := hh.append_inj hh' (endsWord_operandChars es r)
    (endsWord_operandChars fs r') h
  exact ⟨String.toList_inj.mp hhead, operandChars_inj he hf hrest⟩

/-- With the same first word and the same operands, two brackets are those of one tree. -/
theorem eq_of_bracket (he : e.FromLine) (hf : f.FromLine) (h : e.bracket? = some (head, es))
    (h' : f.bracket? = some (head, fs)) (hes : es.map nameInfinite = fs.map nameInfinite) :
    e.nameInfinite = f.nameInfinite := by
  -- an operator is no name, and how many operands it has tells its two kinds apart
  obtain ⟨op, x, rfl, rfl, rfl⟩ | ⟨op, x, y, rfl, rfl, rfl⟩ | ⟨g, x, rfl, rfl, rfl⟩ :=
      bracket?_cases h <;>
    obtain ⟨op', x', rfl, hop, rfl⟩ | ⟨op', x', y', rfl, hop, rfl⟩ | ⟨g', x', rfl, hop, rfl⟩ :=
      bracket?_cases h' <;>
    simp only [List.map_cons, List.map_nil, List.cons.injEq, and_true, reduceCtorEq,
      and_false] at hes
  · simp [nameInfinite, UnaryOp.symbol_inj hop, hes]
  · exact absurd (hop ▸ hf.1) op.not_isName_symbol
  · simp [nameInfinite, BinaryOp.symbol_inj hop, hes]
  · exact absurd (hop ▸ he.1) op'.not_isName_symbol
  · simp [nameInfinite, hop, hes]

theorem bracketChars_ne_word {cs : List Char} (h : IsWord cs) :
    bracketChars head es ++ r ≠ cs ++ r' := by
  obtain ⟨c, cs, rfl⟩ := List.exists_cons_of_ne_nil h.1
  have hc := h.2 c (by simp)
  intro heq
  simp only [bracketChars, List.cons_append, List.cons.injEq] at heq
  rw [← heq.1] at hc
  cases hc

theorem word_cases (he : e.FromLine) (h : e.bracket? = none) :
    (∃ n, IsName n ∧ e.nameInfinite = name n)
      ∨ ∃ s m, e.nameInfinite = number (.finite s m) := by
  cases e with
  | number v =>
    rcases v with _ | s | ⟨s, m⟩
    · simp [FromLine, Double.atLeast] at he
    · obtain rfl : s = false := by
        simpa [FromLine, Double.atLeast_zero, Double.isBelowZero] using he
      exact Or.inl ⟨"inf", ⟨'i', ['n', 'f'], rfl, rfl, by simp [Char.isAlphanum]⟩, rfl⟩
    · exact Or.inr ⟨s, m, by simp [nameInfinite]⟩
  | name n => exact Or.inl ⟨n, he, rfl⟩
  | hole => exact he.elim
  | _ => simp [bracket?] at h

theorem isWord_text (he : e.FromLine) (h : e.bracket? = none) : IsWord e.text.toList := by
  rw [← text_nameInfinite]
  rcases word_cases he h with ⟨n, hn, hword⟩ | ⟨s, m, hword⟩ <;> rw [hword]
  · exact hn.isWord
  · exact Double.isWord_exactText s m

theorem eq_of_word (he : e.FromLine) (hf : f.FromLine) (h : e.bracket? = none)
    (h' : f.bracket? = none) (htext : e.text = f.text) : e.nameInfinite = f.nameInfinite := by
  rw [← text_nameInfinite, ← text_nameInfinite f] at htext
  rcases word_cases he h with ⟨n, hn, hword⟩ | ⟨s, m, hword⟩ <;>
    rcases word_cases hf h' with ⟨n', hn', hword'⟩ | ⟨s', m', hword'⟩ <;>
    rw [hword, hword'] at htext ⊢ <;> simp only [text] at htext
  · rw [htext]
  · exact absurd (htext ▸ hn) (Double.not_isName_exactText s' m')
  · exact absurd (htext ▸ hn') (Double.not_isName_exactText s m)
  · obtain ⟨rfl, rfl⟩ := Double.exactText_inj htext
    rfl

theorem determined_of_bracket (he : e.FromLine) (h : e.bracket? = some (head, es))
    (hes : ∀ x ∈ es, x.Determined) : e.Determined := by
  intro f r r' hf hr hr' heq
  rw [toList_text_of_bracket h] at heq
  rcases hb : f.bracket? with _ | ⟨head', fs⟩
  · exact absurd heq (bracketChars_ne_word (isWord_text hf hb))
  · rw [toList_text_of_bracket hb] at heq
    obtain ⟨hhead, -, hfs⟩ := head_of_bracket hf hb
    obtain ⟨rfl, hoperands, hrest⟩ :=
      bracketChars_inj (head_of_bracket he h).1 hhead hes hfs heq
    exact ⟨eq_of_bracket he hf h hb hoperands, hrest⟩

theorem determined_of_word (he : e.FromLine) (h : e.bracket? = none) : e.Determined := by
  intro f r r' hf hr hr' heq
  have hword := isWord_text he h
  rcases hb : f.bracket? with _ | ⟨head', fs⟩
  · obtain ⟨htext, hrest⟩ := hword.append_inj (isWord_text hf hb) hr hr' heq
    exact ⟨eq_of_word he hf h hb (String.toList_inj.mp htext), hrest⟩
  · rw [toList_text_of_bracket hb] at heq
    exact absurd heq.symm (bracketChars_ne_word hword)

end Brackets

theorem determined : ∀ {e : Expr}, e.FromLine → e.Determined
  | number _, h => determined_of_word h rfl
  | name _, h => determined_of_word h rfl
  | unary _ e, h => determined_of_bracket h rfl (by simpa using determined (e := e) h)
  | binary _ _ _, h =>
    determined_of_bracket h rfl (by simpa using ⟨determined h.1, determined h.2⟩)
  | call _ _, h => determined_of_bracket h rfl (by simpa using determined h.2)
  | hole, h => h.elim

end Expr

/-! ## What lines give -/

namespace Token

/-- A name is one, and a number carries a value that is not below zero. -/
def FromLine (t : Token) : Prop :=
  (t.kind = .identifier → IsName t.lexeme)
    ∧ (t.kind = .number → ∃ v, t.value = some v ∧ v.atLeast .zero = true)

theorem Chunk.isName {chunk cs : List Char} (h : Chunk (some .identifier) chunk cs) :
    IsName (String.ofList chunk) := by
  cases h with
  | symbol hc => simp [symbols] at hc
  | @name c run _ hc hrun => exact ⟨c, run, rfl, hc, hrun.1⟩

theorem Splits.isName {i j : Nat} {cs rest : List Char} {ts : List Token}
    (h : Splits i cs ts j rest) : ∀ t ∈ ts, t.kind = .identifier → IsName t.lexeme := by
  induction h with
  | done => simp
  | @chunk i j kind? chunk cs rest ts hc _ ih =>
    intro t ht hk
    rcases List.mem_append.mp ht with ht | ht
    · rcases kind? with _ | kind
      · simp [ofChunk] at ht
      · simp only [ofChunk, Option.toList_some, List.map_cons, List.map_nil,
          List.mem_singleton] at ht
        subst ht
        obtain rfl : kind = .identifier := hk
        exact hc.isName
    · exact ih t ht hk

theorem scan_fromLine {line : String} {tokens : List Token} (h : scan line = .ok tokens) :
    ∀ t ∈ tokens, t.FromLine := by
  intro t ht
  refine ⟨(scan_eq_ok_iff.mp h).isName t ht, fun hk => ?_⟩
  obtain ⟨cs, -, -, hvalue⟩ := scan_faithful h t ht hk
  refine ⟨_, hvalue, Double.atLeast_zero_of_isNegative ?_ ?_⟩
  · exact Double.nearest_ne_nan _ _ _
  · exact Double.isNegative_nearest _ _ _

end Token

theorem Grammar.Derives.fromLine {c : Category} {ts : List Token} {e : Expr}
    (h : Derives c ts e) (hts : ∀ t ∈ ts, t.FromLine) : e.FromLine := by
  induction h with
  | @number t v hk hv =>
    obtain ⟨w, hw, hzero⟩ := (hts t (by simp)).2 hk
    simp only [Parser.numberValue, hw, Except.ok.injEq] at hv
    rwa [hv] at hzero
  | @name t hk => exact (hts t (by simp)).1 hk
  | bracket _ _ _ ih => exact ih fun t ht => hts t (by simp [ht])
  | factorial _ _ ih => exact ih fun t ht => hts t (by simp [ht])
  | call _ _ _ _ ihf ih =>
    exact ⟨ihf fun t ht => hts t (by simp [ht]), ih fun t ht => hts t (by simp [ht])⟩
  | signed _ _ ih => exact ih fun t ht => hts t (by simp [ht])
  | power _ _ _ ihl ihr | product _ _ _ ihl ihr | sum _ _ _ ihl ihr =>
    exact ⟨ihl fun t ht => hts t (by simp [ht]), ihr fun t ht => hts t (by simp [ht])⟩
  | primary _ ih | suffixed _ ih | unsigned _ ih | factor _ ih | term _ ih => exact ih hts

namespace Statement

def FromLine : Statement → Prop
  | assign n e => IsName n ∧ e.FromLine
  | expression e => e.FromLine
  | hole => False

/-- Every infinite number becomes the name `inf`. -/
def nameInfinite : Statement → Statement
  | assign n e => assign n e.nameInfinite
  | expression e => expression e.nameInfinite
  | hole => hole

theorem fromLine_of_line {line : String} {tokens : List Token} {depth : Nat} {s : Statement}
    (hscan : Token.scan line = .ok tokens) (h : ofTokens depth tokens = .ok s) : s.FromLine := by
  have htokens := Token.scan_fromLine hscan
  rw [Parser.ofTokens_eq] at h
  rcases hs : Parser.statement depth tokens with stop | st <;> rw [hs] at h <;> cases h
  rcases Parser.reads_of_statement hs with ⟨hn, -, hd⟩ | hd
  · exact ⟨(htokens _ (by simp)).1 hn, hd.fromLine fun t ht => htokens t (by simp [ht])⟩
  · exact hd.fromLine htokens

theorem text_nameInfinite (s : Statement) : s.nameInfinite.text = s.text := by
  cases s <;> simp [nameInfinite, text, Expr.text_nameInfinite]

theorem toList_text_assign (n : String) (e : Expr) :
    (assign n e).text.toList = Expr.bracketChars "=" [.name n, e] := by
  simp [text, Expr.bracketChars, Expr.operandChars, Expr.text]

theorem isWord_equal : IsWord (String.toList "=") := by simp [IsWord, isWordChar]

theorem determined_operands {n : String} {e : Expr} (hn : IsName n) (he : e.FromLine) :
    ∀ x ∈ [.name n, e], Expr.Determined x := by
  simpa using ⟨Expr.determined (e := .name n) hn, Expr.determined he⟩

theorem assign_text_ne {n : String} {e f : Expr} (hn : IsName n) (he : e.FromLine)
    (hf : f.FromLine) : (assign n e).text ≠ (expression f).text := by
  intro h
  have hchars : Expr.bracketChars "=" [.name n, e] ++ [] = f.text.toList ++ [] := by
    rw [← toList_text_assign, h, text]
  rcases hb : f.bracket? with _ | ⟨head, fs⟩
  · exact Expr.bracketChars_ne_word (Expr.isWord_text hf hb) hchars
  · rw [Expr.toList_text_of_bracket hb] at hchars
    obtain ⟨hword, hne, hfs⟩ := Expr.head_of_bracket hf hb
    have hes := determined_operands hn he
    exact hne (Expr.bracketChars_inj isWord_equal hword hes hfs hchars).1.symm

theorem eq_of_text :
    ∀ {s t : Statement}, s.FromLine → t.FromLine → s.text = t.text →
      s.nameInfinite = t.nameInfinite
  | assign n e, assign n' f, hs, ht, h => by
    have hchars : Expr.bracketChars "=" [.name n, e] ++ []
        = Expr.bracketChars "=" [.name n', f] ++ [] := by
      rw [← toList_text_assign, ← toList_text_assign, h]
    have hfs : ∀ x ∈ [.name n', f], Expr.FromLine x := by simpa [FromLine, Expr.FromLine] using ht
    obtain ⟨-, hmap, -⟩ := Expr.bracketChars_inj isWord_equal isWord_equal
      (determined_operands hs.1 hs.2) hfs hchars
    simpa [Expr.nameInfinite, nameInfinite] using hmap
  | assign _ _, expression _, hs, ht, h => absurd h (assign_text_ne hs.1 hs.2 ht)
  | expression _, assign _ _, hs, ht, h => absurd h.symm (assign_text_ne ht.1 ht.2 hs)
  | expression e, expression f, hs, ht, h => by
    have hchars : e.text.toList ++ [] = f.text.toList ++ [] := by
      rw [show e.text = f.text from h]
    have hends : EndsWord [] := by simp [EndsWord]
    rw [nameInfinite, nameInfinite, (Expr.determined hs f [] [] ht hends hends hchars).1]
  | hole, _, hs, _, _ => hs.elim
  | _, hole, _, ht, _ => ht.elim

/-- The statements that lines stand for have names made of letters and digits, and no number below
zero. The texts of two such statements are equal exactly if the statements are once every infinite
number is taken for the name `inf`. -/
theorem text_identifies_tree :
    (∀ line tokens depth s, Token.scan line = .ok tokens → ofTokens depth tokens = .ok s →
      s.FromLine)
    ∧ ∀ s t : Statement, s.FromLine → t.FromLine →
      (s.text = t.text ↔ s.nameInfinite = t.nameInfinite) := by
  refine ⟨fun line tokens depth s => fromLine_of_line, fun s t hs ht => ⟨eq_of_text hs ht, ?_⟩⟩
  intro h
  rw [← text_nameInfinite s, h, text_nameInfinite]

/-- The name `inf` of a line looks like an infinite number, and a difference of two names does not
look like the negative of a call. -/
theorem text_identifies_tree_inf :
    let number := expression (.number (.infinite false))
    let name := expression (.name "inf")
    let difference := expression (.binary .sub (.name "a") (.name "b"))
    let negative := expression (.unary .minus (.call "a" (.name "b")))
    (∃ tokens, Token.scan "inf" = .ok tokens ∧ ofTokens 1000 tokens = .ok name)
      ∧ name.FromLine ∧ number.FromLine ∧ difference.FromLine ∧ negative.FromLine
      ∧ number ≠ name ∧ number.text = name.text ∧ difference.text ≠ negative.text := by
  intro number name difference negative
  have hname (c : Char) (hc : c.isAlpha = true) : IsName (String.ofList [c]) :=
    ⟨c, [], rfl, hc, by simp⟩
  have hinf : Token.Chunk (some .identifier) ['i', 'n', 'f'] [] :=
    .name rfl ⟨by simp [Char.isAlphanum], by simp⟩
  have hscan : Token.scan "inf" = .ok [⟨.identifier, "inf", 0, none⟩] :=
    Token.scan_eq_ok_iff.mpr (.chunk hinf (.done 3 []))
  have hparse : ofTokens 1000 [⟨.identifier, "inf", 0, none⟩] = .ok name := rfl
  obtain ⟨hline, htext⟩ := text_identifies_tree
  have hnumber : number.FromLine := rfl
  have hdifference : difference.FromLine := ⟨hname 'a' rfl, hname 'b' rfl⟩
  have hnegative : negative.FromLine := ⟨hname 'a' rfl, hname 'b' rfl⟩
  have hfrom : name.FromLine := hline "inf" _ 1000 name hscan hparse
  refine ⟨⟨_, hscan, hparse⟩, hfrom, hnumber, hdifference, hnegative, by simp [number, name],
    (htext number name hnumber hfrom).mpr rfl, fun h => ?_⟩
  have heq := (htext difference negative hdifference hnegative).mp h
  simp [difference, negative, nameInfinite, Expr.nameInfinite] at heq

end Statement

end Reckoner
