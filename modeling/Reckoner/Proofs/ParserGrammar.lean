import Reckoner.Proofs.Grammar
import Reckoner.Proofs.ParserSteps

/-!
# The parser accepts exactly its grammar

While a chain goes on, what has been read so far is an expression of some layer, and the next token
binds no tighter than that layer lets it (`Reached`). So an operator that is taken finds a left side
of the layer it needs, and what is read in the end is derived by the grammar (`sound`).

Conversely, if it has enough depth, the parser reads the tokens of a derivation up to their end and
goes on from there with the tree of the derivation (`continues_of_derives`). More depth changes no
other outcome, so wherever depth does not run out the parser accepts exactly the grammar, and the
grammar gives a list of tokens no more than one tree (`Reads.unique`).
-/

namespace Reckoner

open Grammar

namespace Parser

theorem binaryOp?_cases {kind : TokenKind} {op : BinaryOp} {l r : Nat}
    (h : binaryOp? kind = some (op, l, r)) :
    (l = 1 ∧ r = 2 ∧ sumOp? kind = some op) ∨ (l = 3 ∧ r = 4 ∧ productOp? kind = some op)
      ∨ (l = 8 ∧ r = 7 ∧ kind = .caret ∧ op = .pow) := by
  cases kind <;> simp_all [binaryOp?, sumOp?, productOp?]

theorem binaryOp?_of_sumOp? {kind : TokenKind} {op : BinaryOp} (h : sumOp? kind = some op) :
    binaryOp? kind = some (op, 1, 2) := by
  cases kind <;> simp_all [binaryOp?, sumOp?]

theorem binaryOp?_of_productOp? {kind : TokenKind} {op : BinaryOp}
    (h : productOp? kind = some op) : binaryOp? kind = some (op, 3, 4) := by
  cases kind <;> simp_all [binaryOp?, productOp?]

theorem sign?_eq_signOp? (kind : TokenKind) : sign? kind = signOp? kind := by
  cases kind <;> rfl

/-! ## What is read is derived -/

/-- The expression `e` has been read from the tokens `ts` up to `rest`: it is of a layer at least as
tight as `power`, and the next token binds no tighter than the layer lets it. -/
def Reached (power : Nat) (ts : List Token) (e : Expr) (rest : List Token) : Prop :=
  ∃ c front, ts = front ++ rest ∧ power ≤ Category.strength c ∧ Derives c front e
    ∧ Stops (c.strength + 1) rest

namespace Reached

variable {power : Nat} {ts tokens rest : List Token} {left e : Expr} {t : Token}

/-- A token that is taken binds at most as tightly as the layer read so far. -/
theorem exists_layer {q : Nat} (h : Reached power ts left (t :: tokens))
    (hq : leftPower? t.kind = some q) :
    ∃ c front, ts = front ++ t :: tokens ∧ q ≤ Category.strength c ∧ Derives c front left := by
  obtain ⟨c, front, hts, -, hd, hs⟩ := h
  exact ⟨c, front, hts, Nat.lt_succ_iff.mp (stops_cons.mp hs q hq), hd⟩

theorem factorial (h : Reached power ts left (t :: tokens)) (hk : t.kind = .bang)
    (hp : power ≤ suffixPower) : Reached power ts (.unary .factorial left) tokens := by
  obtain ⟨c, front, rfl, h9, hd⟩ := h.exists_layer (q := 9) (by rw [hk]; rfl)
  refine ⟨.suffixed, front ++ [t], by simp, hp, ?_, stops_ten _⟩
  exact .factorial (hd.toSuffixed (by omega)) hk

theorem call {f : String} {inner : List Token} {close : Token}
    (h : Reached power ts (.name f) (t :: (inner ++ close :: rest))) (hk : t.kind = .bracketOpen)
    (hp : power ≤ suffixPower) (hinner : Derives .sum inner e)
    (hclose : close.kind = .bracketClose) : Reached power ts (.call f e) rest := by
  obtain ⟨c, front, rfl, h9, hd⟩ := h.exists_layer (q := 9) (by rw [hk]; rfl)
  refine ⟨.suffixed, front ++ t :: (inner ++ [close]), by simp, hp, ?_, stops_ten _⟩
  exact .call (hd.toSuffixed (by omega)) hk hinner hclose

theorem binary {op : BinaryOp} {l r : Nat} (h : Reached power ts left (t :: tokens))
    (hp7 : power ≤ 7) (hb : binaryOp? t.kind = some (op, l, r)) (hp : power ≤ l)
    (hr : Reached r tokens e rest) (hs : Stops r rest) :
    Reached power ts (.binary op left e) rest := by
  obtain ⟨c, front, rfl, hl, hd⟩ := h.exists_layer (leftPower?_of_binaryOp? hb)
  obtain ⟨c', inner, rfl, hc', hd', -⟩ := hr
  have hfront : front ++ t :: (inner ++ rest) = (front ++ t :: inner) ++ rest := by simp
  rcases binaryOp?_cases hb with ⟨rfl, rfl, hop⟩ | ⟨rfl, rfl, hop⟩ | ⟨rfl, rfl, hop, rfl⟩
  · exact ⟨.sum, _, hfront, hp, .sum hd.toSum hop (hd'.toProduct hc'), hs⟩
  · exact ⟨.product, _, hfront, hp, .product (hd.toProduct (by omega)) hop (hd'.toSigned hc'), hs⟩
  · exact ⟨.power, _, hfront, hp7, .power (hd.toSuffixed hl) hop (hd'.toSigned (by omega)),
      hs.mono (by decide)⟩

end Reached

section Chain

variable {right : Nat → List Token → Parsed} {argument : List Token → Parsed} {power : Nat}

theorem chain_sound (hp : power ≤ 7)
    (hr : ∀ p ≤ 7, ∀ ts e rest, right p ts = .ok (e, rest) →
      Reached p ts e rest ∧ Stops p rest)
    (ha : ∀ o ts e rest, argument (o :: ts) = .ok (e, rest) →
      ∃ inner c, ts = inner ++ c :: rest ∧ c.kind = .bracketClose ∧ Derives .sum inner e)
    (ts : List Token) :
    ∀ (turns : Nat) (left : Expr) (tokens : List Token) {e : Expr} {rest : List Token},
      tokens.length ≤ turns → Reached power ts left tokens →
      chain right argument power turns left tokens = .ok (e, rest) →
      Reached power ts e rest ∧ Stops power rest
  | 0, left, tokens, e, rest, hlen, hreach, h => by
    obtain rfl := List.eq_nil_of_length_eq_zero (Nat.le_zero.mp hlen)
    cases h
    exact ⟨hreach, stops_nil power⟩
  | turns + 1, left, [], e, rest, hlen, hreach, h => by
    cases h
    exact ⟨hreach, stops_nil power⟩
  | turns + 1, left, t :: tokens, e, rest, hlen, hreach, h => by
    have ih := chain_sound hp hr ha ts turns
    rw [List.length_cons] at hlen
    rcases turn power left t with hstop | ⟨hk, hp'⟩ | ⟨f, rfl, hk, hp'⟩ | ⟨hl, hk, hp'⟩ |
      ⟨op, l, r, hb, hp'⟩
    · rw [chain_of_stops (stops_cons.mpr hstop)] at h
      cases h
      exact ⟨hreach, stops_cons.mpr hstop⟩
    · rw [chain_factorial hk hp'] at h
      exact ih _ _ (by omega) (hreach.factorial hk hp') h
    · rw [chain_call hk hp'] at h
      obtain ⟨⟨a, mid⟩, hargument, hnext⟩ := bind_eq_ok_iff.mp h
      obtain ⟨inner, close, rfl, hclose, hinner⟩ := ha t _ a mid hargument
      simp only [List.length_append, List.length_cons] at hlen
      exact ih _ _ (by omega) (hreach.call hk hp' hinner hclose) hnext
    · rw [chain_refuse hl hk hp'] at h
      cases h
    · rw [chain_binary hb hp'] at h
      obtain ⟨⟨b, mid⟩, hright, hnext⟩ := bind_eq_ok_iff.mp h
      obtain ⟨hb', hs'⟩ := hr r (rightPower_le hb) tokens b mid hright
      have hmid : mid.length ≤ tokens.length := by
        obtain ⟨c, inner, rfl, -⟩ := hb'
        simp
      exact ih _ _ (by omega) (hreach.binary hp hb hp' hb' hs') hnext

end Chain

theorem bracketed_cases {depth : Nat} {o : Token} {ts rest : List Token} {e : Expr} :
    bracketed (depth + 1) (o :: ts) = .ok (e, rest) ↔
      ∃ c, expression depth 0 ts = .ok (e, c :: rest) ∧ c.kind = .bracketClose := by
  simp only [bracketed, List.drop_succ_cons, List.drop_zero, bind_eq_ok_iff]
  constructor
  · rintro ⟨⟨e', rest'⟩, he, h⟩
    rcases rest' with _ | ⟨c, rest'⟩
    · cases h
    · simp only at h
      split at h
      · rename_i hc
        cases h
        exact ⟨c, he, hc⟩
      · cases h
  · rintro ⟨c, he, hc⟩
    exact ⟨_, he, by simp [hc, pure, Except.pure]⟩

/-- What the three ways of reading accept, at any depth. -/
theorem sound :
    ∀ depth,
      (∀ power ≤ 7, ∀ ts e rest, expression depth power ts = .ok (e, rest) →
        Reached power ts e rest ∧ Stops power rest)
      ∧ (∀ ts e rest, operand depth ts = .ok (e, rest) → Reached 7 ts e rest)
      ∧ ∀ o ts e rest, bracketed depth (o :: ts) = .ok (e, rest) →
        ∃ inner c, ts = inner ++ c :: rest ∧ c.kind = .bracketClose ∧ Derives .sum inner e
  | 0 => by simp [expression, operand, bracketed]
  | depth + 1 => by
    obtain ⟨ihe, iho, ihb⟩ := sound depth
    refine ⟨fun power hp ts e rest h => ?_, fun ts e rest h => ?_, fun o ts e rest h => ?_⟩
    · obtain ⟨⟨left, mid⟩, hleft, h⟩ := bind_eq_ok_iff.mp h
      obtain ⟨c, front, hts, hc, hd, hs⟩ := iho ts left mid hleft
      exact chain_sound hp ihe ihb ts _ left mid (Nat.le_refl _)
        ⟨c, front, hts, Nat.le_trans hp hc, hd, hs⟩ h
    · rcases ts with _ | ⟨t, ts⟩
      · cases h
      rcases start t with ⟨op, hs⟩ | ⟨v, hk, hv⟩ | ⟨fault, hk, hv⟩ | hk | hk | hk
      · rw [operand_sign hs] at h
        obtain ⟨⟨e', after⟩, he, h⟩ := bind_eq_ok_iff.mp h
        cases h
        obtain ⟨⟨c, front, rfl, hc, hd, -⟩, hstop⟩ := ihe _ (by decide) _ _ _ he
        refine ⟨.signed, t :: front, rfl, Nat.le_refl 7, ?_, hstop.mono (by decide)⟩
        rw [sign?_eq_signOp?] at hs
        exact .signed hs (hd.toSigned (Nat.le_trans (by decide) hc))
      · rw [operand_number hk hv] at h
        cases h
        exact ⟨.primary, [t], rfl, by decide, .number hk hv, stops_ten _⟩
      · rw [operand_unreadable hk hv] at h
        cases h
      · rw [operand_name hk] at h
        cases h
        exact ⟨.primary, [t], rfl, by decide, .name hk, stops_ten _⟩
      · rw [operand_bracket hk] at h
        obtain ⟨inner, c, rfl, hc, hd⟩ := ihb t ts e rest h
        exact ⟨.primary, t :: (inner ++ [c]), by simp, by decide, .bracket hk hd hc,
          stops_ten _⟩
      · rw [operand_refuse hk] at h
        cases h
    · obtain ⟨c, he, hc⟩ := bracketed_cases.mp h
      obtain ⟨⟨c', front, rfl, -, hd, -⟩, -⟩ := ihe 0 (by decide) _ _ _ he
      exact ⟨front, c, rfl, hc, hd.toSum⟩

/-! ## What is derived is read -/

/-- Turns that no token is left for make no difference. -/
theorem chain_turns {depth power : Nat} :
    ∀ {n m : Nat} {left : Expr} {tokens : List Token}, tokens.length ≤ n → tokens.length ≤ m →
      chain (expression depth) (bracketed depth) power n left tokens
        = chain (expression depth) (bracketed depth) power m left tokens
  | n, m, left, [], _, _ => by
    rw [chain_of_stops (stops_nil power), chain_of_stops (stops_nil power)]
  | 0, _, _, _ :: _, hn, _ => by simp at hn
  | _, 0, _, _ :: _, _, hm => by simp at hm
  | n + 1, m + 1, left, t :: tokens, hn, hm => by
    rw [List.length_cons, Nat.add_le_add_iff_right] at hn hm
    rcases turn power left t with hs | ⟨hk, hp⟩ | ⟨f, rfl, hk, hp⟩ | ⟨hl, hk, hp⟩ |
      ⟨op, l, r, hb, hp⟩
    · rw [chain_of_stops (stops_cons.mpr hs), chain_of_stops (stops_cons.mpr hs)]
    · rw [chain_factorial hk hp, chain_factorial hk hp]
      exact chain_turns hn hm
    · rw [chain_call hk hp, chain_call hk hp]
      rcases ha : bracketed depth (t :: tokens) with stop | ⟨a, after⟩
      · rfl
      · obtain ⟨inner, c, rfl, -, -⟩ := (sound depth).2.2 t tokens a after ha
        simp only [List.length_append, List.length_cons] at hn hm
        exact chain_turns (by omega) (by omega)
    · rw [chain_refuse hl hk hp, chain_refuse hl hk hp]
    · rw [chain_binary hb hp, chain_binary hb hp]
      rcases hr : expression depth r tokens with stop | ⟨e, after⟩
      · rfl
      · obtain ⟨⟨c, front, rfl, -⟩, -⟩ := (sound depth).1 r (rightPower_le hb) tokens e after hr
        rw [List.length_append] at hn hm
        exact chain_turns (by omega) (by omega)

/-- With enough depth, the tokens `front` before `rest` are read as `e`. -/
def Settles (parse : Nat → List Token → Parsed) (front : List Token) (e : Expr)
    (rest : List Token) : Prop :=
  ∃ least, ∀ depth ≥ least, parse depth (front ++ rest) = .ok (e, rest)

/-- With enough depth, the tokens `front` before `rest` are read as `e`, and a chain goes on from
there. -/
def Continues (power : Nat) (front : List Token) (e : Expr) (rest : List Token) : Prop :=
  ∃ least, ∀ depth ≥ least, expression (depth + 1) power (front ++ rest)
    = chain (expression depth) (bracketed depth) power rest.length e rest

section Completeness

variable {power : Nat} {t : Token} {front ts us rest : List Token} {e l r : Expr}

theorem settles_succ {parse : Nat → List Token → Parsed} (least : Nat)
    (h : ∀ depth ≥ least, parse (depth + 1) (front ++ rest) = .ok (e, rest)) :
    Settles parse front e rest := by
  refine ⟨least + 1, fun depth hd => ?_⟩
  obtain ⟨depth, rfl⟩ : ∃ d, depth = d + 1 := ⟨depth - 1, by omega⟩
  exact h depth (by omega)

theorem Continues.settles (h : Continues power front e rest) (hs : Stops power rest) :
    Settles (expression · power) front e rest := by
  obtain ⟨least, h⟩ := h
  refine settles_succ least fun depth hd => ?_
  rw [h depth hd, chain_of_stops hs]

theorem continues_of_operand (h : Settles operand front e rest) :
    Continues power front e rest := by
  obtain ⟨least, h⟩ := h
  refine ⟨least, fun depth hd => ?_⟩
  rw [expression, h depth hd]
  rfl

/-- Between brackets nothing is required, and a closing bracket ends every chain. -/
theorem settles_bracketed (o : Token) {c : Token} (hc : c.kind = .bracketClose)
    (h : Continues 0 ts e (c :: rest)) : Settles bracketed (o :: (ts ++ [c])) e rest := by
  obtain ⟨least, h⟩ := h.settles (stops_of_close hc 0 rest)
  refine settles_succ least fun depth hd => ?_
  have := h depth hd
  simp only [List.cons_append, List.append_assoc, List.nil_append]
  exact bracketed_cases.mpr ⟨c, this, hc⟩

theorem Continues.binary {op : BinaryOp} {lp rp : Nat}
    (hb : binaryOp? t.kind = some (op, lp, rp)) (hp : power ≤ lp)
    (hl : Continues power ts l (t :: (us ++ rest))) (hr : Settles (expression · rp) us r rest) :
    Continues power (ts ++ t :: us) (.binary op l r) rest := by
  obtain ⟨m, hl⟩ := hl
  obtain ⟨n, hr⟩ := hr
  refine ⟨max m n, fun depth hd => ?_⟩
  have hr := hr depth (by omega)
  simp only at hr
  rw [List.append_assoc, List.cons_append, hl depth (by omega), List.length_cons,
    chain_binary hb hp, hr, ok_bind]
  exact chain_turns (by simp) (Nat.le_refl _)

theorem Continues.factorial (hk : t.kind = .bang) (hp : power ≤ suffixPower)
    (h : Continues power ts e (t :: rest)) :
    Continues power (ts ++ [t]) (.unary .factorial e) rest := by
  obtain ⟨least, h⟩ := h
  refine ⟨least, fun depth hd => ?_⟩
  rw [List.append_assoc, List.singleton_append, h depth hd, List.length_cons, chain_factorial hk hp]

theorem Continues.call {f : String} {o : Token} (hk : o.kind = .bracketOpen)
    (hp : power ≤ suffixPower) (hf : Continues power ts (.name f) (o :: (us ++ rest)))
    (ha : Settles bracketed (o :: us) e rest) :
    Continues power (ts ++ o :: us) (.call f e) rest := by
  obtain ⟨m, hf⟩ := hf
  obtain ⟨n, ha⟩ := ha
  refine ⟨max m n, fun depth hd => ?_⟩
  have ha := ha depth (by omega)
  rw [List.cons_append] at ha
  rw [List.append_assoc, List.cons_append, hf depth (by omega), List.length_cons,
    chain_call hk hp, ha, ok_bind]
  exact chain_turns (by simp) (Nat.le_refl _)

theorem settles_sign {op : UnaryOp} (hk : sign? t.kind = some op)
    (h : Settles (expression · signPower) ts e rest) :
    Settles operand (t :: ts) (.unary op e) rest := by
  obtain ⟨least, h⟩ := h
  refine settles_succ least fun depth hd => ?_
  have h := h depth hd
  simp only at h
  rw [List.cons_append, operand_sign hk, h, ok_bind]

theorem settles_bracket {o : Token} (ho : o.kind = .bracketOpen)
    (h : Settles bracketed (o :: ts) e rest) : Settles operand (o :: ts) e rest := by
  obtain ⟨least, h⟩ := h
  refine settles_succ least fun depth hd => ?_
  rw [← h depth hd, List.cons_append, operand_bracket ho]

/-- The tokens of a derivation are read up to their end, wherever the next token binds no tighter
than the layer lets it. The induction keeps the chain open at the end, since a layer that groups to
the left goes on there. -/
theorem continues_of_derives {c : Category} (h : Derives c front e) :
    ∀ {power : Nat} {rest : List Token}, power ≤ c.strength → Stops (c.strength + 1) rest →
      Continues power front e rest := by
  induction h with
  | @number t v hk hv =>
    intro power rest hp hs
    exact continues_of_operand (settles_succ 0 fun _ _ => operand_number hk hv)
  | @name t hk =>
    intro power rest hp hs
    exact continues_of_operand (settles_succ 0 fun _ _ => operand_name hk)
  | @bracket o c ts e ho _ hc ih =>
    intro power rest hp hs
    have hin := ih (Nat.zero_le _) (stops_of_close hc _ rest)
    exact continues_of_operand (settles_bracket ho (settles_bracketed o hc hin))
  | primary _ ih => exact ih
  | @factorial t ts e _ hk ih =>
    intro power rest hp hs
    exact Continues.factorial hk hp (ih hp (stops_ten _))
  | @call f o c ts us e _ ho _ hc ihf ih =>
    intro power rest hp hs
    have hin := ih (Nat.zero_le _) (stops_of_close hc _ rest)
    exact Continues.call ho hp (ihf hp (stops_ten _)) (settles_bracketed o hc hin)
  | suffixed _ ih =>
    intro power rest hp hs
    exact ih (Nat.le_trans hp (by decide)) (stops_ten _)
  | @power t ts us l r _ hk _ ihl ihr =>
    intro power rest hp hs
    have hr := (ihr (Nat.le_refl 7) hs).settles (hs.four.mono (by decide))
    exact Continues.binary (by rw [hk]; rfl) (Nat.le_trans hp (by decide))
      (ihl (Nat.le_trans hp (by decide)) (stops_ten _)) hr
  | unsigned _ ih => exact ih
  | @signed op t ts e hk _ ih =>
    intro power rest hp hs
    rw [← sign?_eq_signOp?] at hk
    exact continues_of_operand
      (settles_sign hk ((ih (by decide) hs).settles (hs.four.mono (by decide))))
  | factor _ ih =>
    intro power rest hp hs
    exact ih (Nat.le_trans hp (by decide)) (hs.mono (by decide))
  | @product op t ts us l r _ hk _ ihl ihr =>
    intro power rest hp hs
    have hb := binaryOp?_of_productOp? hk
    have hr := (ihr (by decide) (hs.mono (by decide))).settles hs
    refine Continues.binary hb hp (ihl hp (stops_cons.mpr ?_)) hr
    simp [leftPower?_of_binaryOp? hb, Category.strength]
  | term _ ih =>
    intro power rest hp hs
    exact ih (Nat.le_trans hp (by decide)) (hs.mono (by decide))
  | @sum op t ts us l r _ hk _ ihl ihr =>
    intro power rest hp hs
    have hb := binaryOp?_of_sumOp? hk
    have hr := (ihr (by decide) (hs.mono (by decide))).settles hs
    refine Continues.binary hb hp (ihl hp (stops_cons.mpr ?_)) hr
    simp [leftPower?_of_binaryOp? hb, Category.strength]

end Completeness

theorem full_eq_ok_iff {depth : Nat} {ts : List Token} {e : Expr} :
    full depth ts = .ok e ↔ expression depth 0 ts = .ok (e, []) := by
  simp only [full, bind_eq_ok_iff]
  constructor
  · rintro ⟨⟨e', rest⟩, he, h⟩
    rcases rest with _ | ⟨t, rest⟩ <;> cases h
    exact he
  · intro he
    exact ⟨_, he, rfl⟩

theorem derives_of_full {depth : Nat} {ts : List Token} {e : Expr} (h : full depth ts = .ok e) :
    Derives .sum ts e := by
  obtain ⟨⟨c, front, rfl, -, hd, -⟩, -⟩ :=
    (sound depth).1 0 (by decide) ts e [] (full_eq_ok_iff.mp h)
  rw [List.append_nil]
  exact hd.toSum

theorem full_of_derives {ts : List Token} {e : Expr} (h : Derives .sum ts e) :
    ∃ depth, full depth ts = .ok e := by
  have hc : Continues 0 ts e [] := continues_of_derives h (by decide) (stops_nil _)
  obtain ⟨least, hl⟩ := hc.settles (stops_nil 0)
  refine ⟨least, full_eq_ok_iff.mpr ?_⟩
  have := hl least (Nat.le_refl _)
  rwa [List.append_nil] at this

theorem full_refines {depth depth' : Nat} (h : depth ≤ depth') (ts : List Token) :
    Refines (full depth ts) (full depth' ts) :=
  (expression_refines h 0 ts).bind fun _ => .refl _

/-- The statement of the tokens, or why and where there is none. -/
def statement (depth : Nat) (tokens : List Token) : Except Stop Statement :=
  match tokens, assignment? tokens with
  | [], _ => .error ⟨.endOfInput, 0⟩
  | _, some (name, right) => (full depth right).map (.assign name)
  | _, none => (full depth tokens).map .expression

theorem ofTokens_eq (depth : Nat) (tokens : List Token) :
    Statement.ofTokens depth tokens = (statement depth tokens).mapError (errorAt tokens) := rfl

section Statement

variable {depth depth' : Nat} {tokens : List Token} {st : Statement}

theorem assignment?_cases {x : String} {ts : List Token} (h : assignment? tokens = some (x, ts)) :
    ∃ n q, tokens = n :: q :: ts ∧ n.kind = .identifier ∧ q.kind = .equal ∧ x = n.lexeme := by
  unfold assignment? at h
  split at h
  · rename_i n q rest
    split at h
    · rename_i hk
      cases h
      exact ⟨n, q, rfl, hk.1, hk.2, rfl⟩
    · cases h
  · cases h

theorem statement_assign {n q : Token} {ts : List Token} (hn : n.kind = .identifier)
    (hq : q.kind = .equal) :
    statement depth (n :: q :: ts) = (full depth ts).map (.assign n.lexeme) := by
  simp [statement, assignment?, hn, hq]

theorem statement_expression (hne : tokens ≠ []) (ha : assignment? tokens = none) :
    statement depth tokens = (full depth tokens).map .expression := by
  rcases tokens with _ | ⟨t, ts⟩
  · exact absurd rfl hne
  · simp only [statement, ha]

/-- The tokens are none, or start like an assignment, or are read as an expression. -/
theorem statement_cases (tokens : List Token) :
    (tokens = [] ∧ ∀ depth, statement depth tokens = .error ⟨.endOfInput, 0⟩)
      ∨ (∃ n q ts, tokens = n :: q :: ts ∧ n.kind = .identifier ∧ q.kind = .equal
        ∧ ∀ depth, statement depth tokens = (full depth ts).map (.assign n.lexeme))
      ∨ ∀ depth, statement depth tokens = (full depth tokens).map .expression := by
  rcases ha : assignment? tokens with _ | ⟨x, ts⟩
  · rcases tokens with _ | ⟨t, ts⟩
    · exact Or.inl ⟨rfl, fun _ => rfl⟩
    · exact Or.inr (Or.inr fun _ => statement_expression (by simp) ha)
  · obtain ⟨n, q, rfl, hn, hq, rfl⟩ := assignment?_cases ha
    exact Or.inr (Or.inl ⟨n, q, ts, rfl, hn, hq, fun _ => statement_assign hn hq⟩)

theorem reads_of_statement (h : statement depth tokens = .ok st) : Reads tokens st := by
  rcases statement_cases tokens with ⟨-, hs⟩ | ⟨n, q, ts, rfl, hn, hq, hs⟩ | hs <;> rw [hs] at h
  · cases h
  · obtain ⟨e, he, rfl⟩ := map_eq_ok_iff.mp h
    exact .assign hn hq (derives_of_full he)
  · obtain ⟨e, he, rfl⟩ := map_eq_ok_iff.mp h
    exact .expression (derives_of_full he)

theorem statement_of_reads (h : Reads tokens st) : ∃ depth, statement depth tokens = .ok st := by
  rcases h with ⟨hn, hq, hd⟩ | hd
  · obtain ⟨depth, he⟩ := full_of_derives hd
    exact ⟨depth, by rw [statement_assign hn hq, he]; rfl⟩
  · obtain ⟨depth, he⟩ := full_of_derives hd
    refine ⟨depth, ?_⟩
    rw [statement_expression hd.ne_nil, he]
    · rfl
    · rcases ha : assignment? tokens with _ | ⟨x, ts⟩
      · rfl
      · obtain ⟨n, q, rfl, -, hq, -⟩ := assignment?_cases ha
        exact absurd hq (hd.no_equal q (by simp))

theorem statement_refines (h : depth ≤ depth') (tokens : List Token) :
    Refines (statement depth tokens) (statement depth' tokens) := by
  rcases statement_cases tokens with ⟨-, hs⟩ | ⟨n, q, ts, rfl, hn, hq, hs⟩ | hs <;> rw [hs, hs]
  · exact .refl _
  · exact (full_refines h ts).map _
  · exact (full_refines h tokens).map _

end Statement

end Parser

namespace Grammar

open Reckoner.Parser

/-- Two derivations of the same tokens are read at some depth both, and there is one outcome. -/
theorem Reads.unique {tokens : List Token} {st st' : Statement} (h : Reads tokens st)
    (h' : Reads tokens st') : st = st' := by
  obtain ⟨d, hd⟩ := statement_of_reads h
  obtain ⟨d', hd'⟩ := statement_of_reads h'
  have hr := statement_refines (Nat.le_max_left d d') tokens
  have hr' := statement_refines (Nat.le_max_right d d') tokens
  rw [hd] at hr
  rw [hd'] at hr'
  have heq : (.ok st : Except Stop Statement) = .ok st' := hr.eq_ok.symm.trans hr'.eq_ok
  exact Except.ok.inj heq

end Grammar

namespace Statement

open Reckoner.Parser

end Statement

end Reckoner
