import Reckoner.Proofs.Safety

/-!
# Syntax errors come at the earliest token

Where the parser gives up, the tokens it has taken can still be completed to a statement, while no
statement goes on with the next token (`Stuck`). Each way of reading hands this on to the one that
called it (`Stuck.lift`): what completes the inner tokens completes the outer ones, and what fails
inside fails outside. That a failure does not depend on the tokens behind the faulty one comes from
the grammar: what was read before is derived, and derived tokens are read alike before any tokens
with the same first (`continues_of_derives`).

A bracket that is not closed is laid at the bracket itself, which is the innermost that is open
(`openBrackets`), since everything behind it is derived and closes what it opens.
-/

namespace Reckoner

open Grammar

/-- The places of the brackets that are open after the tokens, the innermost first, where the first
token has place `i` and the brackets of `stack` are open before it. -/
def openFrom (i : Nat) (stack : List Nat) : List Token → List Nat
  | [] => stack
  | t :: ts =>
    match t.kind with
    | .bracketOpen => openFrom (i + 1) (i :: stack) ts
    | .bracketClose => openFrom (i + 1) stack.tail ts
    | _ => openFrom (i + 1) stack ts

/-- The places of the brackets that are not closed within the tokens, the innermost first. -/
def openBrackets (tokens : List Token) : List Nat := openFrom 0 [] tokens

theorem openFrom_append (us : List Token) :
    ∀ (ts : List Token) (i : Nat) (stack : List Nat),
      openFrom i stack (ts ++ us) = openFrom (i + ts.length) (openFrom i stack ts) us
  | [], i, stack => rfl
  | t :: ts, i, stack => by
    simp only [List.cons_append, openFrom, List.length_cons]
    have hi : i + (ts.length + 1) = i + 1 + ts.length := by omega
    rw [hi]
    split <;> exact openFrom_append us ts _ _

theorem openFrom_other {t : Token} (h : t.kind ≠ .bracketOpen ∧ t.kind ≠ .bracketClose) (i : Nat)
    (stack : List Nat) (ts : List Token) :
    openFrom i stack (t :: ts) = openFrom (i + 1) stack ts := by
  rw [openFrom]
  split
  · exact absurd ‹_› h.1
  · exact absurd ‹_› h.2
  · rfl

theorem openFrom_open {o : Token} (ho : o.kind = .bracketOpen) (i : Nat) (stack : List Nat)
    (ts : List Token) : openFrom i stack (o :: ts) = openFrom (i + 1) (i :: stack) ts := by
  rw [openFrom, ho]

theorem openFrom_close {c : Token} (hc : c.kind = .bracketClose) (i : Nat) (stack : List Nat)
    (ts : List Token) : openFrom i stack (c :: ts) = openFrom (i + 1) stack.tail ts := by
  rw [openFrom, hc]

theorem Grammar.Derives.openFrom_eq {c : Category} {ts : List Token} {e : Expr}
    (h : Derives c ts e) : ∀ (i : Nat) (stack : List Nat), openFrom i stack ts = stack := by
  induction h with
  | number hk | name hk =>
    intro i stack
    rw [openFrom_other (by simp [hk]), openFrom]
  | bracket ho _ hc ih =>
    intro i stack
    rw [openFrom_open ho, openFrom_append, ih, openFrom_close hc, openFrom, List.tail_cons]
  | factorial _ hk ih =>
    intro i stack
    rw [openFrom_append, ih, openFrom_other (by simp [hk]), openFrom]
  | call _ ho _ hc ihf ih =>
    intro i stack
    rw [openFrom_append, ihf, openFrom_open ho, openFrom_append, ih, openFrom_close hc, openFrom,
      List.tail_cons]
  | power _ hk _ ihl ihr =>
    intro i stack
    rw [openFrom_append, ihl, openFrom_other (by simp [hk]), ihr]
  | @signed op t ts e hk _ ih =>
    intro i stack
    have hne : t.kind ≠ .bracketOpen ∧ t.kind ≠ .bracketClose := by
      constructor <;> intro he <;> simp [he, signOp?] at hk
    rw [openFrom_other hne, ih]
  | @product op t ts us l r _ hk _ ihl ihr =>
    intro i stack
    have hne : t.kind ≠ .bracketOpen ∧ t.kind ≠ .bracketClose := by
      constructor <;> intro he <;> simp [he, productOp?] at hk
    rw [openFrom_append, ihl, openFrom_other hne, ihr]
  | @sum op t ts us l r _ hk _ ihl ihr =>
    intro i stack
    have hne : t.kind ≠ .bracketOpen ∧ t.kind ≠ .bracketClose := by
      constructor <;> intro he <;> simp [he, sumOp?] at hk
    rw [openFrom_append, ihl, openFrom_other hne, ihr]
  | _ => assumption

namespace Parser

/-- With enough depth, the tokens are not read. -/
def Fails {α : Type} (parse : Nat → List Token → Except Stop α) (ts : List Token) : Prop :=
  ∃ least, ∀ depth ≥ least, ∃ stop, parse depth ts = .error stop

namespace Fails

variable {α β : Type} {parse : Nat → List Token → Except Stop α}
  {parse' : Nat → List Token → Except Stop β} {ts us : List Token}

theorem of_succ (h : Fails (fun depth => parse (depth + 1)) ts) : Fails parse ts := by
  obtain ⟨least, h⟩ := h
  refine ⟨least + 1, fun depth hd => ?_⟩
  obtain ⟨depth, rfl⟩ : ∃ d, depth = d + 1 := ⟨depth - 1, by omega⟩
  exact h depth (by omega)

theorem bind {f : Nat → α → Except Stop β} (h : Fails parse ts)
    (heq : ∀ depth, parse' depth us = parse depth ts >>= f depth) : Fails parse' us := by
  obtain ⟨least, h⟩ := h
  refine ⟨least, fun depth hd => ?_⟩
  obtain ⟨stop, hs⟩ := h depth hd
  exact ⟨stop, by rw [heq, hs, error_bind]⟩

end Fails

/-- A chain that cannot go on behind the tokens `front` keeps them from being read. -/
theorem Continues.fails {power : Nat} {front rest : List Token} {e : Expr}
    (h : Continues power front e rest)
    (hf : Fails (fun depth => chain (expression depth) (bracketed depth) power rest.length e)
      rest) : Fails (expression · power) (front ++ rest) := by
  obtain ⟨m, h⟩ := h
  obtain ⟨n, hf⟩ := hf
  refine .of_succ ⟨max m n, fun depth hd => ?_⟩
  obtain ⟨stop, hs⟩ := hf depth (by omega)
  exact ⟨stop, (h depth (by omega)).trans hs⟩

theorem Stops.congr {power : Nat} {ts us : List Token} (h : Stops power ts)
    (hh : us.head? = ts.head?) : Stops power us := by
  unfold Stops
  rw [hh]
  exact h

/-! ## Where the parser is stuck -/

/-- The fault is that of a token which cannot stand where it does. -/
def refusesToken : ParseFault → Bool
  | .unexpectedOperator _ | .trailing _ | .notCallable => true
  | _ => false

/-- Where a stop lays its fault, when the tokens `front` have been taken and the tokens `rest` are
left: behind the last token, at the next token, or at the innermost open bracket. -/
inductive Placed (front : List Token) : List Token → Stop → Prop where
  | ended : Placed front [] ⟨.endOfInput, 0⟩
  | refused {fault : ParseFault} {t : Token} {rest : List Token} : refusesToken fault = true →
      Placed front (t :: rest) ⟨fault, rest.length + 1⟩
  | unclosed {outer inner rest : List Token} {o : Token} : front = outer ++ o :: inner →
      o.kind = .bracketOpen → (∀ i stack, openFrom i stack inner = stack) →
      Placed front rest ⟨.unclosedBracket, inner.length + rest.length + 1⟩

theorem Placed.append {front rest : List Token} {stop : Stop} (h : Placed front rest stop)
    (before : List Token) : Placed (before ++ front) rest stop := by
  cases h with
  | ended => exact .ended
  | refused hf => exact .refused hf
  | unclosed hfront ho hi => exact .unclosed (by rw [hfront, List.append_assoc]) ho hi

/-- The tokens can be completed to some for which `P` holds. -/
def Completes (P : List Token → Prop) (ts : List Token) : Prop :=
  ∃ fill, Valued fill ∧ P (ts ++ fill)

theorem completes_of {P : List Token → Prop} {ts : List Token} (h : P ts) : Completes P ts :=
  ⟨[], by simp [Valued], by rwa [List.append_nil]⟩

/-- The stop is as early as can be: the tokens before it can be completed, and those up to the one
behind them fail whatever follows. -/
def Stuck {α : Type} (parse : Nat → List Token → Except Stop α) (P : List Token → Prop)
    (ts : List Token) (stop : Stop) : Prop :=
  ∃ front rest, ts = front ++ rest ∧ Placed front rest stop ∧ Completes P front
    ∧ ∀ rest', rest ≠ [] → rest'.head? = rest.head? → Fails parse (front ++ rest')

theorem Stuck.lift {α β : Type} {parse : Nat → List Token → Except Stop α}
    {parse' : Nat → List Token → Except Stop β} {P P' : List Token → Prop} {ts : List Token}
    {stop : Stop} (h : Stuck parse P ts stop) (before : List Token)
    (hP : ∀ us, P us → Completes P' (before ++ us))
    (hf : ∀ us, us.head? = ts.head? → Fails parse us → Fails parse' (before ++ us)) :
    Stuck parse' P' (before ++ ts) stop := by
  obtain ⟨front, rest, rfl, hplaced, ⟨fill, hv, hfill⟩, hfails⟩ := h
  obtain ⟨more, hv', hmore⟩ := hP _ hfill
  refine ⟨before ++ front, rest, by rw [List.append_assoc], hplaced.append before,
    ⟨fill ++ more, valued_append.mpr ⟨hv, hv'⟩, ?_⟩, fun rest' hne hh => ?_⟩
  · rwa [List.append_assoc, ← List.append_assoc front, ← List.append_assoc before]
  · rw [List.append_assoc]
    exact hf _ (by simp [List.head?_append, hh]) (hfails rest' hne hh)

/-- The tokens make up an expression that holds together as tightly as `power`. -/
def IsExpression (power : Nat) (ts : List Token) : Prop :=
  ∃ c e, power ≤ Category.strength c ∧ Derives c ts e

theorem Reached.isExpression {power : Nat} {ts : List Token} {e : Expr}
    (h : Reached power ts e []) : IsExpression power ts := by
  obtain ⟨c, front, rfl, hc, hd, -⟩ := h
  rw [List.append_nil]
  exact ⟨c, e, hc, hd⟩

/-- The tokens make up an expression between brackets. -/
def IsBracket (ts : List Token) : Prop :=
  ∃ o inner c e, ts = o :: (inner ++ [c]) ∧ o.kind = .bracketOpen ∧ Derives .sum inner e
    ∧ c.kind = .bracketClose

/-- The stop is for the order of the tokens, not for want of depth or of a number's value. -/
def Syntactic (stop : Stop) : Prop :=
  stop.fault ≠ .tooDeep ∧ ∀ lexeme, stop.fault ≠ .unreadableNumber lexeme

theorem completes_number {P : List Token → Prop}
    (h : ∀ t v, t.kind = .number → numberValue t = .ok v → P [t]) : Completes P [] :=
  ⟨[⟨.number, "0", 0, some .zero⟩], by simp [Valued], h _ _ rfl rfl⟩

theorem completes_close {P : List Token → Prop} {ts : List Token}
    (h : ∀ c : Token, c.kind = .bracketClose → P (ts ++ [c])) : Completes P ts :=
  ⟨[⟨.bracketClose, ")", 0, none⟩], by simp [Valued], h _ rfl⟩

/-- With the given depth, each way of reading stops as early as can be. -/
structure Early (depth : Nat) : Prop where
  ofExpression : ∀ power ≤ 7, ∀ {ts stop}, Syntactic stop →
    expression depth power ts = .error stop →
    Stuck (expression · power) (IsExpression power) ts stop
  ofOperand : ∀ {ts stop}, Syntactic stop → operand depth ts = .error stop →
    Stuck operand (IsExpression 7) ts stop
  ofBracketed : ∀ {o ts stop}, o.kind = .bracketOpen → Syntactic stop →
    bracketed depth (o :: ts) = .error stop → Stuck bracketed IsBracket (o :: ts) stop

section Chain

variable {depth power : Nat} {left : Expr} {t : Token} {ts tokens : List Token} {stop : Stop}

/-- The argument of a call is stuck. -/
theorem Early.argument_stuck {f : String} (h : Early depth) (hstop : Syntactic stop)
    (hk : t.kind = .bracketOpen) (hp : power ≤ suffixPower)
    (hreach : Reached power ts (.name f) (t :: tokens))
    (ha : bracketed depth (t :: tokens) = .error stop) :
    Stuck (expression · power) (IsExpression power) ts stop := by
  obtain ⟨c, front, rfl, hc, hd, hstops⟩ := hreach
  have h9 : 9 < c.strength + 1 := stops_cons.mp hstops 9 (by rw [hk]; rfl)
  refine (h.ofBracketed hk hstop ha).lift front ?_ fun us hh hf => ?_
  · rintro us ⟨o, inner, close, e, rfl, ho, hinner, hclose⟩
    exact completes_of ⟨.suffixed, _, hp, .call (hd.toSuffixed (by omega)) ho hinner hclose⟩
  · obtain ⟨vs, rfl⟩ := List.head?_eq_some_iff.mp hh
    have hcont := continues_of_derives hd hc (hstops.congr hh)
    exact hcont.fails (hf.bind fun depth => chain_call hk hp)

/-- The tokens so far are an expression, but none that can be called. -/
theorem refuse_stuck (hl : ∀ f, left ≠ .name f) (hk : t.kind = .bracketOpen)
    (hp : power ≤ suffixPower) (hreach : Reached power ts left (t :: tokens)) :
    Stuck (expression · power) (IsExpression power) ts ⟨.notCallable, tokens.length + 1⟩ := by
  obtain ⟨c, front, rfl, hc, hd, hstops⟩ := hreach
  refine ⟨front, t :: tokens, rfl, .refused rfl, completes_of ⟨c, left, hc, hd⟩,
    fun rest' _ hh => ?_⟩
  obtain ⟨vs, rfl⟩ := List.head?_eq_some_iff.mp hh
  refine (continues_of_derives hd hc (hstops.congr hh)).fails ⟨0, fun depth _ => ?_⟩
  exact ⟨_, chain_refuse hl hk hp⟩

/-- The right side of an operator is stuck. -/
theorem Early.right_stuck {op : BinaryOp} {l r : Nat} (h : Early depth) (hstop : Syntactic stop)
    (hp : power ≤ 7) (hop : binaryOp? t.kind = some (op, l, r)) (hl : power ≤ l)
    (hreach : Reached power ts left (t :: tokens))
    (hr : expression depth r tokens = .error stop) :
    Stuck (expression · power) (IsExpression power) ts stop := by
  obtain ⟨c, front, rfl, hc, hd, hstops⟩ := hreach
  have heq : front ++ t :: tokens = (front ++ [t]) ++ tokens := by simp
  rw [heq]
  have hstuck := h.ofExpression r (rightPower_le hop) hstop hr
  refine hstuck.lift (front ++ [t]) ?_ fun us _ hf => ?_
  · rintro us ⟨c', e, hc', hd'⟩
    have hleft : Reached power (front ++ t :: us) left (t :: us) :=
      ⟨c, front, rfl, hc, hd, hstops.congr rfl⟩
    have hright : Reached r us e [] := ⟨c', us, by simp, hc', hd', stops_nil _⟩
    refine completes_of ?_
    rw [List.append_assoc, List.singleton_append]
    exact (hleft.binary hp hop hl hright (stops_nil r)).isExpression
  · rw [List.append_assoc, List.singleton_append]
    have hcont : Continues power front left (t :: us) :=
      continues_of_derives hd hc (hstops.congr rfl)
    exact hcont.fails (hf.bind fun depth => chain_binary hop hl)

end Chain

theorem Early.chain_stuck {depth power : Nat} (h : Early depth) (hp : power ≤ 7)
    (ts : List Token) {stop : Stop} (hstop : Syntactic stop) :
    ∀ (turns : Nat) (left : Expr) (tokens : List Token), tokens.length ≤ turns →
      Reached power ts left tokens →
      chain (expression depth) (bracketed depth) power turns left tokens = .error stop →
      Stuck (expression · power) (IsExpression power) ts stop
  | 0, left, tokens, _, _, herr => by cases herr
  | turns + 1, left, [], _, _, herr => by cases herr
  | turns + 1, left, t :: tokens, hlen, hreach, herr => by
    have ih := h.chain_stuck hp ts hstop turns
    rw [List.length_cons] at hlen
    rcases turn power left t with hs | ⟨hk, hp'⟩ | ⟨f, rfl, hk, hp'⟩ | ⟨hl, hk, hp'⟩ |
      ⟨op, l, r, hop, hp'⟩
    · rw [chain_of_stops (stops_cons.mpr hs)] at herr
      cases herr
    · rw [chain_factorial hk hp'] at herr
      exact ih _ _ (by omega) (hreach.factorial hk hp') herr
    · rw [chain_call hk hp'] at herr
      rcases bind_eq_error_iff.mp herr with ha | ⟨⟨a, mid⟩, ha, hnext⟩
      · exact h.argument_stuck hstop hk hp' hreach ha
      · obtain ⟨inner, close, rfl, hclose, hinner⟩ := (sound depth).2.2 t tokens a mid ha
        simp only [List.length_append, List.length_cons] at hlen
        exact ih _ _ (by omega) (hreach.call hk hp' hinner hclose) hnext
    · rw [chain_refuse hl hk hp'] at herr
      cases herr
      exact refuse_stuck hl hk hp' hreach
    · rw [chain_binary hop hp'] at herr
      rcases bind_eq_error_iff.mp herr with hr | ⟨⟨e, mid⟩, hr, hnext⟩
      · exact h.right_stuck hstop hp hop hp' hreach hr
      · obtain ⟨hright, hstops⟩ := (sound depth).1 r (rightPower_le hop) tokens e mid hr
        have hmid : mid.length ≤ tokens.length := by
          obtain ⟨c, inner, rfl, -⟩ := hright
          simp
        exact ih _ _ (by omega) (hreach.binary hp hop hp' hright hstops) hnext

/-- An expression that was read is read again before any tokens with the same first. -/
theorem Reached.settles {power : Nat} {ts rest : List Token} {e : Expr}
    (h : Reached power ts e rest) (hs : Stops power rest) :
    ∃ front c, ts = front ++ rest ∧ Derives c front e
      ∧ ∀ rest', rest'.head? = rest.head? → Settles (expression · power) front e rest' := by
  obtain ⟨c, front, rfl, hc, hd, hstops⟩ := h
  refine ⟨front, c, rfl, hd, fun rest' hh => ?_⟩
  exact (continues_of_derives hd hc (hstops.congr hh)).settles (hs.congr hh)

theorem bracketed_unclosed {depth : Nat} {o : Token} {ts rest : List Token} {e : Expr}
    (he : expression depth 0 ts = .ok (e, rest))
    (hc : ∀ c ∈ rest.head?, c.kind ≠ .bracketClose) :
    bracketed (depth + 1) (o :: ts) = .error ⟨.unclosedBracket, ts.length + 1⟩ := by
  simp only [bracketed, List.drop_succ_cons, List.drop_zero, he, ok_bind]
  rcases rest with _ | ⟨c, rest⟩
  · rfl
  · simp only [if_neg (hc c rfl), List.length_cons]

theorem Early.expression_stuck {depth power : Nat} (h : Early depth) (hp : power ≤ 7)
    {ts : List Token} {stop : Stop} (hs : Syntactic stop)
    (herr : expression (depth + 1) power ts = .error stop) :
    Stuck (expression · power) (IsExpression power) ts stop := by
  rcases bind_eq_error_iff.mp herr with ho | ⟨⟨left, rest⟩, ho, hchain⟩
  · refine (h.ofOperand hs ho).lift [] ?_ fun us _ hf => ?_
    · rintro us ⟨c, e, hc, hd⟩
      exact completes_of ⟨c, e, Nat.le_trans hp hc, hd⟩
    · exact .of_succ (hf.bind fun depth => rfl)
  · obtain ⟨c, front, hts, hc, hd, hstops⟩ := (sound depth).2.1 ts left rest ho
    exact h.chain_stuck hp ts hs _ left rest (Nat.le_refl _)
      ⟨c, front, hts, Nat.le_trans hp hc, hd, hstops⟩ hchain

theorem Early.operand_stuck {depth : Nat} (h : Early depth) :
    ∀ {ts : List Token} {stop : Stop}, Syntactic stop → operand (depth + 1) ts = .error stop →
      Stuck operand (IsExpression 7) ts stop
  | [], stop, hs, herr => by
    cases herr
    refine ⟨[], [], rfl, .ended, completes_number fun t v hk hv => ?_,
      fun _ hne _ => absurd rfl hne⟩
    exact ⟨.primary, _, by decide, .number hk hv⟩
  | t :: ts, stop, hs, herr => by
    rcases start t with ⟨op, hop⟩ | ⟨v, hk, hv⟩ | ⟨fault, hk, hv⟩ | hk | hk | hk
    · rw [operand_sign hop] at herr
      rcases bind_eq_error_iff.mp herr with he | ⟨⟨e, rest⟩, -, hok⟩
      · refine (h.ofExpression signPower (by decide) hs he).lift [t] ?_ fun us _ hf => ?_
        · rintro us ⟨c, e, hc, hd⟩
          rw [sign?_eq_signOp?] at hop
          have hsigned : Derives .signed us e := hd.toSigned (Nat.le_trans (by decide) hc)
          exact completes_of ⟨.signed, _, Nat.le_refl 7, .signed hop hsigned⟩
        · exact .of_succ (hf.bind fun depth => operand_sign hop)
      · cases hok
    · rw [operand_number hk hv] at herr
      cases herr
    · rw [operand_unreadable hk hv] at herr
      cases herr
      exact absurd (numberValue_error hv) (hs.2 _)
    · rw [operand_name hk] at herr
      cases herr
    · rw [operand_bracket hk] at herr
      refine (h.ofBracketed hk hs herr).lift [] ?_ fun us hh hf => ?_
      · rintro us ⟨o, inner, c, e, rfl, ho, hinner, hc⟩
        exact completes_of ⟨.primary, _, by decide, .bracket ho hinner hc⟩
      · obtain ⟨vs, rfl⟩ := List.head?_eq_some_iff.mp hh
        obtain ⟨least, hf⟩ := hf
        refine .of_succ ⟨least, fun depth hd => ?_⟩
        obtain ⟨stop, hstop⟩ := hf depth hd
        exact ⟨stop, (operand_bracket hk).trans hstop⟩
    · rw [operand_refuse hk] at herr
      cases herr
      refine ⟨[], t :: ts, rfl, .refused rfl, completes_number fun t v hk hv => ?_,
        fun rest' _ hh => ?_⟩
      · exact ⟨.primary, _, by decide, .number hk hv⟩
      · obtain ⟨vs, rfl⟩ := List.head?_eq_some_iff.mp hh
        exact .of_succ ⟨0, fun depth _ => ⟨_, operand_refuse hk⟩⟩

theorem Early.bracketed_stuck {depth : Nat} (h : Early depth) {o : Token} {ts : List Token}
    {stop : Stop} (hk : o.kind = .bracketOpen) (hs : Syntactic stop)
    (herr : bracketed (depth + 1) (o :: ts) = .error stop) :
    Stuck bracketed IsBracket (o :: ts) stop := by
  rcases he : expression depth 0 ts with stop' | ⟨e, rest⟩
  · obtain rfl : stop' = stop := by
      simp only [bracketed, List.drop_succ_cons, List.drop_zero, he, error_bind,
        Except.error.injEq] at herr
      exact herr
    refine (h.ofExpression 0 (by decide) hs he).lift [o] ?_ fun us _ hf => ?_
    · rintro us ⟨c, e, -, hd⟩
      exact completes_close fun c hc => ⟨o, us, c, e, rfl, hk, hd.toSum, hc⟩
    · exact .of_succ (hf.bind fun depth => rfl)
  · obtain ⟨hreach, hstops⟩ := (sound depth).1 0 (by decide) ts e rest he
    obtain ⟨inner, c, rfl, hd, hsettles⟩ := hreach.settles hstops
    have hopen : ∀ c ∈ rest.head?, c.kind ≠ .bracketClose := by
      intro c hc hkind
      obtain ⟨after, rfl⟩ := List.head?_eq_some_iff.mp hc
      rw [bracketed_cases.mpr ⟨c, he, hkind⟩] at herr
      cases herr
    rw [bracketed_unclosed he hopen] at herr
    cases herr
    refine ⟨o :: inner, rest, rfl, ?_, ?_, fun rest' _ hh => ?_⟩
    · rw [List.length_append]
      exact @Placed.unclosed _ [] inner rest o rfl hk hd.openFrom_eq
    · exact completes_close fun c hc => ⟨o, inner, c, e, rfl, hk, hd.toSum, hc⟩
    · obtain ⟨least, hsettles⟩ := hsettles rest' hh
      refine .of_succ ⟨least, fun depth hdepth => ?_⟩
      exact ⟨_, bracketed_unclosed (hsettles depth hdepth) (by rwa [hh])⟩

theorem early : ∀ depth, Early depth
  | 0 => by
    refine ⟨fun _ _ _ _ hs h => ?_, fun hs h => ?_, fun _ hs h => ?_⟩ <;> cases h <;>
      exact absurd rfl hs.1
  | depth + 1 =>
    have h := early depth
    ⟨fun _ => h.expression_stuck, h.operand_stuck, h.bracketed_stuck⟩

theorem Fails.not_ok {α : Type} {parse : Nat → List Token → Except Stop α} {ts : List Token} {a : α}
    (hrefines : ∀ {d d'}, d ≤ d' → Refines (parse d ts) (parse d' ts)) (h : Fails parse ts) :
    ∀ depth, parse depth ts ≠ .ok a := by
  intro depth hok
  obtain ⟨least, h⟩ := h
  obtain ⟨stop, hs⟩ := h (max depth least) (Nat.le_max_right _ _)
  have hr := hrefines (Nat.le_max_left depth least)
  rw [hok] at hr
  rw [hr.eq_ok] at hs
  cases hs

theorem full_stuck {depth : Nat} {ts : List Token} {stop : Stop} (hs : Syntactic stop)
    (h : full depth ts = .error stop) : Stuck full (∃ e, Derives .sum · e) ts stop := by
  have htrailing {d : Nat} {us : List Token} {e : Expr} {t : Token} {after : List Token}
      (he : expression d 0 us = .ok (e, t :: after)) :
      full d us = .error ⟨.trailing t.kind, after.length + 1⟩ := by
    simp only [full, he, ok_bind]
  rcases he : expression depth 0 ts with stop' | ⟨e, rest⟩
  · obtain rfl : stop' = stop := by simpa [full, he] using h
    refine ((early depth).ofExpression 0 (by decide) hs he).lift [] ?_ fun us _ hf => ?_
    · rintro us ⟨c, e, -, hd⟩
      exact completes_of ⟨e, hd.toSum⟩
    · exact hf.bind fun depth => rfl
  · rcases rest with _ | ⟨t, after⟩
    · rw [full_eq_ok_iff.mpr he] at h
      cases h
    rw [htrailing he] at h
    cases h
    obtain ⟨hreach, hstops⟩ := (sound depth).1 0 (by decide) ts e _ he
    obtain ⟨front, c, rfl, hd, hsettles⟩ := hreach.settles hstops
    refine ⟨front, t :: after, rfl, .refused rfl, completes_of ⟨e, hd.toSum⟩, fun rest' _ hh => ?_⟩
    obtain ⟨least, hsettles⟩ := hsettles rest' hh
    obtain ⟨vs, rfl⟩ := List.head?_eq_some_iff.mp hh
    exact ⟨least, fun d hd => ⟨_, htrailing (hsettles d hd)⟩⟩

theorem not_derives_of_fails {ts : List Token} (h : Fails full ts) :
    ∀ e, ¬ Derives .sum ts e := by
  intro e hd
  obtain ⟨depth, hok⟩ := full_of_derives hd
  exact h.not_ok (fun hle => full_refines hle ts) depth hok

/-- The stop is as early as can be for tokens that are to make a statement. -/
def Earliest (tokens : List Token) (stop : Stop) : Prop :=
  ∃ front rest, tokens = front ++ rest ∧ Placed front rest stop ∧ Completes (∃ st, Reads · st) front
    ∧ ∀ rest', rest ≠ [] → rest'.head? = rest.head? → ∀ st, ¬ Reads (front ++ rest') st

theorem earliest_of_assignment {depth : Nat} {n q : Token} {ts : List Token} {stop : Stop}
    (hn : n.kind = .identifier) (hq : q.kind = .equal) (hs : Syntactic stop)
    (h : full depth ts = .error stop) : Earliest (n :: q :: ts) stop := by
  obtain ⟨front, rest, rfl, hplaced, ⟨fill, hv, e, hd⟩, hfails⟩ := full_stuck hs h
  refine ⟨n :: q :: front, rest, rfl, hplaced.append [n, q], ⟨fill, hv, _, .assign hn hq hd⟩,
    fun rest' hne hh st hreads => ?_⟩
  cases hreads with
  | assign _ _ hd' => exact not_derives_of_fails (hfails rest' hne hh) _ hd'
  | expression hd' => exact hd'.no_equal q (by simp) hq

/-- Tokens that do not start like an assignment never become one by what follows the stop: it comes
after their second token, or the first of them is no name. -/
theorem earliest_of_expression {depth : Nat} {tokens : List Token} {stop : Stop}
    (ha : assignment? tokens = none) (hs : Syntactic stop) (h : full depth tokens = .error stop) :
    Earliest tokens stop := by
  obtain ⟨front, rest, rfl, hplaced, ⟨fill, hv, e, hd⟩, hfails⟩ := full_stuck hs h
  refine ⟨front, rest, rfl, hplaced, ⟨fill, hv, _, .expression hd⟩, ?_⟩
  intro rest' hne hh st hreads
  generalize hts : front ++ rest' = ts at hreads
  cases hreads with
  | @assign n q us e hn hq hd' =>
    rcases front with _ | ⟨a, front⟩
    · rw [List.nil_append] at hts
      have hname : Fails full ([] ++ [n]) := hfails [n] hne (by rw [← hh, hts]; rfl)
      have hd : Derives .sum [n] (.name n.lexeme) := (Derives.name hn).toSum
      exact not_derives_of_fails hname _ hd
    · rw [List.cons_append, List.cons.injEq] at hts
      obtain ⟨rfl, hts⟩ := hts
      have hsecond : (front ++ rest).head? = some q := by
        rw [List.head?_append, ← hh, ← List.head?_append, hts, List.head?_cons]
      obtain ⟨vs, hvs⟩ := List.head?_eq_some_iff.mp hsecond
      simp [List.cons_append, hvs, assignment?, hn, hq] at ha
  | expression hd' =>
    rw [← hts] at hd'
    exact not_derives_of_fails (hfails rest' hne hh) _ hd'

theorem statement_earliest {depth : Nat} {tokens : List Token} {stop : Stop} (hs : Syntactic stop)
    (h : statement depth tokens = .error stop) : Earliest tokens stop := by
  have of_map {α : Type} {g : Expr → α} {ts : List Token}
      (hmap : (full depth ts).map g = .error stop) : full depth ts = .error stop := by
    rcases hf : full depth ts with stop' | e <;> rw [hf] at hmap <;> cases hmap
    rfl
  rcases ha : assignment? tokens with _ | ⟨x, ts⟩
  · rcases tokens with _ | ⟨t, ts⟩
    · cases h
      refine ⟨[], [], rfl, .ended, completes_number fun t v hk hv => ?_,
        fun _ hne _ => absurd rfl hne⟩
      exact ⟨_, .expression (Derives.number hk hv).toSum⟩
    · rw [statement_expression (by simp) ha] at h
      exact earliest_of_expression ha hs (of_map h)
  · obtain ⟨n, q, rfl, hn, hq, rfl⟩ := assignment?_cases ha
    rw [statement_assign hn hq] at h
    exact earliest_of_assignment hn hq hs (of_map h)

end Parser

namespace Statement

open Reckoner.Parser

/-- Tokens that carry their values and make no statement are refused at the earliest place: those
before it go on to a statement, and together with the next token they no longer do. The fault is
laid there, or, for a bracket that is not closed, at the innermost one that is open there. -/
theorem ofTokens_error_earliest {depth : Nat} {tokens : List Token} {e : ParseError}
    (hv : Valued tokens) (h : ofTokens depth tokens = .error e) (hdeep : e.fault ≠ .tooDeep) :
    ∃ k ≤ tokens.length,
      (∃ more st, Valued more ∧ Reads (tokens.take k ++ more) st)
      ∧ (k < tokens.length → ∀ more st, ¬ Reads (tokens.take (k + 1) ++ more) st)
      ∧ match e.fault with
        | .endOfInput => e.index = k ∧ k = tokens.length
        | .unexpectedOperator _ | .trailing _ | .notCallable => e.index = k ∧ k < tokens.length
        | .unclosedBracket => (openBrackets (tokens.take k)).head? = some e.index
        | .tooDeep | .unreadableNumber _ => False := by
  rw [ofTokens_eq] at h
  rcases hst : statement depth tokens with stop | st <;> rw [hst] at h <;> cases h
  have hs : Syntactic stop := ⟨hdeep, statement_legible hv stop hst⟩
  have hindex : (errorAt tokens stop).index = tokens.length - stop.remaining := if_neg hs.1
  obtain ⟨front, rest, rfl, hplaced, ⟨fill, hfill, st, hreads⟩, hnone⟩ := statement_earliest hs hst
  refine ⟨front.length, by simp, ⟨fill, st, hfill, by rwa [List.take_left]⟩, fun hlt => ?_, ?_⟩
  · intro more st hst
    rcases rest with _ | ⟨t, rest⟩
    · simp at hlt
    · rw [List.take_length_add_append, List.take_succ_cons, List.take_zero,
        List.append_assoc] at hst
      exact hnone ([t] ++ more) (by simp) rfl st hst
  · rw [hindex, List.length_append, List.take_left]
    cases hplaced with
    | ended => simp [errorAt]
    | @refused fault t rest hf =>
      have hplace : front.length + (t :: rest).length - (rest.length + 1) = front.length := by
        simp
      cases fault with
      | unexpectedOperator | trailing | notCallable => exact ⟨hplace, by simp⟩
      | _ => simp [refusesToken] at hf
    | @unclosed outer inner rest o hfront ho hinner =>
      have hplace : front.length + rest.length - (inner.length + rest.length + 1)
          = outer.length := by
        rw [hfront, List.length_append, List.length_cons]
        omega
      have hopen : (openBrackets front).head? = some outer.length := by
        rw [openBrackets, hfront, openFrom_append, openFrom_open ho, hinner, List.head?_cons,
          Nat.zero_add]
      simpa only [errorAt, hplace] using hopen

/-- In `x*(a+(b)y` no `y` can follow `(b)`, and the bracket at place 2 is still open. -/
theorem ofTokens_error_earliest_unclosed :
    let tokens : List Token :=
      [⟨.identifier, "x", 0, none⟩, ⟨.star, "*", 1, none⟩, ⟨.bracketOpen, "(", 2, none⟩,
        ⟨.identifier, "a", 3, none⟩, ⟨.plus, "+", 4, none⟩, ⟨.bracketOpen, "(", 5, none⟩,
        ⟨.identifier, "b", 6, none⟩, ⟨.bracketClose, ")", 7, none⟩, ⟨.identifier, "y", 8, none⟩]
    let e : ParseError := ⟨.unclosedBracket, tokens, 2⟩
    Valued tokens ∧ ofTokens 1000 tokens = .error e ∧ e.fault ≠ .tooDeep
      ∧ ∃ k ≤ 9, (openBrackets (tokens.take k)).head? = some 2
        ∧ ∃ more st, Reads (tokens.take k ++ more) st := by
  intro tokens e
  have hv : Valued tokens := by simp [tokens, Valued]
  have h : ofTokens 1000 tokens = .error e := rfl
  obtain ⟨k, hk, ⟨more, st, -, hreads⟩, -, hopen⟩ := ofTokens_error_earliest hv h (by decide)
  exact ⟨hv, h, by decide, k, hk, hopen, more, st, hreads⟩

end Statement

end Reckoner
