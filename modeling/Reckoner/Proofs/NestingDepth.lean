import Reckoner.Proofs.ParserGrammar

/-!
# How deep the parser goes

Reading goes deeper at brackets, at signs before an operand and to the right of operators. Between
two brackets at most one sum and one product are open to the right, and neither is behind a sign or
a caret (`openRights`), so depth is used up by the tokens that open something new and by no others:
five levels for a bracket, two for a sign and one for a caret (`load`). A depth of four more is
never too small (`roomy`), however long the chains of operators are.
-/

namespace Reckoner

/-- Whether an operand can end with a token of the kind. -/
def TokenKind.endsOperand : TokenKind → Bool
  | number | identifier | bang | bracketClose => true
  | _ => false

namespace Parser

/-- How many of the tokens are signs in front of an operand: those that do not stand right behind
its end. `ended` says whether an operand ends just before the first of the tokens. -/
def leadingSigns (ended : Bool) : List Token → Nat
  | [] => 0
  | t :: ts =>
    (if (t.kind = .plus ∨ t.kind = .minus) ∧ ended = false then 1 else 0)
      + leadingSigns t.kind.endsOperand ts

/-- The levels that the tokens can take up. -/
def load (ended : Bool) (ts : List Token) : Nat :=
  5 * ts.countP (·.kind = .bracketOpen) + 2 * leadingSigns ended ts + ts.countP (·.kind = .caret)

/-- The operators that can be open to the right of each other in an expression of the given power:
a sum and a product in it, or a product alone, or none. -/
def openRights (power : Nat) : Nat :=
  if power ≤ 1 then 2 else if power ≤ 3 then 1 else 0

/-- What a token adds to the load. -/
def share (ended : Bool) : TokenKind → Nat
  | .bracketOpen => 5
  | .plus | .minus => if ended then 0 else 2
  | .caret => 1
  | _ => 0

theorem load_cons (ended : Bool) (t : Token) (ts : List Token) :
    load ended (t :: ts) = share ended t.kind + load t.kind.endsOperand ts := by
  rw [load, load, leadingSigns, List.countP_cons, List.countP_cons]
  cases t.kind <;> cases ended <;> simp [share] <;> omega

/-- Tokens that are left weigh no more than all of them, wherever reading goes on. -/
theorem load_append_le (us : List Token) :
    ∀ (ts : List Token) (ended : Bool), load true us ≤ load ended (ts ++ us)
  | [], ended => by
    rcases us with _ | ⟨u, us⟩
    · simp [load, leadingSigns]
    · have hshare : share true u.kind ≤ share ended u.kind := by
        cases u.kind <;> cases ended <;> simp [share]
      rw [List.nil_append, load_cons, load_cons]
      omega
  | t :: ts, ended => by
    have ih := load_append_le us ts t.kind.endsOperand
    rw [List.cons_append, load_cons]
    omega

theorem openRights_anti {p q : Nat} (h : p ≤ q) : openRights q ≤ openRights p := by
  grind [openRights]

/-- To the right of an operator fewer operators can be open, unless it is a caret. -/
theorem openRights_right {kind : TokenKind} {op : BinaryOp} {power l r : Nat}
    (hop : binaryOp? kind = some (op, l, r)) (hl : power ≤ l) :
    openRights r + 1 ≤ openRights power + share true kind ∧ kind.endsOperand = false := by
  have hle := openRights_anti hl
  have htable : openRights r + 1 ≤ openRights l + share true kind ∧ kind.endsOperand = false := by
    cases kind <;> simp only [binaryOp?, reduceCtorEq, Option.some.injEq, Prod.mk.injEq] at hop <;>
      obtain ⟨-, rfl, rfl⟩ := hop <;> decide
  exact ⟨by omega, htable.2⟩

theorem share_of_sign {kind : TokenKind} {op : UnaryOp} (h : sign? kind = some op) :
    share false kind = 2 ∧ kind.endsOperand = false := by
  cases kind <;> cases h <;> exact ⟨rfl, rfl⟩

/-- The outcome is not for want of depth. -/
def Roomy {α : Type} (r : Except Stop α) : Prop := ∀ n, r ≠ .error ⟨.tooDeep, n⟩

namespace Roomy

variable {α β : Type} {r : Except Stop α} {f : α → Except Stop β}

theorem ok (a : α) : Roomy (.ok a) := by
  intro n h
  cases h

theorem error {stop : Stop} (h : stop.fault ≠ .tooDeep) : Roomy (.error stop : Except Stop α) := by
  rintro n ⟨⟩
  exact h rfl

theorem bind (h : Roomy r) (hf : ∀ a, r = .ok a → Roomy (f a)) : Roomy (r >>= f) := by
  rcases r with stop | a
  · rintro n ⟨⟩
    exact h n rfl
  · exact hf a rfl

theorem map (h : Roomy r) (g : α → β) : Roomy (r.map g) := by
  rcases r with stop | a
  · rintro n ⟨⟩
    exact h n rfl
  · exact ok _

end Roomy

/-- With a depth that covers the load of what is left, no turn of a chain is too deep. -/
theorem chain_roomy {depth : Nat} (power : Nat)
    (he : ∀ p ts, openRights p + load false ts + 2 ≤ depth → Roomy (expression depth p ts))
    (hb : ∀ o ts, load false ts + 5 ≤ depth → Roomy (bracketed depth (o :: ts))) :
    ∀ (turns : Nat) (left : Expr) (tokens : List Token),
      openRights power + load true tokens + 1 ≤ depth →
      Roomy (chain (expression depth) (bracketed depth) power turns left tokens)
  | 0, left, tokens, _ => .ok _
  | turns + 1, left, [], _ => .ok _
  | turns + 1, left, t :: tokens, hd => by
    have ih := chain_roomy power he hb turns
    rw [load_cons] at hd
    rcases turn power left t with hs | ⟨hk, hp⟩ | ⟨f, rfl, hk, hp⟩ | ⟨hl, hk, hp⟩ |
      ⟨op, l, r, hop, hl⟩
    · rw [chain_of_stops (stops_cons.mpr hs)]
      exact .ok _
    · rw [chain_factorial hk hp]
      rw [hk] at hd
      exact ih _ _ (by simpa [share, TokenKind.endsOperand] using hd)
    · rw [chain_call hk hp]
      rw [hk] at hd
      simp only [share, TokenKind.endsOperand] at hd
      refine (hb t tokens (by omega)).bind fun (e, after) ho => ih _ _ ?_
      obtain ⟨inner, c, rfl, -, -⟩ := (sound depth).2.2 t tokens e after ho
      have hle := load_append_le after (inner ++ [c]) false
      rw [List.append_assoc, List.singleton_append] at hle
      omega
    · rw [chain_refuse hl hk hp]
      exact .error (by simp)
    · rw [chain_binary hop hl]
      obtain ⟨hopen, hends⟩ := openRights_right hop hl
      rw [hends] at hd
      refine (he r tokens (by omega)).bind fun (e, after) ho => ih _ _ ?_
      obtain ⟨⟨c, front, rfl, -⟩, -⟩ := (sound depth).1 r (rightPower_le hop) tokens e after ho
      have hle := load_append_le after front false
      omega

/-- What depth is enough for the three ways of reading. -/
theorem roomy :
    ∀ depth,
      (∀ power ts, openRights power + load false ts + 2 ≤ depth →
        Roomy (expression depth power ts))
      ∧ (∀ ts, load false ts + 1 ≤ depth → Roomy (operand depth ts))
      ∧ ∀ o ts, load false ts + 5 ≤ depth → Roomy (bracketed depth (o :: ts))
  | 0 => by simp
  | depth + 1 => by
    obtain ⟨ihe, iho, ihb⟩ := roomy depth
    refine ⟨fun power ts hd => ?_, fun ts hd => ?_, fun o ts hd => ?_⟩
    · refine (iho ts (by omega)).bind fun (left, rest) ho => chain_roomy power ihe ihb _ _ _ ?_
      obtain ⟨c, front, rfl, -⟩ := (sound depth).2.1 ts left rest ho
      have hle := load_append_le rest front false
      omega
    · rcases ts with _ | ⟨t, ts⟩
      · exact .error (by simp)
      rw [load_cons] at hd
      rcases start t with ⟨op, hs⟩ | ⟨v, hk, hv⟩ | ⟨fault, hk, hv⟩ | hk | hk | hk
      · rw [operand_sign hs]
        obtain ⟨hshare, hends⟩ := share_of_sign hs
        have hnone : openRights signPower = 0 := rfl
        rw [hshare, hends] at hd
        exact (ihe signPower ts (by omega)).bind fun _ _ => .ok _
      · rw [operand_number hk hv]
        exact .ok _
      · rw [operand_unreadable hk hv]
        refine .error ?_
        rw [numberValue_error hv]
        simp
      · rw [operand_name hk]
        exact .ok _
      · rw [operand_bracket hk]
        rw [hk] at hd
        simp only [share, TokenKind.endsOperand] at hd
        exact ihb t ts (by omega)
      · rw [operand_refuse hk]
        exact .error (by simp)
    · have hboth : openRights 0 = 2 := rfl
      refine (ihe 0 ts (by omega)).bind fun (e, rest) _ => ?_
      rcases rest with _ | ⟨c, rest⟩
      · exact .error (by simp)
      · simp only
        split
        · exact .ok _
        · exact .error (by simp)

theorem statement_roomy {depth : Nat} {tokens : List Token}
    (hd : load false tokens + 4 ≤ depth) : Roomy (statement depth tokens) := by
  have hfull {ts : List Token} (hts : load false ts + 4 ≤ depth) : Roomy (full depth ts) := by
    have hboth : openRights 0 = 2 := rfl
    refine ((roomy depth).1 0 ts (by omega)).bind fun (e, rest) _ => ?_
    rcases rest with _ | ⟨t, rest⟩
    · exact .ok _
    · exact .error (by simp)
  rcases statement_cases tokens with ⟨-, hs⟩ | ⟨n, q, ts, rfl, hn, hq, hs⟩ | hs <;> rw [hs]
  · exact .error (by simp)
  · rw [load_cons, load_cons, hn, hq] at hd
    exact (hfull (by simpa [share, TokenKind.endsOperand] using hd)).map _
  · exact (hfull hd).map _

end Parser

namespace Statement

open Reckoner.Parser

/-- The limit on depth only replaces what comes of the tokens: where it does not strike, a larger
one changes nothing. It does not strike at all if it leaves five levels for each bracket, two for
each leading sign, one for each caret, and four. -/
theorem ofTokens_depth_only_replaces (depth : Nat) (tokens : List Token) :
    (∀ depth' ≥ depth, (∀ e, ofTokens depth tokens = .error e → e.fault ≠ .tooDeep) →
      ofTokens depth' tokens = ofTokens depth tokens)
    ∧ (4 + 5 * tokens.countP (·.kind = .bracketOpen) + 2 * leadingSigns false tokens
        + tokens.countP (·.kind = .caret) ≤ depth →
      ∀ e, ofTokens depth tokens = .error e → e.fault ≠ .tooDeep) := by
  refine ⟨fun depth' hle hnot => ?_, fun hd e he hdeep => ?_⟩
  · rcases statement_refines hle tokens with ⟨n, hdeep⟩ | heq
    · refine absurd rfl (hnot (errorAt tokens ⟨.tooDeep, n⟩) ?_)
      rw [ofTokens_eq, hdeep]
      rfl
    · rw [ofTokens_eq, ofTokens_eq, heq]
  · have hroomy : Roomy (statement depth tokens) := statement_roomy (by unfold load; omega)
    rw [ofTokens_eq] at he
    rcases hs : statement depth tokens with ⟨fault, n⟩ | st <;> rw [hs] at he <;> cases he
    obtain rfl : fault = .tooDeep := hdeep
    exact hroomy n hs

/-- The tokens of `a+b*(c+d*-e^f)` need all of the twelve levels. -/
theorem ofTokens_depth_only_replaces_twelve :
    let tokens : List Token :=
      [⟨.identifier, "a", 0, none⟩, ⟨.plus, "+", 1, none⟩, ⟨.identifier, "b", 2, none⟩,
        ⟨.star, "*", 3, none⟩, ⟨.bracketOpen, "(", 4, none⟩, ⟨.identifier, "c", 5, none⟩,
        ⟨.plus, "+", 6, none⟩, ⟨.identifier, "d", 7, none⟩, ⟨.star, "*", 8, none⟩,
        ⟨.minus, "-", 9, none⟩, ⟨.identifier, "e", 10, none⟩, ⟨.caret, "^", 11, none⟩,
        ⟨.identifier, "f", 12, none⟩, ⟨.bracketClose, ")", 13, none⟩]
    4 + 5 * tokens.countP (·.kind = .bracketOpen) + 2 * leadingSigns false tokens
        + tokens.countP (·.kind = .caret) = 12
      ∧ ofTokens 11 tokens = .error ⟨.tooDeep, tokens, 0⟩
      ∧ (∀ e, ofTokens 12 tokens = .error e → e.fault ≠ .tooDeep)
      ∧ ofTokens 1000 tokens = ofTokens 12 tokens := by
  intro tokens
  obtain ⟨hmore, hnever⟩ := ofTokens_depth_only_replaces 12 tokens
  have htwelve := hnever (by decide)
  exact ⟨by decide, rfl, htwelve, hmore 1000 (by decide) htwelve⟩

end Statement

end Reckoner
