import Reckoner.Proofs.Failures

/-!
# The steps of the parser

A turn of a chain looks at one token and does one of five things (`turn`), each with its own
equation. A chain ends where the next token does not bind tightly enough (`Stops`).

More depth only replaces failures for want of depth (`expression_refines`): what is read with some
depth is read in the same way with any larger one, and so is every other failure.
-/

namespace Reckoner

namespace Parser

/-- How tightly a token takes the expression before it. Other tokens end an expression. -/
def leftPower? : TokenKind → Option Nat
  | .bang | .bracketOpen => some suffixPower
  | kind => (binaryOp? kind).map fun (_, left, _) => left

/-- The first of the tokens does not bind as tightly as `power`. -/
def Stops (power : Nat) (tokens : List Token) : Prop :=
  ∀ t ∈ tokens.head?, ∀ q ∈ leftPower? t.kind, q < power

theorem stops_nil (power : Nat) : Stops power [] := by simp [Stops]

theorem stops_cons {power : Nat} {t : Token} {rest : List Token} :
    Stops power (t :: rest) ↔ ∀ q ∈ leftPower? t.kind, q < power := by
  simp [Stops]

theorem Stops.mono {p q : Nat} {tokens : List Token} (h : Stops p tokens) (hpq : p ≤ q) :
    Stops q tokens :=
  fun t ht k hk => Nat.lt_of_lt_of_le (h t ht k hk) hpq

theorem leftPower?_cases {kind : TokenKind} {q : Nat} (h : leftPower? kind = some q) :
    q = 1 ∨ q = 3 ∨ q = 8 ∨ q = 9 := by
  cases kind <;> simp_all [leftPower?, binaryOp?, suffixPower]

/-- Nothing binds tighter than a suffix. -/
theorem stops_ten (tokens : List Token) : Stops 10 tokens := by
  intro t _ q hq
  rcases leftPower?_cases hq with rfl | rfl | rfl | rfl <;> decide

theorem stops_of_close {t : Token} (h : t.kind = .bracketClose) (power : Nat) (rest : List Token) :
    Stops power (t :: rest) := by
  rw [stops_cons, h]
  simp [leftPower?, binaryOp?]

/-- Between products and powers no token binds to its left. -/
theorem Stops.four {tokens : List Token} (h : Stops 8 tokens) : Stops 4 tokens := by
  intro t ht q hq
  have hlt := h t ht q hq
  rcases leftPower?_cases hq with rfl | rfl | rfl | rfl <;> omega

/-- What a turn of a chain does with the expression `left` and the token `t` after it. -/
inductive Turn (power : Nat) (left : Expr) (t : Token) : Prop where
  | stop : (∀ q ∈ leftPower? t.kind, q < power) → Turn power left t
  | factorial : t.kind = .bang → power ≤ suffixPower → Turn power left t
  | call (f : String) : left = .name f → t.kind = .bracketOpen → power ≤ suffixPower →
      Turn power left t
  | refuse : (∀ f, left ≠ .name f) → t.kind = .bracketOpen → power ≤ suffixPower →
      Turn power left t
  | binary (op : BinaryOp) (l r : Nat) : binaryOp? t.kind = some (op, l, r) → power ≤ l →
      Turn power left t

theorem leftPower?_of_binaryOp? {kind : TokenKind} {op : BinaryOp} {l r : Nat}
    (h : binaryOp? kind = some (op, l, r)) : leftPower? kind = some l := by
  cases kind <;> simp_all [leftPower?, binaryOp?]

theorem rightPower_le {kind : TokenKind} {op : BinaryOp} {l r : Nat}
    (h : binaryOp? kind = some (op, l, r)) : r ≤ 7 := by
  cases kind <;> simp [binaryOp?] at h <;> omega

theorem turn (power : Nat) (left : Expr) (t : Token) : Turn power left t := by
  rcases hq : leftPower? t.kind with _ | q
  · exact .stop (by simp [hq])
  rcases Nat.lt_or_ge q power with hlt | hle
  · exact .stop (by simpa [hq] using hlt)
  rcases hb : binaryOp? t.kind with _ | ⟨op, l, r⟩
  · cases hk : t.kind <;> rw [hk] at hq hb <;> simp [leftPower?, binaryOp?] at hq hb <;> subst hq
    · exact .factorial hk hle
    · by_cases hf : ∃ f, left = .name f
      · obtain ⟨f, hf⟩ := hf
        exact .call f hf hk hle
      · exact .refuse (fun f h => hf ⟨f, h⟩) hk hle
  · rw [leftPower?_of_binaryOp? hb, Option.some.injEq] at hq
    exact .binary op l r hb (hq ▸ hle)

section Chain

variable {right : Nat → List Token → Parsed} {argument : List Token → Parsed} {power turns : Nat}
  {left : Expr} {t : Token} {rest : List Token}

theorem chain_of_stops {tokens : List Token} (h : Stops power tokens) :
    chain right argument power turns left tokens = .ok (left, tokens) := by
  rcases turns with _ | turns
  · rfl
  rcases tokens with _ | ⟨t, rest⟩
  · rfl
  have hs := stops_cons.mp h
  unfold chain
  split
  · rename_i hk
    rw [if_pos (hs _ (by rw [hk]; rfl))]
  · rename_i hk
    rw [if_pos (hs _ (by rw [hk]; rfl))]
  · split
    · rfl
    · rename_i op l r hb
      rw [if_pos (hs l (leftPower?_of_binaryOp? hb))]

theorem chain_factorial (hk : t.kind = .bang) (hp : power ≤ suffixPower) :
    chain right argument power (turns + 1) left (t :: rest)
      = chain right argument power turns (.unary .factorial left) rest := by
  rw [chain.eq_def]
  simp only [hk, if_neg (Nat.not_lt.mpr hp)]

theorem chain_call {f : String} (hk : t.kind = .bracketOpen) (hp : power ≤ suffixPower) :
    chain right argument power (turns + 1) (.name f) (t :: rest)
      = argument (t :: rest) >>= fun (e, after) =>
        chain right argument power turns (.call f e) after := by
  rw [chain.eq_def]
  simp only [hk, if_neg (Nat.not_lt.mpr hp)]

theorem chain_refuse (hl : ∀ f, left ≠ .name f) (hk : t.kind = .bracketOpen)
    (hp : power ≤ suffixPower) :
    chain right argument power (turns + 1) left (t :: rest)
      = .error ⟨.notCallable, rest.length + 1⟩ := by
  rw [chain.eq_def]
  simp only [hk, if_neg (Nat.not_lt.mpr hp)]

theorem chain_binary {op : BinaryOp} {l r : Nat} (hb : binaryOp? t.kind = some (op, l, r))
    (hp : power ≤ l) :
    chain right argument power (turns + 1) left (t :: rest)
      = right r rest >>= fun (e, after) =>
        chain right argument power turns (.binary op left e) after := by
  rw [chain.eq_def]
  simp only
  split
  · rename_i hk
    simp [hk, binaryOp?] at hb
  · rename_i hk
    simp [hk, binaryOp?] at hb
  · simp only [hb, if_neg (Nat.not_lt.mpr hp)]

end Chain

/-- How an operand starts with the token `t`. -/
inductive Start (t : Token) : Prop where
  | sign (op : UnaryOp) : sign? t.kind = some op → Start t
  | number (v : Double) : t.kind = .number → numberValue t = .ok v → Start t
  | unreadable (fault : ParseFault) : t.kind = .number → numberValue t = .error fault → Start t
  | name : t.kind = .identifier → Start t
  | bracket : t.kind = .bracketOpen → Start t
  | refuse : t.kind = .star ∨ t.kind = .slash ∨ t.kind = .caret ∨ t.kind = .bang
      ∨ t.kind = .bracketClose ∨ t.kind = .equal → Start t

theorem start (t : Token) : Start t := by
  cases hk : t.kind with
  | number =>
    rcases hv : numberValue t with fault | v
    · exact .unreadable fault hk hv
    · exact .number v hk hv
  | identifier => exact .name hk
  | plus => exact .sign .plus (by rw [hk]; rfl)
  | minus => exact .sign .minus (by rw [hk]; rfl)
  | bracketOpen => exact .bracket hk
  | _ => exact .refuse (by simp [hk])

theorem numberValue_error {t : Token} {fault : ParseFault} (h : numberValue t = .error fault) :
    fault = .unreadableNumber t.lexeme := by
  unfold numberValue at h
  split at h
  · cases h
  · split at h <;> cases h
    rfl

section Operand

variable {depth : Nat} {t : Token} {rest : List Token}

theorem operand_sign {op : UnaryOp} (h : sign? t.kind = some op) :
    operand (depth + 1) (t :: rest) = expression depth signPower rest >>= fun (e, after) =>
      .ok (.unary op e, after) := by
  simp only [operand, h]
  rfl

theorem operand_number {v : Double} (hk : t.kind = .number) (hv : numberValue t = .ok v) :
    operand (depth + 1) (t :: rest) = .ok (.number v, rest) := by
  simp [operand, hk, hv, sign?]

theorem operand_unreadable {fault : ParseFault} (hk : t.kind = .number)
    (hv : numberValue t = .error fault) :
    operand (depth + 1) (t :: rest) = .error ⟨fault, rest.length + 1⟩ := by
  simp [operand, hk, hv, sign?]

theorem operand_name (hk : t.kind = .identifier) :
    operand (depth + 1) (t :: rest) = .ok (.name t.lexeme, rest) := by
  simp [operand, hk, sign?]

theorem operand_bracket (hk : t.kind = .bracketOpen) :
    operand (depth + 1) (t :: rest) = bracketed depth (t :: rest) := by
  simp [operand, hk, sign?]

theorem operand_refuse
    (hk : t.kind = .star ∨ t.kind = .slash ∨ t.kind = .caret ∨ t.kind = .bang
      ∨ t.kind = .bracketClose ∨ t.kind = .equal) :
    operand (depth + 1) (t :: rest) = .error ⟨.unexpectedOperator t.lexeme, rest.length + 1⟩ := by
  rcases hk with hk | hk | hk | hk | hk | hk <;> simp [operand, hk, sign?]

end Operand

/-- The second outcome is the first, unless the first is for want of depth. -/
def Refines {α : Type} (r r' : Except Stop α) : Prop :=
  (∃ n, r = .error ⟨.tooDeep, n⟩) ∨ r' = r

namespace Refines

variable {α β : Type} {r r' r'' : Except Stop α} {f f' : α → Except Stop β}

theorem refl (r : Except Stop α) : Refines r r := Or.inr rfl

theorem trans (h : Refines r r') (h' : Refines r' r'') : Refines r r'' := by
  rcases h with h | rfl
  · exact Or.inl h
  · exact h'

theorem bind (h : Refines r r') (hf : ∀ a, Refines (f a) (f' a)) :
    Refines (r >>= f) (r' >>= f') := by
  rcases h with ⟨n, rfl⟩ | rfl
  · exact Or.inl ⟨n, rfl⟩
  · rcases r' with stop | a
    · exact Or.inr rfl
    · exact hf a

theorem map (h : Refines r r') (g : α → β) : Refines (r.map g) (r'.map g) := by
  rcases h with ⟨n, rfl⟩ | rfl
  · exact Or.inl ⟨n, rfl⟩
  · exact .refl _

theorem eq_ok {a : α} (h : Refines (.ok a) r) : r = .ok a := by
  rcases h with ⟨n, h⟩ | h
  · cases h
  · exact h

end Refines

theorem chain_refines {right right' : Nat → List Token → Parsed}
    {argument argument' : List Token → Parsed} (power : Nat)
    (hr : ∀ p ts, Refines (right p ts) (right' p ts))
    (ha : ∀ ts, Refines (argument ts) (argument' ts)) :
    ∀ (turns : Nat) (left : Expr) (tokens : List Token),
      Refines (chain right argument power turns left tokens)
        (chain right' argument' power turns left tokens)
  | 0, left, tokens => .refl _
  | turns + 1, left, [] => .refl _
  | turns + 1, left, t :: rest => by
    have ih := chain_refines power hr ha turns
    rcases turn power left t with hs | ⟨hk, hp⟩ | ⟨f, rfl, hk, hp⟩ | ⟨hl, hk, hp⟩ |
      ⟨op, l, r, hb, hp⟩
    · rw [chain_of_stops (stops_cons.mpr hs), chain_of_stops (stops_cons.mpr hs)]
      exact .refl _
    · rw [chain_factorial hk hp, chain_factorial hk hp]
      exact ih _ _
    · rw [chain_call hk hp, chain_call hk hp]
      exact (ha _).bind fun _ => ih _ _
    · rw [chain_refuse hl hk hp, chain_refuse hl hk hp]
      exact .refl _
    · rw [chain_binary hb hp, chain_binary hb hp]
      exact (hr _ _).bind fun _ => ih _ _

/-- One more level only replaces failures for want of depth. -/
theorem refines_succ :
    ∀ depth, (∀ power ts, Refines (expression depth power ts) (expression (depth + 1) power ts))
      ∧ (∀ ts, Refines (operand depth ts) (operand (depth + 1) ts))
      ∧ ∀ ts, Refines (bracketed depth ts) (bracketed (depth + 1) ts)
  | 0 => ⟨fun _ _ => Or.inl ⟨_, rfl⟩, fun _ => Or.inl ⟨_, rfl⟩, fun _ => Or.inl ⟨_, rfl⟩⟩
  | depth + 1 => by
    obtain ⟨ihe, iho, ihb⟩ := refines_succ depth
    refine ⟨fun power ts => ?_, fun ts => ?_, fun ts => ?_⟩
    · exact (iho ts).bind fun (left, rest) => chain_refines power ihe ihb rest.length left rest
    · rcases ts with _ | ⟨t, rest⟩
      · exact .refl _
      rcases start t with ⟨op, hs⟩ | ⟨v, hk, hv⟩ | ⟨fault, hk, hv⟩ | hk | hk | hk
      · rw [operand_sign hs, operand_sign hs]
        exact (ihe _ _).bind fun _ => .refl _
      · rw [operand_number hk hv, operand_number hk hv]
        exact .refl _
      · rw [operand_unreadable hk hv, operand_unreadable hk hv]
        exact .refl _
      · rw [operand_name hk, operand_name hk]
        exact .refl _
      · rw [operand_bracket hk, operand_bracket hk]
        exact ihb _
      · rw [operand_refuse hk, operand_refuse hk]
        exact .refl _
    · exact (ihe _ _).bind fun _ => .refl _

theorem expression_refines {depth depth' : Nat} (h : depth ≤ depth') (power : Nat)
    (ts : List Token) : Refines (expression depth power ts) (expression depth' power ts) := by
  induction h with
  | refl => exact .refl _
  | step _ ih => exact ih.trans ((refines_succ _).1 power ts)

end Parser

end Reckoner
