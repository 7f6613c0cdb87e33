import Reckoner.Proofs.ParserGrammar

/-!
# The parser looks one token ahead

What the parser reads depends on the tokens that it takes and on the kind of the one behind them
(`OneAhead`). Only a chain looks at that token, and it asks no more than whether it binds tightly
enough, so with another token of its kind there, or with none, the chain stops all the same
(`Stops.alike`). Readings that follow each other hand this on (`OneAhead.bind`): to the first of
them the token behind it is one of those that the second takes, if that takes any.
-/

namespace Reckoner

namespace Parser

variable {depth power : Nat} {t : Token} {tokens rest rest' : List Token} {left e : Expr}

/-- There are no tokens in `rest'`, or its first one is of the kind of the first one in `rest`. -/
def Alike (rest rest' : List Token) : Prop :=
  ∀ t ∈ rest'.head?, ∃ u ∈ rest.head?, t.kind = u.kind

theorem Alike.append (h : Alike rest rest') :
    ∀ front : List Token, Alike (front ++ rest) (front ++ rest')
  | [] => h
  | t :: front => by simp [Alike]

theorem Stops.alike (h : Stops power rest) (halike : Alike rest rest') : Stops power rest' := by
  intro t ht q hq
  obtain ⟨u, hu, hk⟩ := halike t ht
  exact h u hu q (hk ▸ hq)

/-- If `parse` reads an expression, it takes the tokens up to some of them, and whatever else stands
behind them, it reads the same if that starts alike. -/
def OneAhead (parse : List Token → Parsed) (tokens : List Token) : Prop :=
  ∀ e rest, parse tokens = .ok (e, rest) →
    ∃ front, tokens = front ++ rest
      ∧ ∀ rest', Alike rest rest' → parse (front ++ rest') = .ok (e, rest')

namespace OneAhead

variable {parse parse' : List Token → Parsed} {next : Expr × List Token → Parsed}

theorem of_error {stop : Stop} (h : parse tokens = .error stop) : OneAhead parse tokens := by
  intro e rest hp
  rw [h] at hp
  cases hp

/-- To give an expression without taking a token. -/
theorem give (e : Expr) (tokens : List Token) : OneAhead (fun ts => .ok (e, ts)) tokens := by
  rintro e rest ⟨⟩
  exact ⟨[], rfl, fun _ _ => rfl⟩

/-- To take a token and go on with those behind it. -/
theorem cons (heq : ∀ ts, parse' (t :: ts) = parse ts) (h : OneAhead parse tokens) :
    OneAhead parse' (t :: tokens) := by
  intro e rest hp
  obtain ⟨front, rfl, hsame⟩ := h e rest (heq tokens ▸ hp)
  refine ⟨t :: front, rfl, fun rest' halike => ?_⟩
  rw [List.cons_append, heq]
  exact hsame rest' halike

theorem bind (h : OneAhead parse tokens)
    (hnext : ∀ left mid, parse tokens = .ok (left, mid) →
      OneAhead (fun ts => next (left, ts)) mid) :
    OneAhead (fun ts => parse ts >>= next) tokens := by
  intro e rest hp
  obtain ⟨⟨left, mid⟩, hleft, hrest⟩ := bind_eq_ok_iff.mp hp
  obtain ⟨inner, rfl, hinner⟩ := hnext left mid hleft e rest hrest
  obtain ⟨front, rfl, hfront⟩ := h left _ hleft
  refine ⟨front ++ inner, by simp, fun rest' halike => ?_⟩
  simp only [List.append_assoc, hfront _ (halike.append inner)]
  exact hinner rest' halike

end OneAhead

/-- A chain with a turn for each token. -/
def goOn (depth power : Nat) (left : Expr) (tokens : List Token) : Parsed :=
  chain (expression depth) (bracketed depth) power tokens.length left tokens

theorem expression_succ (depth power : Nat) (tokens : List Token) :
    expression (depth + 1) power tokens
      = operand depth tokens >>= fun (left, rest) => goOn depth power left rest := by
  rw [expression]
  rfl

theorem goOn_of_stops (h : Stops power tokens) :
    goOn depth power left tokens = .ok (left, tokens) :=
  chain_of_stops h

theorem goOn_factorial (hk : t.kind = .bang) (hp : power ≤ suffixPower) :
    goOn depth power left (t :: rest) = goOn depth power (.unary .factorial left) rest :=
  chain_factorial hk hp

theorem goOn_call {f : String} (hk : t.kind = .bracketOpen) (hp : power ≤ suffixPower) :
    goOn depth power (.name f) (t :: rest)
      = bracketed depth (t :: rest) >>= fun (e, after) => goOn depth power (.call f e) after := by
  rw [goOn, List.length_cons, chain_call hk hp]
  rcases ha : bracketed depth (t :: rest) with stop | ⟨e, after⟩
  · rfl
  · obtain ⟨inner, c, rfl, -, -⟩ := (sound depth).2.2 t rest e after ha
    exact chain_turns (by simp; omega) (Nat.le_refl _)

theorem goOn_refuse (hl : ∀ f, left ≠ .name f) (hk : t.kind = .bracketOpen)
    (hp : power ≤ suffixPower) :
    goOn depth power left (t :: rest) = .error ⟨.notCallable, rest.length + 1⟩ :=
  chain_refuse hl hk hp

theorem goOn_binary {op : BinaryOp} {l r : Nat} (hb : binaryOp? t.kind = some (op, l, r))
    (hp : power ≤ l) :
    goOn depth power left (t :: rest)
      = expression depth r rest >>= fun (e, after) =>
        goOn depth power (.binary op left e) after := by
  rw [goOn, List.length_cons, chain_binary hb hp]
  rcases hr : expression depth r rest with stop | ⟨e, after⟩
  · rfl
  · obtain ⟨⟨c, front, rfl, -⟩, -⟩ := (sound depth).1 r (rightPower_le hb) rest e after hr
    exact chain_turns (by simp) (Nat.le_refl _)

/-- A chain that stops at once does so before any token of that kind. -/
theorem oneAhead_of_stops (h : Stops power tokens) : OneAhead (goOn depth power left) tokens := by
  intro e rest hp
  rw [goOn_of_stops h] at hp
  cases hp
  exact ⟨[], rfl, fun rest' halike => goOn_of_stops (h.alike halike)⟩

/-- A chain looks one token ahead if what it calls for does. -/
theorem oneAhead_goOn (he : ∀ p ts, OneAhead (expression depth p) ts)
    (hb : ∀ o ts, OneAhead (fun ts => bracketed depth (o :: ts)) ts) :
    ∀ (n : Nat) (left : Expr) (tokens : List Token), tokens.length ≤ n →
      OneAhead (goOn depth power left) tokens
  | n, left, [], _ => oneAhead_of_stops (stops_nil power)
  | 0, _, _ :: _, hn => by simp at hn
  | n + 1, left, t :: tokens, hn => by
    -- a turn takes one token or more and hands on to a chain over fewer
    have ih := oneAhead_goOn he hb n
    rw [List.length_cons, Nat.add_le_add_iff_right] at hn
    rcases turn power left t with hs | ⟨hk, hp⟩ | ⟨f, rfl, hk, hp⟩ | ⟨hl, hk, hp⟩ |
      ⟨op, l, r, hop, hp⟩
    · exact oneAhead_of_stops (stops_cons.mpr hs)
    · exact .cons (fun ts => goOn_factorial hk hp) (ih _ tokens hn)
    · refine .cons (fun ts => goOn_call hk hp) ((hb t tokens).bind fun e after ha => ?_)
      obtain ⟨front, rfl, -⟩ := hb t tokens e after ha
      exact ih _ _ (by simp at hn; omega)
    · exact .of_error (goOn_refuse hl hk hp)
    · refine .cons (fun ts => goOn_binary hop hp) ((he r tokens).bind fun e after hr => ?_)
      obtain ⟨front, rfl, -⟩ := he r tokens e after hr
      exact ih _ _ (by simp at hn; omega)

theorem oneAhead :
    ∀ depth,
      (∀ power ts, OneAhead (expression depth power) ts)
      ∧ (∀ ts, OneAhead (operand depth) ts)
      ∧ ∀ o ts, OneAhead (fun ts => bracketed depth (o :: ts)) ts
  | 0 => ⟨fun _ _ => .of_error rfl, fun _ => .of_error rfl, fun _ _ => .of_error rfl⟩
  | depth + 1 => by
    obtain ⟨ihe, iho, ihb⟩ := oneAhead depth
    refine ⟨fun power ts => ?_, fun ts => ?_, fun o ts e rest h => ?_⟩
    · exact (iho ts).bind fun left mid _ => oneAhead_goOn ihe ihb _ left mid (Nat.le_refl _)
    · rcases ts with _ | ⟨t, ts⟩
      · exact .of_error rfl
      rcases start t with ⟨op, hs⟩ | ⟨v, hk, hv⟩ | ⟨fault, hk, hv⟩ | hk | hk | hk
      · refine .cons (fun ts => operand_sign hs) ((ihe signPower ts).bind fun e after _ => ?_)
        exact .give (.unary op e) after
      · exact .cons (fun ts => operand_number hk hv) (.give _ ts)
      · exact .of_error (operand_unreadable hk hv)
      · exact .cons (fun ts => operand_name hk) (.give _ ts)
      · exact .cons (fun ts => operand_bracket hk) (ihb t ts)
      · exact .of_error (operand_refuse hk)
    · obtain ⟨c, he, hc⟩ := bracketed_cases.mp h
      obtain ⟨front, rfl, hsame⟩ := ihe 0 ts e _ he
      refine ⟨front ++ [c], by simp, fun rest' _ => bracketed_cases.mpr ⟨c, ?_, hc⟩⟩
      rw [List.append_assoc]
      exact hsame (c :: rest') (by simp [Alike])

end Parser

end Reckoner
