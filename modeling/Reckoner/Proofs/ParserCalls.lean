import Reckoner.Proofs.Lookahead
import Reckoner.Proofs.NestingDepth

/-!
# What the parser calls

An expression calls for operands, for brackets behind a name and for expressions on the right of
operators; an operand calls for brackets and for what a sign applies to; a bracket calls for the
expression in it. `plan` has the three functions with these calls left open, so that they can be
answered at any depth (`run_plan`) or without a limit on depth, and listed (`Plan.calls`).

Whoever answers, as long as every answer takes a token, each call starts behind the start of its
caller, or at the same token but one function further down (`below_of_mem_calls`). That cannot go on
for ever, so the limit on depth is needed for nothing: without one the calls have exactly one
answer, which is the one at any depth beyond the size of the call (`answer_settled`).
-/

namespace Reckoner

namespace Parser

/-- The tokens are taken up to `rest`, and at least one is. -/
def Consumes (tokens rest : List Token) : Prop :=
  rest <:+ tokens ∧ rest.length < tokens.length

/-- A call of one of the three functions that read tokens. -/
inductive Call where
  | expression (power : Nat) (tokens : List Token)
  | operand (tokens : List Token)
  /-- A bracket is only called for where it opens. -/
  | bracketed (opening : Token) (inner : List Token)

/-- What the parser requires of expressions: nothing, or what a sign or an operator requires. -/
def InUse (power : Nat) : Prop :=
  power = 0 ∨ power = signPower ∨ ∃ kind op l, binaryOp? kind = some (op, l, power)

namespace Call

/-- The tokens from the start of the call on. -/
def tokens : Call → List Token
  | expression _ tokens => tokens
  | operand tokens => tokens
  | bracketed opening inner => opening :: inner

/-- How many functions there are further down. -/
def height : Call → Nat
  | expression _ _ => 2
  | operand _ => 1
  | bracketed _ _ => 0

/-- A call from `d` goes on at a later token, or at the same one and one function further down. -/
def Below (c d : Call) : Prop :=
  Consumes d.tokens c.tokens ∨ c.tokens = d.tokens ∧ c.height + 1 = d.height

/-- The power of an expression that is called for is one in use. -/
def InUse : Call → Prop
  | expression power _ => Parser.InUse power
  | operand _ | bracketed _ _ => True

def size (c : Call) : Nat := 3 * c.tokens.length + c.height

theorem Below.size_lt {c d : Call} (h : c.Below d) : c.size < d.size := by
  unfold size
  rcases h with ⟨-, hlt⟩ | ⟨heq, hheight⟩
  · have htwo : c.height ≤ 2 := by cases c <;> simp [height]
    omega
  · rw [heq]
    omega

theorem wellFounded_below : WellFounded Below :=
  Subrelation.wf Below.size_lt (measure size).wf

end Call

/-- How the call is answered with the given depth. -/
def answer (depth : Nat) : Call → Parsed
  | .expression power tokens => expression depth power tokens
  | .operand tokens => operand depth tokens
  | .bracketed opening inner => bracketed depth (opening :: inner)

/-- Every answer takes a token. -/
def Advances (ask : Call → Parsed) : Prop :=
  ∀ c e rest, ask c = .ok (e, rest) → Consumes c.tokens rest

section Consumes

variable {front tokens rest mid : List Token}

theorem consumes_append (h : front ≠ []) : Consumes (front ++ rest) rest := by
  refine ⟨List.suffix_append front rest, ?_⟩
  have hpos := List.length_pos_iff.mpr h
  rw [List.length_append]
  omega

theorem Consumes.trans_suffix (h : Consumes tokens mid) (hs : rest <:+ mid) :
    Consumes tokens rest :=
  ⟨hs.trans h.1, Nat.lt_of_le_of_lt hs.length_le h.2⟩

end Consumes

theorem operand_consumes {depth : Nat} {tokens rest : List Token} {e : Expr}
    (h : operand depth tokens = .ok (e, rest)) : Consumes tokens rest := by
  obtain ⟨c, front, rfl, -, hd, -⟩ := (sound depth).2.1 tokens e rest h
  exact consumes_append hd.ne_nil

theorem answer_advances (depth : Nat) : Advances (answer depth) := by
  intro c e rest h
  cases c with
  | expression power tokens =>
    rcases depth with _ | depth
    · cases h
    rw [answer, expression_succ] at h
    obtain ⟨⟨left, mid⟩, hleft, hmore⟩ := bind_eq_ok_iff.mp h
    obtain ⟨he, -, hb⟩ := oneAhead depth
    obtain ⟨front, rfl, -⟩ := oneAhead_goOn he hb _ left mid (Nat.le_refl _) e rest hmore
    exact (operand_consumes hleft).trans_suffix (List.suffix_append front rest)
  | operand tokens => exact operand_consumes h
  | bracketed opening inner =>
    obtain ⟨front, c, rfl, -, -⟩ := (sound depth).2.2 opening inner e rest h
    have happend : opening :: (front ++ c :: rest) = (opening :: (front ++ [c])) ++ rest := by simp
    rw [Call.tokens, happend]
    exact consumes_append (by simp)

/-- What a function does: it is done, or calls for an answer and goes on with what has been read. A
failure to answer is its own failure. -/
inductive Plan where
  | done (outcome : Parsed)
  | call (c : Call) (next : Expr × List Token → Plan)

namespace Plan

variable {ask ask' : Call → Parsed}

def run (ask : Call → Parsed) : Plan → Parsed
  | done outcome => outcome
  | call c next => ask c >>= fun r => (next r).run ask

/-- The calls in the order in which they are made. -/
def calls (ask : Call → Parsed) : Plan → List Call
  | done _ => []
  | call c next =>
    c :: match ask c with
      | .error _ => []
      | .ok r => (next r).calls ask

theorem forall_mem_calls {P : Call → Prop} {c : Call} {next : Expr × List Token → Plan} :
    (∀ d ∈ (call c next).calls ask, P d)
      ↔ P c ∧ ∀ r, ask c = .ok r → ∀ d ∈ (next r).calls ask, P d := by
  rw [calls, List.forall_mem_cons]
  rcases ask c with stop | r <;> simp

/-- Answers that agree on the calls that are made make no difference. -/
theorem run_congr : ∀ {p : Plan}, (∀ d ∈ p.calls ask, ask' d = ask d) → p.run ask' = p.run ask
  | done _, _ => rfl
  | call c next, h => by
    obtain ⟨hc, hnext⟩ := forall_mem_calls.mp h
    rw [run, run, hc]
    rcases hr : ask c with stop | r
    · rfl
    · exact run_congr (hnext r hr)

end Plan

/-- A chain with its calls left open. -/
def chainPlan (power : Nat) : Nat → Expr → List Token → Plan
  | 0, left, tokens => .done (.ok (left, tokens))
  | _ + 1, left, [] => .done (.ok (left, []))
  | turns + 1, left, t :: rest =>
    match t.kind with
    | .bang =>
      if suffixPower < power then .done (.ok (left, t :: rest))
      else chainPlan power turns (.unary .factorial left) rest
    | .bracketOpen =>
      if suffixPower < power then .done (.ok (left, t :: rest))
      else
        match left with
        | .name f =>
          .call (.bracketed t rest) fun (e, after) => chainPlan power turns (.call f e) after
        | _ => .done (.error ⟨.notCallable, rest.length + 1⟩)
    | kind =>
      match binaryOp? kind with
      | none => .done (.ok (left, t :: rest))
      | some (op, leftPower, rightPower) =>
        if leftPower < power then .done (.ok (left, t :: rest))
        else
          .call (.expression rightPower rest) fun (e, after) =>
            chainPlan power turns (.binary op left e) after

/-- The three functions with their calls left open. -/
def plan : Call → Plan
  | .expression power tokens =>
    .call (.operand tokens) fun (left, rest) => chainPlan power rest.length left rest
  | .operand [] => .done (.error ⟨.endOfInput, 0⟩)
  | .operand (t :: rest) =>
    match sign? t.kind with
    | some op =>
      .call (.expression signPower rest) fun (e, after) => .done (.ok (.unary op e, after))
    | none =>
      match t.kind with
      | .number =>
        match numberValue t with
        | .ok value => .done (.ok (.number value, rest))
        | .error fault => .done (.error ⟨fault, rest.length + 1⟩)
      | .identifier => .done (.ok (.name t.lexeme, rest))
      | .bracketOpen => .call (.bracketed t rest) fun r => .done (.ok r)
      | _ => .done (.error ⟨.unexpectedOperator t.lexeme, rest.length + 1⟩)
  | .bracketed _ inner =>
    .call (.expression 0 inner) fun (e, rest) => .done <|
      match rest with
      | [] => .error ⟨.unclosedBracket, inner.length + 1⟩
      | t :: after =>
        if t.kind = .bracketClose then .ok (e, after)
        else .error ⟨.unclosedBracket, inner.length + 1⟩

theorem run_chainPlan (depth power turns : Nat) (left : Expr) (tokens : List Token) :
    (chainPlan power turns left tokens).run (answer depth)
      = chain (expression depth) (bracketed depth) power turns left tokens := by
  fun_induction chainPlan power turns left tokens with
  | case1 | case2 => rfl
  | case3 turns left t rest hk hp | case5 turns left t rest hk hp =>
    exact (chain_of_stops (stops_cons.mpr (by simp [hk, leftPower?, hp]))).symm
  | case4 turns left t rest hk hp ih => rw [ih, chain_factorial hk (Nat.not_lt.mp hp)]
  | case6 turns t rest hk hp f ih =>
    rw [chain_call hk (Nat.not_lt.mp hp)]
    refine congrArg _ (funext fun r => ?_)
    exact ih r.1 r.2
  | case7 turns left t rest hk hp hl => exact (chain_refuse hl hk (Nat.not_lt.mp hp)).symm
  | case8 turns left t rest hbang hopen hb =>
    exact (chain_of_stops (stops_cons.mpr (by simp [leftPower?, hb]))).symm
  | case9 turns left t rest op l r hp hbang hopen hb =>
    exact (chain_of_stops (stops_cons.mpr (by simp [leftPower?_of_binaryOp? hb, hp]))).symm
  | case10 turns left t rest op l r hp hbang hopen hb ih =>
    rw [chain_binary hb (Nat.not_lt.mp hp)]
    refine congrArg _ (funext fun r => ?_)
    exact ih r.1 r.2

theorem run_plan (depth : Nat) (c : Call) :
    (plan c).run (answer depth) = answer (depth + 1) c := by
  fun_cases plan c with
  | case1 power tokens =>
    refine congrArg _ (funext fun (left, rest) => ?_)
    exact run_chainPlan depth power rest.length left rest
  | case2 => rfl
  | case3 t rest op hs => exact (operand_sign hs).symm
  | case4 t rest hs hk v hv => exact (operand_number hk hv).symm
  | case5 t rest hs hk fault hv => exact (operand_unreadable hk hv).symm
  | case6 t rest hs hk => exact (operand_name hk).symm
  | case7 t rest hs hk =>
    rw [answer, operand_bracket hk]
    exact bind_pure _
  | case8 t rest hs hnumber hname hopen =>
    refine (operand_refuse ?_).symm
    cases hk : t.kind <;> simp_all [sign?]
  | case9 opening inner =>
    refine congrArg _ (funext fun (e, rest) => ?_)
    rcases rest with _ | ⟨t, after⟩ <;> rfl

theorem chainPlan_calls {ask : Call → Parsed} (h : Advances ask) (power turns : Nat) (left : Expr)
    (tokens : List Token) :
    ∀ d ∈ (chainPlan power turns left tokens).calls ask, d.tokens <:+ tokens ∧ d.InUse := by
  fun_induction chainPlan power turns left tokens with
  | case1 | case2 | case3 | case5 | case7 | case8 | case9 => simp [Plan.calls]
  | case4 turns left t rest hk hp ih =>
    intro d hd
    obtain ⟨hsuffix, huse⟩ := ih d hd
    exact ⟨hsuffix.trans (List.suffix_cons t rest), huse⟩
  | case6 turns t rest hk hp f ih =>
    refine Plan.forall_mem_calls.mpr ⟨⟨List.suffix_refl _, trivial⟩, fun (e, after) ha d hd => ?_⟩
    obtain ⟨hsuffix, huse⟩ := ih e after d hd
    exact ⟨hsuffix.trans (h _ e after ha).1, huse⟩
  | case10 turns left t rest op l r hp hbang hopen hb ih =>
    refine Plan.forall_mem_calls.mpr ⟨⟨List.suffix_cons t rest, ?_⟩, fun (e, after) ha d hd => ?_⟩
    · exact Or.inr (Or.inr ⟨t.kind, op, l, hb⟩)
    · obtain ⟨hsuffix, huse⟩ := ih e after d hd
      exact ⟨(hsuffix.trans (h _ e after ha).1).trans (List.suffix_cons t rest), huse⟩

/-- Every call starts behind its caller, or with it and one function further down. -/
theorem below_of_mem_calls {ask : Call → Parsed} (h : Advances ask) (c : Call) :
    ∀ d ∈ (plan c).calls ask, d.Below c ∧ d.InUse := by
  fun_cases plan c with
  | case1 power tokens =>
    refine Plan.forall_mem_calls.mpr ⟨⟨Or.inr ⟨rfl, rfl⟩, trivial⟩, fun (left, rest) hl d hd => ?_⟩
    obtain ⟨hsuffix, huse⟩ := chainPlan_calls h power rest.length left rest d hd
    exact ⟨Or.inl ((h _ left rest hl).trans_suffix hsuffix), huse⟩
  | case2 | case4 | case5 | case6 | case8 => simp [Plan.calls]
  | case3 t rest op hs =>
    refine Plan.forall_mem_calls.mpr ⟨⟨Or.inl ?_, Or.inr (Or.inl rfl)⟩, by simp [Plan.calls]⟩
    exact consumes_append (List.cons_ne_nil t [])
  | case7 t rest hs hk =>
    exact Plan.forall_mem_calls.mpr ⟨⟨Or.inr ⟨rfl, rfl⟩, trivial⟩, by simp [Plan.calls]⟩
  | case9 opening inner =>
    refine Plan.forall_mem_calls.mpr ⟨⟨Or.inl ?_, Or.inl rfl⟩, by simp [Plan.calls]⟩
    exact consumes_append (List.cons_ne_nil opening [])

/-! ## No limit on depth -/

/-- A depth beyond the size of a call is as good as any larger one. -/
theorem answer_settled : ∀ (n : Nat) {c : Call} {depth : Nat}, c.size < n → n ≤ depth →
    answer depth c = answer n c
  | 0, c, depth, hsize, hn => by omega
  | n + 1, c, depth, hsize, hn => by
    obtain ⟨depth, rfl⟩ : ∃ d, depth = d + 1 := ⟨depth - 1, by omega⟩
    -- one level down the calls are answered alike, since they are smaller
    rw [← run_plan, ← run_plan]
    refine Plan.run_congr fun d hd => answer_settled n ?_ (by omega)
    have hlt := (below_of_mem_calls (answer_advances n) c d hd).1.size_lt
    omega

/-- The answer without a limit on depth. -/
def unlimited (c : Call) : Parsed := answer (c.size + 1) c

theorem answer_eq_unlimited {c : Call} {depth : Nat} (h : c.size < depth) :
    answer depth c = unlimited c :=
  answer_settled (c.size + 1) (Nat.lt_succ_self _) h

theorem unlimited_advances : Advances unlimited :=
  fun c => answer_advances (c.size + 1) c

theorem unlimited_eq_run (c : Call) : unlimited c = (plan c).run unlimited := by
  rw [unlimited, ← run_plan]
  refine Plan.run_congr fun d hd => answer_eq_unlimited ?_
  exact (below_of_mem_calls unlimited_advances c d hd).1.size_lt

/-- There is no other way to answer all calls by the plans. -/
theorem eq_unlimited {other : Call → Parsed} (h : ∀ c, other c = (plan c).run other) :
    other = unlimited := by
  funext c
  induction c using Call.wellFounded_below.induction with
  | _ c ih =>
    rw [h c, unlimited_eq_run c]
    exact Plan.run_congr fun d hd => ih d (below_of_mem_calls unlimited_advances c d hd).1

theorem unlimited_roomy (c : Call) : Roomy (unlimited c) := by
  obtain ⟨least, hleast⟩ : ∃ least, ∀ depth ≥ least, Roomy (answer depth c) := by
    cases c with
    | expression power tokens => exact ⟨_, fun depth => (roomy depth).1 power tokens⟩
    | operand tokens => exact ⟨_, fun depth => (roomy depth).2.1 tokens⟩
    | bracketed opening inner => exact ⟨_, fun depth => (roomy depth).2.2 opening inner⟩
  have heq : answer (c.size + 1 + least) c = unlimited c := answer_eq_unlimited (by omega)
  exact heq ▸ hleast (c.size + 1 + least) (by omega)

theorem InUse.le_seven {power : Nat} (h : InUse power) : power ≤ 7 := by
  rcases h with rfl | rfl | ⟨kind, op, l, hb⟩
  · decide
  · decide
  · exact rightPower_le hb

/-- An expression that is read with a power in use ends before a token that is no suffix and no
caret, and binds less tightly if it is another operator. -/
theorem Stops.kind_of_inUse {power : Nat} {t : Token} {rest : List Token}
    (h : Stops power (t :: rest)) (huse : InUse power) :
    t.kind ≠ .bang ∧ t.kind ≠ .bracketOpen ∧ t.kind ≠ .caret
      ∧ ∀ op l r, binaryOp? t.kind = some (op, l, r) → l < power := by
  have hle := huse.le_seven
  have hlt := stops_cons.mp h
  refine ⟨fun hk => ?_, fun hk => ?_, fun hk => ?_, fun op l r hb => ?_⟩
  · have := hlt 9 (by rw [hk]; rfl)
    omega
  · have := hlt 9 (by rw [hk]; rfl)
    omega
  · have := hlt 8 (by rw [hk]; rfl)
    omega
  · exact hlt l (leftPower?_of_binaryOp? hb)

/-- A list that has the same tokens from `i` on, as far as `front` goes, has `front` there too. -/
theorem drop_of_agree {tokens others front rest : List Token} {i : Nat}
    (h : tokens.drop i = front ++ rest)
    (hagree : ∀ k, i ≤ k → k < i + front.length → others[k]? = tokens[k]?) :
    others.drop i = front ++ others.drop (i + front.length) := by
  have htake : (others.drop i).take front.length = front := by
    refine List.ext_getElem? fun k => ?_
    rcases Nat.lt_or_ge k front.length with hk | hk
    · rw [List.getElem?_take_of_lt hk, List.getElem?_drop, hagree (i + k) (by omega) (by omega),
        ← List.getElem?_drop, h, List.getElem?_append_left hk]
    · rw [List.getElem?_eq_none hk, List.getElem?_eq_none (by simp; omega)]
  calc others.drop i
    _ = (others.drop i).take front.length ++ (others.drop i).drop front.length :=
      (List.take_append_drop _ _).symm
    _ = front ++ others.drop (i + front.length) := by rw [htake, List.drop_drop]

/-- What is read from the token `i` on with a power in use ends at a later token `j`, which is
neither a suffix nor a caret and binds less tightly if it is another operator; it depends on no more
than the tokens between them and the kind of the token `j`. No suffix is ever left for its power.

Every call starts behind its caller or with it and one function further down. So calls can be
answered without any limit on depth, in one way, and that is how they are answered at all depths
beyond their size. -/
theorem expression_looks_one_ahead :
    (∀ (depth i power : Nat) (tokens : List Token) (e : Expr) (rest : List Token), InUse power →
      expression depth power (tokens.drop i) = .ok (e, rest) →
      ∃ j, i < j ∧ j ≤ tokens.length ∧ rest = tokens.drop j
        ∧ (∀ t ∈ tokens[j]?, t.kind ≠ .bang ∧ t.kind ≠ .bracketOpen ∧ t.kind ≠ .caret
          ∧ ∀ op l r, binaryOp? t.kind = some (op, l, r) → l < power)
        ∧ ∀ others : List Token, (∀ k, i ≤ k → k < j → others[k]? = tokens[k]?) →
          (∀ t ∈ others[j]?, ∃ u ∈ tokens[j]?, t.kind = u.kind) →
          expression depth power (others.drop i) = .ok (e, others.drop j))
    ∧ (∀ power, InUse power → ¬ suffixPower < power)
    ∧ (∀ depth c, answer (depth + 1) c = (plan c).run (answer depth)
      ∧ ∀ d ∈ (plan c).calls (answer depth), d.Below c ∧ d.InUse)
    ∧ WellFounded Call.Below
    ∧ ∃ free : Call → Parsed,
      (∀ c, free c = (plan c).run free ∧ ∀ d ∈ (plan c).calls free, d.Below c ∧ d.InUse)
      ∧ (∀ other : Call → Parsed, (∀ c, other c = (plan c).run other) → other = free)
      ∧ ∀ c, Roomy (free c) ∧ ∀ depth, c.size < depth → answer depth c = free c := by
  refine ⟨fun depth i power tokens e rest huse h => ?_, fun power huse => ?_, fun depth c => ?_,
    Call.wellFounded_below, unlimited, fun c => ?_, fun other => eq_unlimited, fun c => ?_⟩
  · obtain ⟨front, hdrop, hsame⟩ := (oneAhead depth).1 power _ e rest h
    have hlength := congrArg List.length hdrop
    have hless := (answer_advances depth (.expression power (tokens.drop i)) e rest h).2
    simp only [Call.tokens, List.length_drop, List.length_append] at hlength hless
    have hrest : tokens.drop (i + front.length) = rest := by
      rw [← List.drop_drop, hdrop, List.drop_left]
    have hhead : rest.head? = tokens[i + front.length]? := by rw [← hrest, List.head?_drop]
    refine ⟨i + front.length, by omega, by omega, hrest.symm, fun t ht => ?_,
      fun others hagree halike => ?_⟩
    · obtain ⟨-, hstops⟩ := (sound depth).1 power huse.le_seven _ e rest h
      obtain ⟨after, rfl⟩ := List.head?_eq_some_iff.mp (hhead.trans ht)
      exact hstops.kind_of_inUse huse
    · rw [drop_of_agree hdrop hagree]
      refine hsame _ ?_
      unfold Alike
      rwa [List.head?_drop, hhead]
  · exact Nat.not_lt.mpr (Nat.le_trans huse.le_seven (by decide))
  · exact ⟨(run_plan depth c).symm, below_of_mem_calls (answer_advances depth) c⟩
  · exact ⟨unlimited_eq_run c, below_of_mem_calls unlimited_advances c⟩
  · exact ⟨unlimited_roomy c, fun depth => answer_eq_unlimited⟩

/-- In `a*b^c!+d` and in `)/b^c!+` what is read from `b` on is the same. -/
theorem expression_looks_one_ahead_power :
    let tokens : List Token :=
      [⟨.identifier, "a", 0, none⟩, ⟨.star, "*", 1, none⟩, ⟨.identifier, "b", 2, none⟩,
        ⟨.caret, "^", 3, none⟩, ⟨.identifier, "c", 4, none⟩, ⟨.bang, "!", 5, none⟩,
        ⟨.plus, "+", 6, none⟩, ⟨.identifier, "d", 7, none⟩]
    let others : List Token :=
      [⟨.bracketClose, ")", 0, none⟩, ⟨.slash, "/", 1, none⟩, ⟨.identifier, "b", 2, none⟩,
        ⟨.caret, "^", 3, none⟩, ⟨.identifier, "c", 4, none⟩, ⟨.bang, "!", 5, none⟩,
        ⟨.plus, "+", 9, none⟩]
    let e : Expr := .binary .pow (.name "b") (.unary .factorial (.name "c"))
    InUse 4 ∧ expression 3 4 (tokens.drop 2) = .ok (e, tokens.drop 6)
      ∧ expression 3 4 (others.drop 2) = .ok (e, others.drop 6) := by
  intro tokens others e
  have huse : InUse 4 := Or.inr (Or.inr ⟨.star, .mul, 3, rfl⟩)
  have hread : expression 3 4 (tokens.drop 2) = .ok (e, tokens.drop 6) := rfl
  obtain ⟨j, -, hj, hrest, -, hsame⟩ := expression_looks_one_ahead.1 3 2 4 tokens e _ huse hread
  obtain rfl : j = 6 := by
    have hlength := congrArg List.length hrest
    have htokens : tokens.length = 8 := rfl
    simp only [List.length_drop] at hlength
    omega
  have hagree : ∀ k < 6, 2 ≤ k → others[k]? = tokens[k]? := by decide
  refine ⟨huse, hread, hsame others (fun k hi hk => hagree k hk hi) ?_⟩
  rintro t ⟨⟩
  exact ⟨⟨.plus, "+", 6, none⟩, rfl, rfl⟩

end Parser

end Reckoner
