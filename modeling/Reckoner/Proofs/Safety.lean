import Reckoner.Proofs.Execution
import Reckoner.Proofs.Guards
import Reckoner.Proofs.Literals
import Reckoner.Proofs.ParserGrammar

/-!
# No line fails in a way of its own

Each stage of a line leaves what the next one relies on: the number tokens of a line carry the
values of their texts (`scan_faithful`), such tokens are never refused for a number (`legible`), the
statements that are read have no holes (`ofTokens_whole`), and a statement without holes fails by
its values, its names or its depth only (`execute_class`), since no operation on doubles is
refused. So every line ends in a result or in a failure of a class that is not internal.
-/

namespace Reckoner

/-- Every number among the tokens carries its value. -/
def Valued (tokens : List Token) : Prop :=
  ∀ t ∈ tokens, t.kind = .number → t.value ≠ none

theorem valued_cons {t : Token} {ts : List Token} :
    Valued (t :: ts) ↔ (t.kind = .number → t.value ≠ none) ∧ Valued ts := by
  simp [Valued]

theorem valued_append {ts us : List Token} : Valued (ts ++ us) ↔ Valued ts ∧ Valued us := by
  simp [Valued, or_imp, forall_and]

theorem Token.scan_valued {line : String} {tokens : List Token} (h : scan line = .ok tokens) :
    Valued tokens := by
  intro t ht hk
  obtain ⟨v, hv, -⟩ := (scan_faithful h t ht).read? hk
  rw [hv]
  exact Option.some_ne_none v

namespace Parser

/-- The outcome is not that a number cannot be read. -/
def Legible {α : Type} (r : Except Stop α) : Prop :=
  ∀ stop, r = .error stop → ∀ lexeme, stop.fault ≠ .unreadableNumber lexeme

namespace Legible

variable {α β : Type} {r : Except Stop α} {f : α → Except Stop β}

theorem ok (a : α) : Legible (.ok a) := by
  rintro stop ⟨⟩

theorem error {stop : Stop} (h : ∀ lexeme, stop.fault ≠ .unreadableNumber lexeme) :
    Legible (.error stop : Except Stop α) := by
  rintro stop ⟨⟩
  exact h

theorem bind (h : Legible r) (hf : ∀ a, r = .ok a → Legible (f a)) : Legible (r >>= f) := by
  rcases r with stop | a
  · exact error (h stop rfl)
  · exact hf a rfl

end Legible

theorem chain_legible {depth : Nat} (power : Nat)
    (he : ∀ p ts, Valued ts → Legible (expression depth p ts))
    (hb : ∀ ts, Valued ts → Legible (bracketed depth ts)) :
    ∀ (turns : Nat) (left : Expr) (tokens : List Token), Valued tokens →
      Legible (chain (expression depth) (bracketed depth) power turns left tokens)
  | 0, left, tokens, _ => .ok _
  | turns + 1, left, [], _ => .ok _
  | turns + 1, left, t :: tokens, hv => by
    have ih := chain_legible power he hb turns
    obtain ⟨ht, htokens⟩ := valued_cons.mp hv
    rcases turn power left t with hs | ⟨hk, hp⟩ | ⟨f, rfl, hk, hp⟩ | ⟨hl, hk, hp⟩ |
      ⟨op, l, r, hop, hp⟩
    · rw [chain_of_stops (stops_cons.mpr hs)]
      exact .ok _
    · rw [chain_factorial hk hp]
      exact ih _ _ htokens
    · rw [chain_call hk hp]
      refine (hb _ hv).bind fun (e, after) ho => ih _ _ ?_
      obtain ⟨inner, c, rfl, -, -⟩ := (sound depth).2.2 t tokens e after ho
      exact (valued_cons.mp (valued_append.mp htokens).2).2
    · rw [chain_refuse hl hk hp]
      exact .error (by simp)
    · rw [chain_binary hop hp]
      refine (he r tokens htokens).bind fun (e, after) ho => ih _ _ ?_
      obtain ⟨⟨c, front, rfl, -⟩, -⟩ := (sound depth).1 r (rightPower_le hop) tokens e after ho
      exact (valued_append.mp htokens).2

/-- No way of reading tokens that carry their values fails at a number. -/
theorem legible :
    ∀ depth, (∀ power ts, Valued ts → Legible (expression depth power ts))
      ∧ (∀ ts, Valued ts → Legible (operand depth ts))
      ∧ ∀ ts, Valued ts → Legible (bracketed depth ts)
  | 0 => ⟨fun _ _ _ => .error (by simp), fun _ _ => .error (by simp),
      fun _ _ => .error (by simp)⟩
  | depth + 1 => by
    obtain ⟨ihe, iho, ihb⟩ := legible depth
    refine ⟨fun power ts hv => ?_, fun ts hv => ?_, fun ts hv => ?_⟩
    · refine (iho ts hv).bind fun (left, rest) ho => chain_legible power ihe ihb _ _ _ ?_
      obtain ⟨c, front, rfl, -⟩ := (sound depth).2.1 ts left rest ho
      exact (valued_append.mp hv).2
    · rcases ts with _ | ⟨t, ts⟩
      · exact .error (by simp)
      obtain ⟨ht, hts⟩ := valued_cons.mp hv
      rcases start t with ⟨op, hs⟩ | ⟨v, hk, hn⟩ | ⟨fault, hk, hn⟩ | hk | hk | hk
      · rw [operand_sign hs]
        exact (ihe _ _ hts).bind fun _ _ => .ok _
      · rw [operand_number hk hn]
        exact .ok _
      · -- a value that is carried needs no reading
        obtain ⟨v, hval⟩ := Option.ne_none_iff_exists'.mp (ht hk)
        simp [numberValue, hval] at hn
      · rw [operand_name hk]
        exact .ok _
      · rw [operand_bracket hk]
        exact ihb _ hv
      · rw [operand_refuse hk]
        exact .error (by simp)
    · have hdrop : Valued (ts.drop 1) := fun t ht => hv t (List.mem_of_mem_drop ht)
      refine (ihe 0 _ hdrop).bind fun (e, rest) _ => ?_
      rcases rest with _ | ⟨c, rest⟩
      · exact .error (by simp)
      · simp only
        split
        · exact .ok _
        · exact .error (by simp)

theorem full_legible {depth : Nat} {ts : List Token} (h : Valued ts) : Legible (full depth ts) := by
  refine ((legible depth).1 0 ts h).bind fun (e, rest) _ => ?_
  rcases rest with _ | ⟨t, rest⟩
  · exact .ok _
  · exact .error (by simp)

theorem statement_legible {depth : Nat} {tokens : List Token} (h : Valued tokens) :
    Legible (statement depth tokens) := by
  have map {α β : Type} {r : Except Stop α} (f : α → β) (hr : Legible r) : Legible (r.map f) := by
    rcases r with stop | a
    · exact .error (hr stop rfl)
    · exact .ok _
  rcases statement_cases tokens with ⟨-, hs⟩ | ⟨n, q, ts, rfl, -, -, hs⟩ | hs <;> rw [hs]
  · exact .error (by simp)
  · exact map _ (full_legible (valued_cons.mp (valued_cons.mp h).2).2)
  · exact map _ (full_legible h)

end Parser

namespace Statement

open Reckoner.Parser

variable {depth : Nat} {tokens : List Token} {st : Statement}

theorem ofTokens_whole (h : ofTokens depth tokens = .ok st) : st.Whole := by
  rw [ofTokens_eq] at h
  rcases hs : statement depth tokens with stop | st' <;> rw [hs] at h <;> cases h
  rcases reads_of_statement hs with ⟨-, -, hd⟩ | hd
  · exact hd.whole
  · exact hd.whole

theorem ofTokens_class {e : ParseError} (hv : Valued tokens)
    (h : ofTokens depth tokens = .error e) : (Failure.parse e).class? = some .grammatical := by
  rw [ofTokens_eq] at h
  rcases hs : statement depth tokens with stop | st' <;> rw [hs] at h <;> cases h
  exact Failure.class?_parse (statement_legible hv stop hs)

end Statement

namespace Session

/-- A statement without holes fails by its values and names, or by its depth. -/
theorem execute_class {s : Session} {st : Statement} {failure : Failure} (hw : st.Whole)
    (h : (s.execute st).outcome = .error failure) :
    failure.class? = some .semantic ∨ failure.class? = some .depth := by
  obtain ⟨f, rfl, hsem | ⟨o, task, gap, ho, rfl⟩⟩ := execute_fault h
  · exact Or.inl hsem
  · obtain rfl := Statement.survey_of_whole hw ho
    exact Or.inr rfl

theorem showAndExecute_class {s : Session} {st : Statement} {failure : Failure} (hw : st.Whole)
    (h : (s.showAndExecute st).outcome = .error failure) :
    failure.class? = some .semantic ∨ failure.class? = some .depth := by
  unfold showAndExecute at h
  split at h
  · obtain ⟨gap, hr⟩ := st.render_eq s.limits.levels
    rcases ho : st.survey s.limits.levels with _ | o <;> rw [ho] at hr <;> rw [hr] at h
    · exact execute_class hw h
    · obtain rfl := Statement.survey_of_whole hw ho
      cases h
      exact Or.inr rfl
  · exact execute_class hw h

theorem run_class {s : Session} {line : String} {failure : Failure}
    (h : (s.run line).outcome = .error failure) :
    ∃ c, failure.class? = some c ∧ c ≠ .internal := by
  unfold run at h
  split at h
  · cases h
    exact ⟨.lexical, rfl, by decide⟩
  · rename_i tokens hscan
    simp only at h
    split at h
    · rename_i e hparse
      cases h
      exact ⟨.grammatical, Statement.ofTokens_class (Token.scan_valued hscan) hparse, by decide⟩
    · rename_i st hparse
      rcases showAndExecute_class (Statement.ofTokens_whole hparse) h with hc | hc
      · exact ⟨.semantic, hc, by decide⟩
      · exact ⟨.depth, hc, by decide⟩

/-- Every line, in every session, ends in a result or in a failure that is about the line itself.
The texts of its numbers can all be read, and no refusal of a strict operation on doubles gets past
its guard. -/
theorem run_ok_or_classified (s : Session) (line : String) :
    ((∃ r, (s.run line).outcome = .ok r)
      ∨ ∃ failure c, (s.run line).outcome = .error failure
        ∧ failure.class? = some c ∧ c ≠ .internal)
    ∧ (∀ tokens, Token.scan line = .ok tokens → ∀ t ∈ tokens, t.kind = .number →
      ∃ v, t.value = some v ∧ Numeral.read? t.lexeme = some v)
    ∧ (∀ (op : UnaryOp) (x : Double), op.guarded x = .ok (op.apply x))
    ∧ (∀ (op : BinaryOp) (x y : Double), op.guarded x y = .ok (op.apply x y))
    ∧ ∀ (name : String) (x : Double), callGuarded name x = .ok (callFunction name x) := by
  refine ⟨?_, fun tokens hscan t ht hk => (Token.scan_faithful hscan t ht).read? hk,
    UnaryOp.guarded_eq, BinaryOp.guarded_eq, callGuarded_eq⟩
  rcases h : (s.run line).outcome with failure | r
  · obtain ⟨c, hc, hne⟩ := run_class h
    exact Or.inr ⟨failure, c, rfl, hc, hne⟩
  · exact Or.inl ⟨r, rfl⟩

end Session

end Reckoner
