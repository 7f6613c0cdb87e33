import Reckoner.Expr.Parser
import Reckoner.Proofs.Evaluation

/-!
# The grammar of statements

The grammar in layers, from sums over products, signed expressions, powers and suffixed expressions
down to single operands. Each layer says which tokens make up an expression and which tree they
stand for. Brackets leave no trace in the tree, and only a name can be called.

The parser measures by numbers instead how tightly an expression must hold together.
`Category.strength` is the most that it may require where it reads an expression of the layer; a
layer contains every layer of larger strength.
-/

namespace Reckoner

namespace Grammar

/-- The layers of expressions. -/
inductive Category where
  | sum
  | product
  | signed
  | power
  | suffixed
  | primary
deriving DecidableEq

def sumOp? : TokenKind → Option BinaryOp
  | .plus => some .add
  | .minus => some .sub
  | _ => none

def productOp? : TokenKind → Option BinaryOp
  | .star => some .mul
  | .slash => some .div
  | _ => none

def signOp? : TokenKind → Option UnaryOp
  | .plus => some .plus
  | .minus => some .minus
  | _ => none

/-- The tokens make up an expression of the category, which stands for the tree. -/
inductive Derives : Category → List Token → Expr → Prop where
  /-- A number stands for the value it carries, or else for that of its text. -/
  | number {t : Token} {v : Double} : t.kind = .number → Parser.numberValue t = .ok v →
      Derives .primary [t] (.number v)
  | name {t : Token} : t.kind = .identifier → Derives .primary [t] (.name t.lexeme)
  | bracket {o c : Token} {ts : List Token} {e : Expr} : o.kind = .bracketOpen →
      Derives .sum ts e → c.kind = .bracketClose → Derives .primary (o :: (ts ++ [c])) e
  | primary {ts : List Token} {e : Expr} : Derives .primary ts e → Derives .suffixed ts e
  | factorial {t : Token} {ts : List Token} {e : Expr} : Derives .suffixed ts e → t.kind = .bang →
      Derives .suffixed (ts ++ [t]) (.unary .factorial e)
  | call {f : String} {o c : Token} {ts us : List Token} {e : Expr} :
      Derives .suffixed ts (.name f) → o.kind = .bracketOpen → Derives .sum us e →
      c.kind = .bracketClose → Derives .suffixed (ts ++ o :: (us ++ [c])) (.call f e)
  | suffixed {ts : List Token} {e : Expr} : Derives .suffixed ts e → Derives .power ts e
  | power {t : Token} {ts us : List Token} {l r : Expr} : Derives .suffixed ts l →
      t.kind = .caret → Derives .signed us r → Derives .power (ts ++ t :: us) (.binary .pow l r)
  | unsigned {ts : List Token} {e : Expr} : Derives .power ts e → Derives .signed ts e
  | signed {op : UnaryOp} {t : Token} {ts : List Token} {e : Expr} : signOp? t.kind = some op →
      Derives .signed ts e → Derives .signed (t :: ts) (.unary op e)
  | factor {ts : List Token} {e : Expr} : Derives .signed ts e → Derives .product ts e
  | product {op : BinaryOp} {t : Token} {ts us : List Token} {l r : Expr} : Derives .product ts l →
      productOp? t.kind = some op → Derives .signed us r →
      Derives .product (ts ++ t :: us) (.binary op l r)
  | term {ts : List Token} {e : Expr} : Derives .product ts e → Derives .sum ts e
  | sum {op : BinaryOp} {t : Token} {ts us : List Token} {l r : Expr} : Derives .sum ts l →
      sumOp? t.kind = some op → Derives .product us r →
      Derives .sum (ts ++ t :: us) (.binary op l r)

/-- The tokens make up the statement. -/
inductive Reads : List Token → Statement → Prop where
  | assign {n q : Token} {ts : List Token} {e : Expr} : n.kind = .identifier → q.kind = .equal →
      Derives .sum ts e → Reads (n :: q :: ts) (.assign n.lexeme e)
  | expression {ts : List Token} {e : Expr} : Derives .sum ts e → Reads ts (.expression e)

/-- The most that may be required of an expression of the category. -/
def Category.strength : Category → Nat
  | sum => 1
  | product => 3
  | signed | power => 7
  | suffixed | primary => 9

namespace Derives

variable {c : Category} {ts : List Token} {e : Expr}

theorem toSuffixed (h : Derives c ts e) (hc : 8 ≤ c.strength) : Derives .suffixed ts e := by
  cases c with
  | suffixed => exact h
  | primary => exact .primary h
  | _ => simp [Category.strength] at hc

theorem toSigned (h : Derives c ts e) (hc : 4 ≤ c.strength) : Derives .signed ts e := by
  cases c with
  | signed => exact h
  | power => exact .unsigned h
  | suffixed | primary => exact .unsigned (.suffixed (h.toSuffixed (by decide)))
  | _ => simp [Category.strength] at hc

theorem toProduct (h : Derives c ts e) (hc : 2 ≤ c.strength) : Derives .product ts e := by
  cases c with
  | product => exact h
  | sum => simp [Category.strength] at hc
  | _ => exact .factor (h.toSigned (by decide))

theorem toSum (h : Derives c ts e) : Derives .sum ts e := by
  cases c with
  | sum => exact h
  | _ => exact .term (h.toProduct (by decide))

theorem ne_nil (h : Derives c ts e) : ts ≠ [] := by
  induction h <;> simp_all

/-- No expression holds an equals sign, so an assignment is never an expression. -/
theorem no_equal (h : Derives c ts e) : ∀ t ∈ ts, t.kind ≠ .equal := by
  induction h with
  | number hk | name hk => simp [hk]
  | bracket ho _ hc ih => simpa [ho, hc, or_imp, forall_and] using ih
  | factorial _ hk ih => simpa [hk, or_imp, forall_and] using ih
  | call _ ho _ hc ihf ih => simpa [ho, hc, or_imp, forall_and] using ⟨ihf, ih⟩
  | power _ hk _ ihl ihr => simpa [hk, or_imp, forall_and] using ⟨ihl, ihr⟩
  | signed hk _ ih =>
    simp only [List.mem_cons, forall_eq_or_imp]
    exact ⟨fun he => by simp [he, signOp?] at hk, ih⟩
  | product _ hk _ ihl ihr =>
    simp only [List.mem_append, List.mem_cons, or_imp, forall_and, forall_eq]
    exact ⟨ihl, fun he => by simp [he, productOp?] at hk, ihr⟩
  | sum _ hk _ ihl ihr =>
    simp only [List.mem_append, List.mem_cons, or_imp, forall_and, forall_eq]
    exact ⟨ihl, fun he => by simp [he, sumOp?] at hk, ihr⟩
  | _ => assumption

/-- The tree of an expression has no holes. -/
theorem whole (h : Derives c ts e) : e.Whole := by
  induction h with
  | number | name => trivial
  | call _ _ _ _ _ ih => exact ih
  | power _ _ _ ihl ihr | product _ _ _ ihl ihr | sum _ _ _ ihl ihr => exact ⟨ihl, ihr⟩
  | _ => assumption

end Derives

end Grammar

end Reckoner
