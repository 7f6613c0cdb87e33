import Reckoner.Expr.Basic
import Reckoner.Variables

/-!
# Working out a statement on its tree

Operands are worked out from left to right before their operation, and the first fault ends the
work. An assignment changes its variable only after its right side has a value.
-/

namespace Reckoner

/-- What a statement comes to: a value, and the name it was assigned to if there is one. -/
structure Result where
  name : Option String
  value : Double
deriving DecidableEq

def Result.text (r : Result) : String :=
  match r.name with
  | none => "= " ++ r.value.plainText
  | some name => name ++ " = " ++ r.value.plainText

namespace Expr

/-- The value of the expression, going down at most the given number of levels. -/
def eval (vars : Variables) : Nat → Expr → Except Fault Double
  | 0, _ => .error (.nestedTooDeeply "evaluate")
  | _ + 1, number value => .ok value
  | _ + 1, name n =>
    match vars.get? n with
    | some value => .ok value
    | none => .error (.undefinedVariable n)
  | levels + 1, unary op e => do
    let x ← e.eval vars levels
    op.apply x
  | levels + 1, binary op l r => do
    let x ← l.eval vars levels
    let y ← r.eval vars levels
    op.apply x y
  | levels + 1, call f e => do
    let x ← e.eval vars levels
    callFunction f x
  | _ + 1, hole => .error (.missingNode .expression)

end Expr

namespace Statement

/-- The result of the statement and the variables after it. -/
def eval (vars : Variables) (levels : Nat) : Statement → Except Fault (Result × Variables)
  | assign n e => do
    let value ← e.eval vars levels
    return (⟨some n, value⟩, vars.set n value)
  | expression e => do
    let value ← e.eval vars levels
    return (⟨none, value⟩, vars)
  | hole => .error (.missingNode .statement)

end Statement

end Reckoner
