import Reckoner.Code.Basic
import Reckoner.Expr.Basic

/-!
# Code for a statement

Operands come first, from left to right, then the instruction that takes them. Nothing is worked
out, so the only faults are those of the tree itself. The code of an assignment ends by setting
its variable.
-/

namespace Reckoner

namespace Expr

/-- The code of a tree without holes. -/
def code : Expr → Code
  | number value => [.loadConst value]
  | name n => [.loadLocal n]
  | unary op e => e.code ++ [.unary op]
  | binary op l r => l.code ++ r.code ++ [.binary op]
  | call f e => e.code ++ [.call f]
  | hole => []

/-- The code of the tree, if it can be walked through. -/
def compile (levels : Nat) (e : Expr) : Except Fault Code :=
  (e.walk levels "compile" .expression).map fun _ => e.code

end Expr

namespace Statement

/-- The code of a statement without holes. -/
def code : Statement → Code
  | assign n e => e.code ++ [.setLocal n]
  | expression e => e.code
  | hole => []

/-- The code of the statement, if its tree can be walked through. -/
def compile (levels : Nat) (s : Statement) : Except Fault Code :=
  match s with
  | assign _ e | expression e => (e.walk levels "compile" .expression).map fun _ => s.code
  | hole => .error (.missingNode .statement)

end Statement

end Reckoner
