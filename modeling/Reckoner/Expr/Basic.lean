import Reckoner.Operator

/-!
# Expressions and statements

The trees that lines are read into. Trees are also built by hand, and then a node may be missing;
such a hole is a node of its own. The text of a tree is fully bracketed, operator first.

Tasks that walk a tree follow it down to a limited number of levels. The survey of a tree finds
the first place, from left to right, where such a walk cannot go on.
-/

namespace Reckoner

inductive Expr where
  | number (value : Double)
  | name (name : String)
  | unary (op : UnaryOp) (operand : Expr)
  | binary (op : BinaryOp) (left right : Expr)
  | call (function : String) (argument : Expr)
  | hole
deriving DecidableEq

inductive Statement where
  | assign (name : String) (value : Expr)
  | expression (value : Expr)
  | hole
deriving DecidableEq

/-- What keeps a walk over a tree from going on. -/
inductive Obstacle where
  | hole
  | tooDeep
deriving DecidableEq

namespace Obstacle

/-- The fault of a task that meets the obstacle inside an expression. -/
def fault (task : String) (gap : Gap) : Obstacle → Fault
  | hole => .missingNode gap
  | tooDeep => .nestedTooDeeply task

end Obstacle

namespace Expr

/-- The text of a tree without holes, such as `(+ 1.0 (* x 3.0))`. -/
def text : Expr → String
  | number value => value.exactText
  | name n => n
  | unary op e => "(" ++ op.symbol ++ " " ++ e.text ++ ")"
  | binary op l r => "(" ++ op.symbol ++ " " ++ l.text ++ " " ++ r.text ++ ")"
  | call f e => "(" ++ f ++ " " ++ e.text ++ ")"
  | hole => ""

/-- The first obstacle on a walk that may go down the given number of levels. -/
def survey : Nat → Expr → Option Obstacle
  | 0, _ => some .tooDeep
  | _ + 1, number _ => none
  | _ + 1, name _ => none
  | levels + 1, unary _ e => e.survey levels
  | levels + 1, binary _ l r => (l.survey levels).or (r.survey levels)
  | levels + 1, call _ e => e.survey levels
  | _ + 1, hole => some .hole

/-- Succeeds if a task can walk through the whole tree. -/
def walk (levels : Nat) (task : String) (gap : Gap) (e : Expr) : Except Fault Unit :=
  match e.survey levels with
  | none => .ok ()
  | some obstacle => .error (obstacle.fault task gap)

/-- The text of the tree, if it can be walked through. -/
def render (levels : Nat) (e : Expr) : Except Fault String :=
  (e.walk levels "render" .tree).map fun _ => e.text

end Expr

namespace Statement

def text : Statement → String
  | assign n e => "(= " ++ n ++ " " ++ e.text ++ ")"
  | expression e => e.text
  | hole => ""

/-- The text of the statement, if its tree can be walked through. -/
def render (levels : Nat) (s : Statement) : Except Fault String :=
  match s with
  | assign _ e | expression e => (e.walk levels "render" .tree).map fun _ => s.text
  | hole => .error (.missingNode .tree)

end Statement

end Reckoner
