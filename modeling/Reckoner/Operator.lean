import Reckoner.Double.Power
import Reckoner.Fault

/-!
# Operators and functions

The operators of the calculator with their symbols, its functions with their names, and what each
does to doubles.
-/

namespace Reckoner

inductive UnaryOp where
  | plus
  | minus
  | factorial
deriving DecidableEq

inductive BinaryOp where
  | add
  | sub
  | mul
  | div
  | pow
deriving DecidableEq

namespace UnaryOp

def symbol : UnaryOp → String
  | plus => "+"
  | minus => "-"
  | factorial => "!"

def apply : UnaryOp → Double → Except Fault Double
  | plus, x => .ok x
  | minus, x => .ok x.neg
  | factorial, x =>
    match x.factorial? with
    | some y => .ok y
    | none => .error (.invalidFactorial x)

end UnaryOp

namespace BinaryOp

def symbol : BinaryOp → String
  | add => "+"
  | sub => "-"
  | mul => "*"
  | div => "/"
  | pow => "^"

def apply : BinaryOp → Double → Double → Except Fault Double
  | add, x, y => .ok (x.add y)
  | sub, x, y => .ok (x.sub y)
  | mul, x, y => .ok (x.mul y)
  | div, x, y => .ok (x.div y)
  | pow, x, y =>
    match x.pow? y with
    | some z => .ok z
    | none => .error (.invalidExponent y)

end BinaryOp

/-- The functions by name. -/
def function? : String → Option (Double → Double)
  | "sqrt" => some Double.sqrt
  | "abs" => some Double.abs
  | _ => none

def callFunction (name : String) (x : Double) : Except Fault Double :=
  match function? name with
  | some f => .ok (f x)
  | none => .error (.unknownFunction name)

end Reckoner
