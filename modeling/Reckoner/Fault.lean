import Reckoner.Decimal.Style
import Reckoner.Text.Quoted

/-!
# Faults

What can go wrong while a statement is rendered, worked out, or turned into code and run. The
wording of each fault stands here and nowhere else.
-/

namespace Reckoner

/-- Where a tree has a gap instead of a node. -/
inductive Gap where
  | tree
  | expression
  | statement
deriving DecidableEq

inductive Fault where
  /-- A name was read that has no value. -/
  | undefinedVariable (name : String)
  /-- A name was called that is not a function. -/
  | unknownFunction (name : String)
  | invalidFactorial (value : Double)
  | invalidExponent (value : Double)
  /-- An instruction found fewer operands on the stack than it takes. -/
  | stackUnderflow (index : Int) (instruction : String)
  /-- Code ran to its end and left nothing behind. -/
  | missingResult (count : Int)
  /-- A tree has more levels than the task can follow. -/
  | nestedTooDeeply (task : String)
  /-- A tree built by hand lacks a node. -/
  | missingNode (gap : Gap)
  /-- Code written by hand holds an instruction that the machine does not have. -/
  | unknownOpcode (name : String)
deriving DecidableEq

namespace Fault

def message : Fault → String
  | undefinedVariable name => "[Runtime error] Undefined variable: " ++ Text.quoted name
  | unknownFunction name => "[Runtime error] Unknown function: " ++ Text.quoted name
  | invalidFactorial value => "[Runtime error] Invalid factorial: " ++ value.exactText
  | invalidExponent value => "[Runtime error] Invalid exponent: " ++ value.exactText
  | stackUnderflow index instruction =>
    s!"[Internal error] Stack underflow at #{index} ({instruction})"
  | missingResult count => s!"[Internal error] Stack is empty after {count} instruction(s)"
  | nestedTooDeeply task => s!"[Runtime error] Expression is nested too deeply to {task}"
  | missingNode .tree => "Unexpected tree node: None"
  | missingNode .expression => "Unexpected expression type: None"
  | missingNode .statement => "Unexpected statement type: None"
  | unknownOpcode name => s!"Unexpected opcode: {name}"

end Fault

end Reckoner
