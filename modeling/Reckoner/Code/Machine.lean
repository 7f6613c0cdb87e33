import Reckoner.Code.Basic
import Reckoner.Variables

/-!
# The stack machine

Instructions take their operands from the top of a stack, the right one first, and put their result
back. Setting a variable takes a value and puts nothing back. A fault stops the machine where it is:
variables that were set before stay set.
-/

namespace Reckoner

namespace Machine

/-- The values on the stack, the top first, and the variables. -/
structure State where
  stack : List Double := []
  vars : Variables := {}

def State.push (s : State) (value : Double) : State := { s with stack := value :: s.stack }

/-- Runs one instruction; its index is only for the fault it may end in. -/
def step (index : Nat) (i : Instruction) (s : State) : Except Fault State :=
  match i, s.stack with
  | .loadConst value, _ => .ok (s.push value)
  | .loadLocal name, _ =>
    match s.vars.get? name with
    | some value => .ok (s.push value)
    | none => .error (.undefinedVariable name)
  | .setLocal name, value :: rest => .ok ⟨rest, s.vars.set name value⟩
  | .unary op _, x :: rest => (op.apply x).map fun y => ⟨y :: rest, s.vars⟩
  | .binary op _, y :: x :: rest => (op.apply x y).map fun z => ⟨z :: rest, s.vars⟩
  | .call f, x :: rest => (callFunction f x).map fun y => ⟨y :: rest, s.vars⟩
  | .unknown opcode _, _ => .error (.unknownOpcode opcode)
  | _, _ => .error (.stackUnderflow index i.text)

/-- Where and why the machine stopped before the end of its code, and the variables it left. -/
structure Halt where
  index : Nat
  fault : Fault
  vars : Variables

/-- Runs code whose first instruction has the given index. -/
def runFrom (index : Nat) : Code → State → Except Halt State
  | [], s => .ok s
  | i :: rest, s =>
    match step index i s with
    | .ok next => runFrom (index + 1) rest next
    | .error fault => .error ⟨index, fault, s.vars⟩

/-- Runs code on an empty stack. -/
def run (code : Code) (vars : Variables) : Except Halt State := runFrom 0 code ⟨[], vars⟩

/-- An instruction that the machine came to, with the stack it found. -/
structure Visit where
  index : Nat
  instruction : Instruction
  stack : List Double

/-- The instructions that the machine comes to, up to the one that stops it. -/
def visitsFrom (index : Nat) : Code → State → List Visit
  | [], _ => []
  | i :: rest, s =>
    ⟨index, i, s.stack⟩ ::
      match step index i s with
      | .ok next => visitsFrom (index + 1) rest next
      | .error _ => []

def visits (code : Code) (vars : Variables) : List Visit := visitsFrom 0 code ⟨[], vars⟩

/-- An instruction and the stack it found, the bottom first. The values come with the top first. -/
def visitText (index : Nat) (instruction : String) (values : List String) : String :=
  s!"#{index} " ++ instruction ++ ", stack: [" ++ ", ".intercalate values.reverse ++ "]"

def Visit.text (v : Visit) : String :=
  visitText v.index v.instruction.text (v.stack.map Double.exactText)

end Machine

end Reckoner
