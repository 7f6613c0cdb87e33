import Reckoner.Operator

/-!
# Stack code

The instructions of the stack machine and their listing. Code is made from trees or written by hand;
in code written by hand an instruction that needs no operand may still carry a remark, which is
shown and has no effect, and an instruction may be one that the machine does not have.
-/

namespace Reckoner

inductive Instruction where
  | loadConst (value : Double)
  | loadLocal (name : String)
  | setLocal (name : String)
  | unary (op : UnaryOp) (remark : Option String := none)
  | binary (op : BinaryOp) (remark : Option String := none)
  | call (function : String)
  | unknown (opcode : String) (remark : Option String := none)
deriving DecidableEq

abbrev Code := List Instruction

def UnaryOp.opcode : UnaryOp → String
  | plus => "POS"
  | minus => "NEG"
  | factorial => "FACT"

def BinaryOp.opcode : BinaryOp → String
  | add => "ADD"
  | sub => "SUB"
  | mul => "MUL"
  | div => "DIV"
  | pow => "POW"

namespace Instruction

/-- The instruction with the given opcode that takes no operand. -/
def ofOpcode (opcode : String) (remark : Option String) : Instruction :=
  let unaries : List UnaryOp := [.plus, .minus, .factorial]
  let binaries : List BinaryOp := [.add, .sub, .mul, .div, .pow]
  match unaries.find? (·.opcode = opcode), binaries.find? (·.opcode = opcode) with
  | some op, _ => .unary op remark
  | none, some op => .binary op remark
  | none, none => .unknown opcode remark

def withRemark (opcode : String) : Option String → String
  | none => opcode
  | some remark => opcode ++ " " ++ remark

def text : Instruction → String
  | loadConst value => "LOAD_CONST " ++ value.exactText
  | loadLocal name => "LOAD_LOCAL " ++ name
  | setLocal name => "SET_LOCAL " ++ name
  | unary op remark => withRemark op.opcode remark
  | binary op remark => withRemark op.opcode remark
  | call f => "CALL " ++ f
  | unknown opcode remark => withRemark opcode remark

end Instruction

namespace Code

/-- One line of a listing: the index, set to the right in four columns, and the instruction. -/
def line (instruction : String) (index : Nat) : String :=
  let number := Nat.toDigits 10 index
  String.ofList (List.replicate (4 - number.length) ' ' ++ number) ++ "  " ++ instruction

def lines (code : Code) : List String := code.zipIdx.map fun (i, index) => line i.text index

def listing (code : Code) : String := "\n".intercalate code.lines

end Code

end Reckoner
