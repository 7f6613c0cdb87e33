import Reckoner.Code.Machine

/-!
# Drafts of code

Code written by hand may leave out an operand where one is needed. Such a draft runs all the same:
a load without its constant puts a blank on the stack, and an instruction without its name means
the variable without a name. A blank can be moved about, but nothing can be worked out with it. A
draft that leaves nothing out is code, and the machine runs it.
-/

namespace Reckoner

/-- The instructions that need an operand. -/
inductive Bare where
  | loadConst
  | loadLocal
  | setLocal
  | call
deriving DecidableEq

def Bare.opcode : Bare → String
  | loadConst => "LOAD_CONST"
  | loadLocal => "LOAD_LOCAL"
  | setLocal => "SET_LOCAL"
  | call => "CALL"

/-- An instruction, or one whose operand is left out. -/
inductive DraftLine where
  | whole (instruction : Instruction)
  | bare (instruction : Bare)
deriving DecidableEq

def DraftLine.text : DraftLine → String
  | whole i => i.text
  | bare b => b.opcode

abbrev Draft := List DraftLine

/-- What stands on the stack or in a variable of a draft: a double, or a blank. -/
abbrev Slot := Option Double

def Slot.text : Slot → String
  | some x => x.exactText
  | none => "None"

/-- How an operation refuses a blank. -/
inductive BlankRefusal where
  /-- The operation takes one operand, and it is blank. -/
  | operand (operation : String)
  /-- The operator takes two operands; whether the left and the right one are blank. -/
  | operands (op : BinaryOp) (left right : Bool)
  /-- A blank is neither below zero nor not. -/
  | comparison
  | number
deriving DecidableEq

namespace BlankRefusal

def kindText (isBlank : Bool) : String := if isBlank then "'NoneType'" else "'float'"

def message : BlankRefusal → String
  | operand operation => s!"bad operand type for {operation}: " ++ kindText true
  | operands op left right =>
    s!"unsupported operand type(s) for {op.symbol}: " ++ kindText left ++ " and " ++ kindText right
  | comparison => "'<' not supported between instances of " ++ kindText true ++ " and 'int'"
  | number => "must be real number, not NoneType"

end BlankRefusal

namespace Draft

/-- The code of a draft that leaves nothing out. -/
def code? (draft : Draft) : Option Code :=
  draft.mapM fun
    | .whole i => some i
    | .bare _ => none

def listing (draft : Draft) : String :=
  "\n".intercalate (draft.zipIdx.map fun (line, index) => Code.line line.text index)

/-- What can go wrong in a draft besides the faults of code. -/
inductive Problem where
  | fault (fault : Fault)
  /-- The variable without a name was read before it was set. -/
  | unnamedVariable
  /-- A call does not say of what. -/
  | unnamedFunction
  | blank (refusal : BlankRefusal)
deriving DecidableEq

def Problem.message : Problem → String
  | fault f => f.message
  | unnamedVariable => "[Runtime error] Undefined variable: None"
  | unnamedFunction => "[Runtime error] Unknown function: None"
  | blank refusal => refusal.message

/-- The outcome of an operation on doubles as that of one on slots. -/
def lift (outcome : Except Fault Double) : Except Problem Slot :=
  match outcome with
  | .ok x => .ok (some x)
  | .error fault => .error (.fault fault)

def applyUnary : UnaryOp → Slot → Except Problem Slot
  | op, some x => lift (op.apply x)
  | .plus, none => .ok none
  | .minus, none => .error (.blank (.operand "unary -"))
  | .factorial, none => .error (.blank (.operand "abs()"))

def applyBinary (op : BinaryOp) (left right : Slot) : Except Problem Slot :=
  match op, left, right with
  | op, some x, some y => lift (op.apply x y)
  | .pow, _, none => .error (.blank .comparison)
  | .pow, none, some y =>
    if y.isBelowZero then .error (.fault (.invalidExponent y)) else .error (.blank .number)
  | .div, none, some y =>
    if y.isZero then .error (.blank .number) else .error (.blank (.operands .div true false))
  | op, _, _ => .error (.blank (.operands op left.isNone right.isNone))

def applyFunction (name : String) : Slot → Except Problem Slot
  | some x => lift (callFunction name x)
  | none =>
    match name with
    | "sqrt" => .error (.blank .comparison)
    | "abs" => .error (.blank (.operand "abs()"))
    | _ => .error (.fault (.unknownFunction name))

/-- The slots on the stack, the top first, and the variables, of which one may have no name. -/
structure State where
  stack : List Slot := []
  vars : List (Option String × Slot) := []

namespace State

/-- The state before a draft runs. -/
def start (vars : Variables) : State :=
  { vars := vars.entries.map fun (name, value) => (some name, some value) }

def push (s : State) (slot : Slot) : State := { s with stack := slot :: s.stack }

/-- Puts the value of a variable on the stack, if it has one. -/
def load (s : State) (name : Option String) (otherwise : Problem) : Except Problem State :=
  match s.vars.lookup name with
  | some slot => .ok (s.push slot)
  | none => .error otherwise

/-- Sets a variable; `rest` is the stack after that. -/
def store (s : State) (name : Option String) (slot : Slot) (rest : List Slot) : State :=
  ⟨rest, (name, slot) :: s.vars.filter (·.1 ≠ name)⟩

/-- The variables by name, the one without a name first. -/
def sortedVars (s : State) : List (Option String × Slot) :=
  s.vars.mergeSort fun a b =>
    match a.1, b.1 with
    | none, _ => true
    | some _, none => false
    | some x, some y => decide (x ≤ y)

end State

/-- Runs one line of a draft; its index is only for the problem it may end in. -/
def step (index : Nat) (line : DraftLine) (s : State) : Except Problem State :=
  match line, s.stack with
  | .whole (.loadConst value), _ => .ok (s.push (some value))
  | .whole (.loadLocal name), _ => s.load (some name) (.fault (.undefinedVariable name))
  | .whole (.setLocal name), slot :: rest => .ok (s.store (some name) slot rest)
  | .whole (.unary op _), x :: rest => (applyUnary op x).map fun y => ⟨y :: rest, s.vars⟩
  | .whole (.binary op _), y :: x :: rest => (applyBinary op x y).map fun z => ⟨z :: rest, s.vars⟩
  | .whole (.call f), x :: rest => (applyFunction f x).map fun y => ⟨y :: rest, s.vars⟩
  | .whole (.unknown opcode _), _ => .error (.fault (.unknownOpcode opcode))
  | .bare .loadConst, _ => .ok (s.push none)
  | .bare .loadLocal, _ => s.load none .unnamedVariable
  | .bare .setLocal, slot :: rest => .ok (s.store none slot rest)
  | .bare .call, _ :: _ => .error .unnamedFunction
  | _, _ => .error (.fault (.stackUnderflow index line.text))

/-- A run of a draft: the texts of the lines it came to, the problem that ended it if there was one,
and the state it left. -/
structure Run where
  visits : List String := []
  problem : Option Problem := none
  state : State

/-- Runs a draft whose first line has the given index. -/
def runFrom (index : Nat) : Draft → State → Run
  | [], s => { state := s }
  | line :: rest, s =>
    let visit := Machine.visitText index line.text (s.stack.map Slot.text)
    match step index line s with
    | .ok next =>
      let run := runFrom (index + 1) rest next
      { run with visits := visit :: run.visits }
    | .error problem => { visits := [visit], problem, state := s }

/-- Runs a draft on an empty stack. -/
def run (draft : Draft) (vars : Variables) : Run := runFrom 0 draft (State.start vars)

end Draft

end Reckoner
