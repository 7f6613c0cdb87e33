import Reckoner.Code.Compile
import Reckoner.Code.Machine
import Reckoner.Expr.Eval
import Reckoner.Session.Failure
import Reckoner.Session.Observer

/-!
# Sessions

A session keeps the variables between lines. Each line is read into tokens, then into a statement,
and the statement is worked out on its tree or as code on the stack machine, as the mode says.
Running a line gives a report: its outcome, the variables after it, and the events an observer
saw.
-/

namespace Reckoner

inductive Mode where
  | interpret
  | compile
deriving DecidableEq

def Mode.name : Mode → String
  | interpret => "INTERPRET"
  | compile => "COMPILE"

/-- How deep brackets and signs may nest when a line is read, and how many levels of a tree may be
walked down. -/
structure Limits where
  nesting : Nat := 1000
  levels : Nat := 1000

structure Session where
  mode : Mode := .interpret
  vars : Variables := {}
  observer : Observer := {}
  limits : Limits := {}

/-- What came of a line or a statement. -/
structure Report where
  outcome : Except Failure Result
  vars : Variables
  events : List Event := []

/-- The same report with events that came before. -/
def Report.after (r : Report) (earlier : List Event) : Report :=
  { r with events := earlier ++ r.events }

/-- What an observer sees of a run of the machine: every instruction, if all details are logged. -/
def Observer.watchMachine (o : Observer) (code : Code) (vars : Variables) : List Event :=
  if o.level.covers .debug then
    (Machine.visits code vars).flatMap fun v => o.log .debug .machine fun _ => v.text
  else []

namespace Session

/-- A report that leaves the variables as they are. -/
def failed (s : Session) (failure : Failure) (events : List Event := []) : Report :=
  ⟨.error failure, s.vars, events⟩

/-- A report of success, which is logged. -/
def succeeded (s : Session) (result : Result) (vars : Variables) : Report :=
  { outcome := .ok result
    vars
    events := s.observer.log .info .session fun _ => s.mode.name ++ ": " ++ result.text }

/-- Works a statement out on its tree. -/
def interpret (s : Session) (statement : Statement) : Report :=
  match statement.eval s.vars s.limits.levels with
  | .ok (result, vars) => s.succeeded result vars
  | .error fault => s.failed (.fault fault)

/-- The result that code of a statement leaves behind: the variable it assigned to, or the top of
the stack. -/
def resultOf (statement : Statement) (final : Machine.State) : Option Result :=
  match statement with
  | .assign name _ => (final.vars.get? name).map (⟨some name, ·⟩)
  | _ => final.stack.head?.map (⟨none, ·⟩)

/-- Runs the code of a statement on the stack machine. -/
def runCode (s : Session) (statement : Statement) (code : Code) : Report :=
  let report : Report :=
    match Machine.run code s.vars with
    | .error halt => ⟨.error (.fault halt.fault), halt.vars, []⟩
    | .ok final =>
      match resultOf statement final with
      | some result => s.succeeded result final.vars
      | none => ⟨.error (.fault (.missingResult code.length)), final.vars, []⟩
  report.after (s.observer.watchMachine code s.vars)

/-- Works a statement out by way of code. -/
def compile (s : Session) (statement : Statement) : Report :=
  match statement.compile s.limits.levels with
  | .error fault => s.failed (.fault fault)
  | .ok code => (s.runCode statement code).after (s.observer.report .code fun _ => code.listing)

/-- Works a statement out in the mode of the session. -/
def execute (s : Session) (statement : Statement) : Report :=
  match s.mode with
  | .interpret => s.interpret statement
  | .compile => s.compile statement

/-- Shows the tree of a statement, if anyone watches, and works the statement out. -/
def showAndExecute (s : Session) (statement : Statement) : Report :=
  if s.observer.watches then
    match statement.render s.limits.levels with
    | .error fault => s.failed (.fault fault)
    | .ok text => (s.execute statement).after (s.observer.report .tree fun _ => text)
  else s.execute statement

/-- Runs a line. -/
def run (s : Session) (line : String) : Report :=
  match Token.scan line with
  | .error e => s.failed (.scan e)
  | .ok tokens =>
    let shown := s.observer.report .tokens fun _ => Token.listText tokens
    match Statement.ofTokens s.limits.nesting tokens with
    | .error e => s.failed (.parse e) shown
    | .ok statement => (s.showAndExecute statement).after shown

/-- The session after a report. -/
def next (s : Session) (r : Report) : Session := { s with vars := r.vars }

end Session

end Reckoner
