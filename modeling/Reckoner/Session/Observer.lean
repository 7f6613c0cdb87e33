/-!
# Observers

What a session shows of its work besides the results. A listener is handed the stages of each line
as texts; without a listener the stages are logged in full detail only. Log entries belong to the
part of the calculator that they come from.
-/

namespace Reckoner

/-- The stages of a line that can be shown. -/
inductive Stage where
  | tokens
  | tree
  | code
deriving DecidableEq

def Stage.name : Stage → String
  | tokens => "tokens"
  | tree => "ast"
  | code => "bytecode"

/-- How much is logged, and what kind of entry something is. -/
inductive LogLevel where
  | warning
  | info
  | debug
deriving DecidableEq

namespace LogLevel

def name : LogLevel → String
  | warning => "WARNING"
  | info => "INFO"
  | debug => "DEBUG"

/-- A level covers the entries that are at most as detailed as it. -/
def covers : LogLevel → LogLevel → Bool
  | debug, _ => true
  | info, debug => false
  | info, _ => true
  | warning, warning => true
  | warning, _ => false

end LogLevel

/-- The parts of the calculator that log. -/
inductive Channel where
  | session
  | machine
  | shell
deriving DecidableEq

def Channel.name : Channel → String
  | session => "stackcalc.session"
  | machine => "stackcalc.vm"
  | shell => "stackcalc.repl"

structure LogEntry where
  level : LogLevel
  channel : Channel
  text : String
deriving DecidableEq

def LogEntry.line (e : LogEntry) : String := e.level.name ++ " " ++ e.channel.name ++ ": " ++ e.text

/-- Something that an observer gets to see. -/
inductive Event where
  | stage (stage : Stage) (text : String)
  | log (entry : LogEntry)
deriving DecidableEq

/-- Whether there is a listener, and how much is logged. -/
structure Observer where
  listens : Bool := false
  level : LogLevel := .warning
deriving DecidableEq

namespace Observer

def log (o : Observer) (level : LogLevel) (channel : Channel) (text : Unit → String) : List Event :=
  if o.level.covers level then [.log ⟨level, channel, text ()⟩] else []

/-- Hands a stage to the listener, or logs it if there is none. -/
def report (o : Observer) (stage : Stage) (text : Unit → String) : List Event :=
  if o.listens then [.stage stage (text ())]
  else o.log .debug .session fun _ => stage.name ++ ": " ++ text ()

/-- Whether stages are shown at all. -/
def watches (o : Observer) : Bool := o.listens || o.level.covers .debug

end Observer

end Reckoner
