import Reckoner.Session.Basic
import Reckoner.Text.Blank

/-!
# The shell

The shell runs lines in one session, either as they are answered to its prompt or as a list of
commands. It writes the stages that the settings ask for, then one text for each line: its result or
its error. A line that fails does not end the session.
-/

namespace Reckoner

/-- What an option that takes a text was given: a text, or nothing at all. -/
inductive Given where
  | text (text : String)
  | nothing
deriving DecidableEq

namespace Given

/-- How it is shown as a prompt. -/
def shown : Given → String
  | text t => t
  | nothing => "[]"

/-- How it is named in the log. -/
def label : Given → String
  | text t => Text.quoted t
  | nothing => "[]"

/-- The line that is run for it. -/
def line : Given → String
  | text t => t
  | nothing => ""

end Given

/-- How the shell is to run. -/
structure Settings where
  mode : Mode := .interpret
  prompt : Given := .text "> "
  verbosity : Nat := 0
  showTokens : Bool := false
  showTree : Bool := false
  showCode : Bool := false
  commands : List Given := []
deriving DecidableEq

namespace Settings

def shows (settings : Settings) : Stage → Bool
  | .tokens => settings.showTokens
  | .tree => settings.showTree
  | .code => settings.showCode

/-- The amount of logging that a verbosity stands for. -/
def logLevel (settings : Settings) : LogLevel :=
  match settings.verbosity with
  | 0 => .warning
  | 1 => .info
  | _ => .debug

/-- A fresh session with a listener if any stage is to be shown. -/
def session (settings : Settings) (level : LogLevel) : Session :=
  let listens := settings.showTokens || settings.showTree || settings.showCode
  { mode := settings.mode, observer := { listens, level } }

end Settings

namespace Shell

/-- What the shell does, as seen from outside. -/
inductive Event where
  | prompt (text : String)
  | write (text : String)
  | log (entry : LogEntry)
deriving DecidableEq

/-- The text of a stage, under its name if it has several lines. -/
def stageText (stage : Stage) (text : String) : String :=
  match stage with
  | .code => stage.name ++ ":\n" ++ text
  | _ => stage.name ++ ": " ++ text

/-- What becomes of an event of the session. -/
def pass (settings : Settings) : Reckoner.Event → List Event
  | .stage stage text => if settings.shows stage then [.write (stageText stage text)] else []
  | .log entry => [.log entry]

/-- The log entry for a line that failed. -/
def failureEntry (given : Given) (failure : Failure) : LogEntry :=
  ⟨.info, .shell, "line " ++ given.label ++ " failed: " ++ failure.kind⟩

/-- The last things done for a line: its result is written, or its failure logged and written. -/
def conclude (session : Session) (given : Given) : Except Failure Result → List Event
  | .ok result => [.write result.text]
  | .error failure =>
    let entry := failureEntry given failure
    let logged := if session.observer.level.covers .info then [Event.log entry] else []
    logged ++ [.write failure.message]

/-- What came of a line: whether it succeeded, the session after it, and what the shell did. -/
structure Turn where
  succeeded : Bool
  session : Session
  events : List Event

def runLine (settings : Settings) (session : Session) (given : Given) : Turn :=
  let report := session.run given.line
  { succeeded := report.outcome.isOk
    session := session.next report
    events := report.events.flatMap (pass settings) ++ conclude session given report.outcome }

/-- An answer to the prompt. -/
inductive Answer where
  | line (text : String)
  | interrupt
deriving DecidableEq

/-- The dialogue with someone who gives the answers in turn and then no more. Blank lines are passed
over, and an interrupt ends the dialogue as the end of the answers does. -/
def dialogue (settings : Settings) : Session → List Answer → List Event
  | _, [] => [.prompt settings.prompt.shown]
  | _, .interrupt :: _ => [.prompt settings.prompt.shown]
  | session, .line text :: rest =>
    if Text.allBlank text then .prompt settings.prompt.shown :: dialogue settings session rest
    else
      let turn := runLine settings session (.text text)
      .prompt settings.prompt.shown :: turn.events ++ dialogue settings turn.session rest

/-- Runs all commands, and tells whether every one succeeded. -/
def runCommands (settings : Settings) : Session → List Given → Bool × List Event
  | _, [] => (true, [])
  | session, command :: rest =>
    let turn := runLine settings session command
    let (others, events) := runCommands settings turn.session rest
    (turn.succeeded && others, turn.events ++ events)

/-- A whole run of the shell: its exit code and what it did. -/
structure Run where
  code : Nat
  events : List Event

/-- A run with someone at the prompt, which is a success however it ends. -/
def atPrompt (settings : Settings) (level : LogLevel) (answers : List Answer) : Run :=
  ⟨0, dialogue settings (settings.session level) answers⟩

/-- A run over the commands of the settings, which is a success if every command is. -/
def overCommands (settings : Settings) (level : LogLevel) : Run :=
  let (succeeded, events) := runCommands settings (settings.session level) settings.commands
  ⟨if succeeded then 0 else 1, events⟩

end Shell

end Reckoner
