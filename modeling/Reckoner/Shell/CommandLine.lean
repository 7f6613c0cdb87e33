import Reckoner.Shell.Options

/-!
# The command line

A whole run of the program: the arguments and everything there is to read go in, and the exit code
with both outputs comes out.
-/

namespace Reckoner

/-- How a run of the program ended. -/
structure Exit where
  code : Nat
  output : String := ""
  errors : String := ""
deriving DecidableEq

namespace CommandLine

/-- The lines of a text; a line feed, a carriage return, or the two together end a line. `line`
holds the characters of the line so far, the last first. -/
def linesFrom (line : List Char) : List Char → List String
  | [] => if line.isEmpty then [] else [String.ofList line.reverse]
  | '\r' :: '\n' :: rest => String.ofList line.reverse :: linesFrom [] rest
  | '\r' :: rest => String.ofList line.reverse :: linesFrom [] rest
  | '\n' :: rest => String.ofList line.reverse :: linesFrom [] rest
  | c :: rest => linesFrom (c :: line) rest

def lines (text : String) : List String := linesFrom [] text.toList

/-- What an event adds to the standard output. -/
def output : Shell.Event → String
  | .prompt text => text
  | .write text => text ++ "\n"
  | .log _ => ""

/-- What an event adds to the standard error output. -/
def errors : Shell.Event → String
  | .log entry => entry.line ++ "\n"
  | _ => ""

/-- The end of a run of the shell. -/
def ending (run : Shell.Run) : Exit :=
  ⟨run.code, String.join (run.events.map output), String.join (run.events.map errors)⟩

/-- The end of a run whose arguments give no settings. -/
def refusal : Options.Stop → Exit
  | .help => { code := 0, output := Options.helpText }
  | .error e =>
    { code := 2, errors := Options.usage ++ "stackcalc: error: " ++ e.message ++ "\n" }
  | .noMode => { code := 1, errors := Options.noModeText ++ "\n" }

/-- Runs the commands of the settings if there are any, and else the dialogue. -/
def runSettings (settings : Settings) (input : String) : Exit :=
  match settings.commands with
  | [] => ending (Shell.atPrompt settings settings.logLevel ((lines input).map .line))
  | _ => ending (Shell.overCommands settings settings.logLevel)

def run (arguments : List String) (input : String) : Exit :=
  match Options.parse arguments with
  | .error stop => refusal stop
  | .ok settings => runSettings settings input

end CommandLine

end Reckoner
