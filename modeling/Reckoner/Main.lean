import Reckoner.Shell.CommandLine

/-!
# The program

Reads the arguments, then either runs the given commands or answers lines at a prompt as they come.
-/

namespace Reckoner.Program

/-- Shows an event on the output it belongs to. -/
def perform (event : Shell.Event) : IO Unit := do
  (← IO.getStderr).putStr (CommandLine.errors event)
  let out ← IO.getStdout
  out.putStr (CommandLine.output event)
  out.flush

def performAll (events : List Shell.Event) : IO Unit := events.forM perform

/-- Answers the lines of one piece of input; the prompt for the first has been shown. -/
def answer (settings : Settings) : Session → List String → IO Session
  | session, [] => return session
  | session, line :: rest => do
    let next ←
      if Text.allBlank line then pure session
      else
        let turn := Shell.runLine settings session (.text line)
        performAll turn.events
        pure turn.session
    perform (.prompt settings.prompt.shown)
    answer settings next rest

/-- Reads and answers lines until there are no more. -/
partial def converse (settings : Settings) (session : Session) : IO Unit := do
  let input ← (← IO.getStdin).getLine
  if input.isEmpty then return
  let next ← answer settings session (CommandLine.lines input)
  converse settings next

end Reckoner.Program

open Reckoner in
def main (arguments : List String) : IO UInt32 := do
  match Options.parse arguments with
  | .error stop =>
    let exit := CommandLine.refusal stop
    IO.print exit.output
    IO.eprint exit.errors
    return exit.code.toUInt32
  | .ok settings =>
    match settings.commands with
    | [] =>
      Program.perform (.prompt settings.prompt.shown)
      Program.converse settings (settings.session settings.logLevel)
      return 0
    | _ =>
      let run := Shell.overCommands settings settings.logLevel
      Program.performAll run.events
      return run.code.toUInt32
