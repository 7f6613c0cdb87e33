import Reckoner.Shell.Basic
import Reckoner.Text.DecimalDigit

/-!
# Options

How the arguments of the command line become settings. Every argument is first classified on its
own: as a value, as a known option with or without a value attached, or as one that is not known.
Then the arguments are taken from left to right. What belongs to no option is collected, and
refused at the end.
-/

namespace Reckoner

inductive Flag where
  | help
  | mode
  | verbose
  | prompt
  | showTokens
  | showTree
  | showCode
  | command
deriving DecidableEq

namespace Flag

/-- The names of all options, in the order in which they are listed. -/
def names : List (String × Flag) :=
  [("-h", help), ("--help", help), ("--mode", mode), ("-v", verbose), ("--prompt", prompt),
   ("--show-tokens", showTokens), ("--show-ast", showTree), ("--show-bytecode", showCode),
   ("-c", command), ("--command", command)]

def ofName? (name : String) : Option Flag := names.lookup name

/-- All names of an option. -/
def title (flag : Flag) : String :=
  "/".intercalate (names.filterMap fun (name, f) => if f = flag then some name else none)

def takesValue : Flag → Bool
  | mode => true
  | prompt => true
  | command => true
  | _ => false

end Flag

/-- Why arguments are refused. -/
inductive OptionError where
  | ambiguous (argument : String) (names : List String)
  | valueExpected (flag : Flag)
  | valueIgnored (flag : Flag) (value : String)
  | invalidMode (value : String)
  | unrecognized (arguments : List String)
deriving DecidableEq

def OptionError.message : OptionError → String
  | ambiguous argument names =>
    "ambiguous option: " ++ argument ++ " could match " ++ ", ".intercalate names
  | valueExpected flag => "argument " ++ flag.title ++ ": expected one argument"
  | valueIgnored flag value =>
    "argument " ++ flag.title ++ ": ignored explicit argument " ++ Text.quoted value
  | invalidMode value =>
    "argument --mode: invalid choice: " ++ Text.quoted value
      ++ " (choose from 'interpret', 'compile')"
  | unrecognized arguments => "unrecognized arguments: " ++ " ".intercalate arguments

namespace Options

/-- What an argument is, taken on its own. -/
inductive Class where
  /-- Not an option, so it may be the value of one. -/
  | value
  /-- The mark after which there are no options any more. -/
  | separator
  /-- In the form of an option, but none is known by it. -/
  | unknown
  /-- An option, with the value attached to it by an equals sign if there is one. -/
  | option (flag : Flag) (attached : Option String)
  /-- A short option with further characters, which are its value or more short options. -/
  | cluster (flag : Flag) (tail : List Char)
deriving DecidableEq

/-- A minus sign with digits, and a point among them or in front. One line end may follow. -/
def isNegativeNumber (cs : List Char) : Bool :=
  let isDigit := fun c => (Text.digitValue? c).isSome
  let body := if cs.getLast? = some '\n' then cs.dropLast else cs
  match body with
  | '-' :: rest =>
    match rest.dropWhile isDigit with
    | [] => !rest.isEmpty
    | '.' :: fraction => !fraction.isEmpty && fraction.all isDigit
    | _ => false
  | _ => false

/-- The part before the first equals sign, and the part after it if there is one. -/
def splitEquals (cs : List Char) : String × Option String :=
  match cs.dropWhile (· ≠ '=') with
  | [] => (String.ofList cs, none)
  | _ :: rest => (String.ofList (cs.takeWhile (· ≠ '=')), some (String.ofList rest))

/-- An argument that no option is known by. -/
def classifyOther (cs : List Char) : Class :=
  if isNegativeNumber cs || cs.contains ' ' then .value else .unknown

/-- An argument that starts with two minus signs. A long option may be cut short as long as only one
option starts that way. -/
def classifyLong (cs : List Char) : Except OptionError Class :=
  let (name, attached) := splitEquals cs
  match Flag.ofName? name with
  | some flag => .ok (.option flag attached)
  | none =>
    match Flag.names.filter fun (full, _) => name.toList.isPrefixOf full.toList with
    | [] => .ok (classifyOther cs)
    | [(_, flag)] => .ok (.option flag attached)
    | several => .error (.ambiguous (String.ofList cs) (several.map Prod.fst))

/-- A short option and the characters after its letter, of which a leading equals sign does not
count. -/
def classifyShort (flag : Flag) : List Char → Class
  | [] => .option flag none
  | ['='] => .option flag (some "")
  | '=' :: tail => .cluster flag tail
  | tail => .cluster flag tail

def classify (argument : String) : Except OptionError Class :=
  match argument.toList with
  | ['-', '-'] => .ok .separator
  | '-' :: '-' :: rest => classifyLong ('-' :: '-' :: rest)
  | '-' :: letter :: tail =>
    match Flag.ofName? (String.ofList ['-', letter]) with
    | some flag => .ok (classifyShort flag tail)
    | none => .ok (classifyOther ('-' :: letter :: tail))
  | _ => .ok .value

/-- The arguments with their classes; after the separator all are values. -/
def classifyAll : List String → Except OptionError (List (String × Class))
  | [] => .ok []
  | argument :: rest => do
    match ← classify argument with
    | .separator => return (argument, .separator) :: rest.map (·, .value)
    | found => return (argument, found) :: (← classifyAll rest)

/-- An option to act on, with its value if it takes one. -/
abbrev Action := Flag × Given

/-- What is given by a value. The separator does not count as one, even where it is attached. -/
def given (value : String) : Given := if value = "--" then .nothing else .text value

/-- What an option comes to: actions, and the arguments after it. -/
structure Taken where
  actions : List Action
  rest : List (String × Class)

/-- An option without an attached value; one that takes a value finds it in the next argument. -/
def takeBare (flag : Flag) (rest : List (String × Class)) : Except OptionError Taken :=
  if flag.takesValue then
    match rest with
    | (value, .value) :: after => .ok ⟨[(flag, given value)], after⟩
    | _ => .error (.valueExpected flag)
  else .ok ⟨[(flag, .nothing)], rest⟩

/-- An option with an attached value. -/
def takeAttached (flag : Flag) (value : String) (rest : List (String × Class)) :
    Except OptionError Taken :=
  if flag.takesValue then .ok ⟨[(flag, given value)], rest⟩
  else .error (.valueIgnored flag value)

/-- A short option and the characters after it: its value, or the letters of further options. -/
def takeCluster (rest : List (String × Class)) (flag : Flag) :
    List Char → Except OptionError Taken
  | [] => takeBare flag rest
  | c :: tail =>
    match flag.takesValue, Flag.ofName? (String.ofList ['-', c]) with
    | false, some following => do
      let taken ← takeCluster rest following tail
      return ⟨(flag, .nothing) :: taken.actions, taken.rest⟩
    | _, _ => takeAttached flag (String.ofList (c :: tail)) rest

/-- Why there are no settings: help was asked for, the arguments are refused, or a mode was to be
given and was not. -/
inductive Stop where
  | help
  | error (error : OptionError)
  | noMode
deriving DecidableEq

/-- What the arguments so far ask for, and whether the last of them that was to give a mode gave
one. -/
structure Progress where
  settings : Settings := {}
  hasMode : Bool := true

/-- The same progress with other settings. -/
def Progress.update (p : Progress) (change : Settings → Settings) : Progress :=
  { p with settings := change p.settings }

def act (p : Progress) : Action → Except Stop Progress
  | (.help, _) => .error .help
  | (.mode, .text "interpret") => .ok ⟨{ p.settings with mode := .interpret }, true⟩
  | (.mode, .text "compile") => .ok ⟨{ p.settings with mode := .compile }, true⟩
  | (.mode, .text value) => .error (.error (.invalidMode value))
  | (.mode, .nothing) => .ok { p with hasMode := false }
  | (.verbose, _) => .ok (p.update fun s => { s with verbosity := s.verbosity + 1 })
  | (.prompt, value) => .ok (p.update ({ · with prompt := value }))
  | (.showTokens, _) => .ok (p.update ({ · with showTokens := true }))
  | (.showTree, _) => .ok (p.update ({ · with showTree := true }))
  | (.showCode, _) => .ok (p.update ({ · with showCode := true }))
  | (.command, value) => .ok (p.update fun s => { s with commands := s.commands ++ [value] })

/-- Takes one option off the front of the arguments. -/
def take (rest : List (String × Class)) : Class → Except OptionError Taken
  | .option flag none => takeBare flag rest
  | .option flag (some value) => takeAttached flag value rest
  | .cluster flag tail => takeCluster rest flag tail
  | _ => .ok ⟨[], rest⟩

/-- Acts on the arguments from left to right. Each turn takes at least one argument, so their number
bounds the turns. The second part of the answer is what belongs to no option. -/
def actAll : Nat → Progress → List (String × Class) → Except Stop (Progress × List String)
  | 0, p, _ => .ok (p, [])
  | _ + 1, p, [] => .ok (p, [])
  | turns + 1, p, (argument, found) :: rest =>
    match found with
    | .value | .separator | .unknown => do
      let (final, others) ← actAll turns p rest
      return (final, argument :: others)
    | _ => do
      let taken ← (take rest found).mapError .error
      let next ← taken.actions.foldlM act p
      actAll turns next taken.rest

/-- The settings that the arguments ask for. -/
def parse (arguments : List String) : Except Stop Settings := do
  let classified ← (classifyAll arguments).mapError .error
  let (final, others) ← actAll classified.length {} classified
  match others with
  | [] => if final.hasMode then return final.settings else .error .noMode
  | _ => .error (.error (.unrecognized others))

/-- What is written when a mode was to be given and was not. -/
def noModeText : String := "'list' object has no attribute 'upper'"

def usage : String :=
  "usage: stackcalc [-h] [--mode \x7binterpret,compile\x7d] [-v] [--prompt PROMPT]\n" ++
  "                 [--show-tokens] [--show-ast] [--show-bytecode] [-c LINE]\n"

def helpText : String :=
  usage ++
  "\nInteractive calculator\n" ++
  "\noptions:\n" ++
  "  -h, --help            show this help message and exit\n" ++
  "  --mode \x7binterpret,compile\x7d\n" ++
  "                        evaluate by walking the syntax tree or by compiling to\n" ++
  "                        stack machine code\n" ++
  "  -v                    increase log verbosity (can be repeated)\n" ++
  "  --prompt PROMPT\n" ++
  "  --show-tokens         print the tokens of every line\n" ++
  "  --show-ast            print the syntax tree of every line\n" ++
  "  --show-bytecode       print the compiled code of every line (compile mode)\n" ++
  "  -c LINE, --command LINE\n" ++
  "                        evaluate LINE and exit instead of starting the prompt\n" ++
  "                        (can be repeated)\n"

end Options

end Reckoner
