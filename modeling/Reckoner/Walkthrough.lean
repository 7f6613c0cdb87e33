import Reckoner.Session.Basic

/-!
# A walkthrough

A fixed series of lines, each shown at every stage: its tokens, its tree, its code, what the tree
and the code come to, and the variables after it. A line that fails shows its error instead of the
stages it does not reach.
-/

namespace Reckoner.Walkthrough

def examples : List String :=
  ["5", "-1", "1 + 1", "-1 + 1", "1 + -1", "4 + 6 * 3", "(4+6) * 3", "80225/+2", "2^3^2", "-2^2",
   "3!", "x = (1 + 14 * (54^2))", "sqrt(x - 1) + abs(-3)", "1 / 0", "(-1)!", "2 2"]

/-- A result as a pair of its name and its value. -/
def pairText (r : Result) : String :=
  let name := match r.name with
    | some n => Text.quoted n
    | none => "None"
  "(" ++ name ++ ", " ++ r.value.exactText ++ ")"

/-- The variables between braces, in the order in which they were first set. -/
def variablesText (vs : Variables) : String :=
  let entry := fun (name, value) => Text.quoted name ++ ": " ++ Double.exactText value
  "\x7b" ++ ", ".intercalate (vs.entries.map entry) ++ "\x7d"

/-- The top of the stack, if it is not empty. -/
def topText (final : Machine.State) : String :=
  match final.stack with
  | [] => "None"
  | top :: _ => top.exactText

/-- What one line shows, and the variables after it. -/
def present (limits : Limits) (vs : Variables) (line : String) : List String × Variables :=
  let heading := ["==========", "code: " ++ Text.quoted line]
  match Token.scan line with
  | .error e => (heading ++ [e.message], vs)
  | .ok tokens =>
    let shown := heading ++ ["tokens: " ++ Token.listText tokens]
    match Statement.ofTokens limits.nesting tokens with
    | .error e => (shown ++ [e.message], vs)
    | .ok statement =>
      match statement.render limits.levels, statement.compile limits.levels with
      | .ok text, .ok code =>
        let shown := shown ++ ["ast: " ++ text, "bytecode:", code.listing]
        match statement.eval vs limits.levels with
        | .error fault => (shown ++ [fault.message], vs)
        | .ok (result, after) =>
          let shown := shown ++ ["interpreted: " ++ pairText result]
          match Machine.run code vs with
          | .error halt => (shown ++ [halt.fault.message], vs)
          | .ok final =>
            (shown ++ ["compiled: " ++ topText final, "variables: " ++ variablesText after], after)
      | .error fault, _ => (shown ++ [fault.message], vs)
      | _, .error fault => (shown ++ [fault.message], vs)

/-- What a series of lines shows. -/
def presentAll (limits : Limits) (vs : Variables) : List String → List String
  | [] => []
  | line :: rest =>
    let (shown, after) := present limits vs line
    shown ++ presentAll limits after rest

def text : String := String.join ((presentAll {} {} examples).map (· ++ "\n"))

end Reckoner.Walkthrough
