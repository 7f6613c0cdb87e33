import Reckoner.Decimal.Numeral
import Reckoner.Expr.Basic
import Reckoner.Token.Layout
import Reckoner.Text.Quoted

/-!
# Reading tokens into a statement

Tokens are grouped by how tightly operators bind. An operator takes the expression on its left if it
binds at least as tightly as the expression being read requires, and reads its right side with
a requirement of its own: one more than its own strength for operators that group to the left, one
less for `^`, which groups to the right. Factorials and calls bind tightest, signs between products
and powers.

The three ways of going deeper (an expression, an operand, a bracket) each use up one level of a
limited depth, while chains of operators are read without going deeper.
-/

namespace Reckoner

/-- Why tokens make no statement. -/
inductive ParseFault where
  | endOfInput
  | unexpectedOperator (lexeme : String)
  | unclosedBracket
  | trailing (kind : TokenKind)
  | notCallable
  | tooDeep
  /-- A number token built by hand has no value, and its text is no number. -/
  | unreadableNumber (lexeme : String)
deriving DecidableEq

structure ParseError where
  fault : ParseFault
  tokens : List Token
  /-- The token at fault, or the number of tokens if the fault is that there are no more. -/
  index : Nat
deriving DecidableEq

namespace ParseFault

def heading : ParseFault → String
  | endOfInput => "Unexpected end of input"
  | unexpectedOperator lexeme => "Unexpected operator: " ++ Text.quoted lexeme
  | unclosedBracket => "Unclosed bracket"
  | trailing kind => "Expected end of input, found " ++ kind.name
  | notCallable => "Only a function name can be called"
  | tooDeep => "Expression is nested too deeply"
  | unreadableNumber lexeme => "could not convert string to float: " ++ Text.quoted lexeme

end ParseFault

def ParseError.message (e : ParseError) : String :=
  match e.fault with
  | .unreadableNumber _ => e.fault.heading
  | fault => Layout.underline fault.heading e.tokens e.index

namespace Parser

/-- How tightly a sign in front of an operand binds. -/
def signPower : Nat := 5

/-- How tightly factorials and calls bind. -/
def suffixPower : Nat := 9

/-- The operator between two operands, how tightly it binds to its left, and what it requires of its
right side. -/
def binaryOp? : TokenKind → Option (BinaryOp × Nat × Nat)
  | .plus => some (.add, 1, 2)
  | .minus => some (.sub, 1, 2)
  | .star => some (.mul, 3, 4)
  | .slash => some (.div, 3, 4)
  | .caret => some (.pow, 8, 7)
  | _ => none

def sign? : TokenKind → Option UnaryOp
  | .plus => some .plus
  | .minus => some .minus
  | _ => none

/-- A fault and how many tokens are left from the faulty one on. -/
structure Stop where
  fault : ParseFault
  remaining : Nat

/-- What was read and the tokens after it. -/
abbrev Parsed := Except Stop (Expr × List Token)

/-- The value of a number token: the one it carries, or else that of its text. -/
def numberValue (t : Token) : Except ParseFault Double :=
  match t.value with
  | some value => .ok value
  | none =>
    match Numeral.read? t.lexeme with
    | some value => .ok value
    | none => .error (.unreadableNumber t.lexeme)

/-- Goes on from the expression `left` with the operators that bind tightly enough. Right sides are
read by `right`, and bracketed arguments by `argument`. Each turn takes at least one token, so
the number of tokens bounds the turns. -/
def chain (right : Nat → List Token → Parsed) (argument : List Token → Parsed) (power : Nat) :
    Nat → Expr → List Token → Parsed
  | 0, left, tokens => .ok (left, tokens)
  | _ + 1, left, [] => .ok (left, [])
  | turns + 1, left, t :: rest =>
    match t.kind with
    | .bang =>
      if suffixPower < power then .ok (left, t :: rest)
      else chain right argument power turns (.unary .factorial left) rest
    | .bracketOpen =>
      if suffixPower < power then .ok (left, t :: rest)
      else
        match left with
        | .name f => do
          let (e, after) ← argument (t :: rest)
          chain right argument power turns (.call f e) after
        | _ => .error ⟨.notCallable, rest.length + 1⟩
    | kind =>
      match binaryOp? kind with
      | none => .ok (left, t :: rest)
      | some (op, leftPower, rightPower) =>
        if leftPower < power then .ok (left, t :: rest)
        else do
          let (e, after) ← right rightPower rest
          chain right argument power turns (.binary op left e) after

mutual

/-- Reads an expression whose operators bind at least as tightly as `power`. -/
def expression : Nat → Nat → List Token → Parsed
  | 0, _, tokens => .error ⟨.tooDeep, tokens.length⟩
  | depth + 1, power, tokens => do
    let (left, rest) ← operand depth tokens
    chain (expression depth) (bracketed depth) power rest.length left rest

/-- Reads a number, a name, a bracket, or a sign with what it applies to. -/
def operand : Nat → List Token → Parsed
  | 0, tokens => .error ⟨.tooDeep, tokens.length⟩
  | _ + 1, [] => .error ⟨.endOfInput, 0⟩
  | depth + 1, t :: rest =>
    match sign? t.kind with
    | some op => do
      let (e, after) ← expression depth signPower rest
      return (.unary op e, after)
    | none =>
      match t.kind with
      | .number =>
        match numberValue t with
        | .ok value => .ok (.number value, rest)
        | .error fault => .error ⟨fault, rest.length + 1⟩
      | .identifier => .ok (.name t.lexeme, rest)
      | .bracketOpen => bracketed depth (t :: rest)
      | _ => .error ⟨.unexpectedOperator t.lexeme, rest.length + 1⟩

/-- Reads an expression between the bracket that the tokens start with and the one that closes it.
-/
def bracketed : Nat → List Token → Parsed
  | 0, tokens => .error ⟨.tooDeep, tokens.length⟩
  | depth + 1, tokens => do
    let (e, rest) ← expression depth 0 (tokens.drop 1)
    match rest with
    | [] => .error ⟨.unclosedBracket, tokens.length⟩
    | t :: after =>
      if t.kind = .bracketClose then return (e, after)
      else .error ⟨.unclosedBracket, tokens.length⟩

end

/-- Reads an expression that takes up all the tokens. -/
def full (depth : Nat) (tokens : List Token) : Except Stop Expr := do
  let (e, rest) ← expression depth 0 tokens
  match rest with
  | [] => return e
  | t :: after => .error ⟨.trailing t.kind, after.length + 1⟩

/-- The name and the right side of tokens that start like an assignment. -/
def assignment? : List Token → Option (String × List Token)
  | name :: equal :: rest =>
    if name.kind = .identifier ∧ equal.kind = .equal then some (name.lexeme, rest) else none
  | _ => none

/-- A fault among the given tokens; one of depth is laid at the first token. -/
def errorAt (tokens : List Token) (stop : Stop) : ParseError :=
  { fault := stop.fault
    tokens := tokens
    index := if stop.fault = .tooDeep then 0 else tokens.length - stop.remaining }

end Parser

namespace Statement

/-- Reads all tokens as one statement, going down at most `depth` levels. -/
def ofTokens (depth : Nat) (tokens : List Token) : Except ParseError Statement :=
  let read : Except Parser.Stop Statement :=
    match tokens, Parser.assignment? tokens with
    | [], _ => .error ⟨.endOfInput, 0⟩
    | _, some (name, right) => (Parser.full depth right).map (.assign name)
    | _, none => (Parser.full depth tokens).map .expression
  read.mapError (Parser.errorAt tokens)

end Statement

end Reckoner
