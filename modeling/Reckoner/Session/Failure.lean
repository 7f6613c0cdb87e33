import Reckoner.Expr.Parser
import Reckoner.Token.Scan

/-!
# Failures

A line fails when it cannot be read, when its tokens make no statement, or when the statement
meets a fault. Each failure has a kind, under which it is logged, and a message.
-/

namespace Reckoner

def ScanFault.kind : ScanFault → String
  | invalidNumber _ => "InvalidNumber"
  | unexpectedCharacter _ => "UnexpectedCharacter"

def ParseFault.kind : ParseFault → String
  | endOfInput => "UnexpectedEndOfInput"
  | unexpectedOperator _ => "UnexpectedOperator"
  | unclosedBracket => "UnmatchedParenthesis"
  | trailing _ => "ExpectedEndOfInput"
  | notCallable => "ExpectedIdentifierForCall"
  | tooDeep => "ExpressionTooDeep"
  | unreadableNumber _ => "UnreadableNumber"

def Fault.kind : Fault → String
  | undefinedVariable _ => "UndefinedVariable"
  | unknownFunction _ => "UnknownFunction"
  | invalidFactorial _ => "InvalidFactorial"
  | invalidExponent _ => "InvalidExponent"
  | stackUnderflow _ _ => "StackUnderflow"
  | missingResult _ => "MissingResult"
  | nestedTooDeeply _ => "NestingTooDeep"
  | missingNode _ => "MissingNode"
  | unknownOpcode _ => "UnknownOpcode"

inductive Failure where
  | scan (error : ScanError)
  | parse (error : ParseError)
  | fault (fault : Fault)
deriving DecidableEq

namespace Failure

def kind : Failure → String
  | scan e => e.fault.kind
  | parse e => e.fault.kind
  | fault f => f.kind

def message : Failure → String
  | scan e => e.message
  | parse e => e.message
  | fault f => f.message

end Failure

end Reckoner
