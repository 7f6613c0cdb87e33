import Reckoner.Double.Basic

/-!
# Tokens

The pieces of a line: numbers, names, operators and brackets, each with its text and the place where
the text starts. Tokens are also built by hand, so the place may be any whole number and the text
need not fit the kind.
-/

namespace Reckoner

inductive TokenKind where
  | number
  | identifier
  | plus
  | minus
  | star
  | slash
  | caret
  | bang
  | bracketOpen
  | bracketClose
  | equal
deriving DecidableEq

namespace TokenKind

def name : TokenKind → String
  | number => "NUMBER"
  | identifier => "IDENTIFIER"
  | plus => "PLUS"
  | minus => "MINUS"
  | star => "STAR"
  | slash => "SLASH"
  | caret => "CARET"
  | bang => "BANG"
  | bracketOpen => "BRACKET_OPEN"
  | bracketClose => "BRACKET_CLOSE"
  | equal => "EQUAL"

/-- The kind of a token that is a single character of its own. -/
def ofSymbol? : Char → Option TokenKind
  | '+' => some plus
  | '-' => some minus
  | '*' => some star
  | '/' => some slash
  | '^' => some caret
  | '!' => some bang
  | '(' => some bracketOpen
  | ')' => some bracketClose
  | '=' => some equal
  | _ => none

end TokenKind

structure Token where
  kind : TokenKind
  lexeme : String
  position : Int := 0
  /-- What a number token is worth, when that is known already. -/
  value : Option Double := none
deriving DecidableEq

namespace Token

def text (t : Token) : String := "<" ++ t.kind.name ++ ">" ++ t.lexeme

/-- The texts of the tokens of a line, separated by spaces. -/
def listText (tokens : List Token) : String := " ".intercalate (tokens.map text)

end Token

end Reckoner
