import Reckoner.Decimal.Basic
import Reckoner.Text.Quoted
import Reckoner.Token.Basic

/-!
# Reading a line into tokens

A line is read from left to right, and each token takes as many characters as it can: a number is a
digit with all digits and points after it, a name a letter with all letters and digits after it, and
every other token one character. Spaces separate tokens. A number with two points, and any other
character, ends the reading with an error that shows the place within its surroundings.
-/

namespace Reckoner

/-- Why a line cannot be read on from some place. -/
inductive ScanFault where
  | invalidNumber (lexeme : String)
  | unexpectedCharacter (c : Char)
deriving DecidableEq

def ScanFault.message : ScanFault → String
  | invalidNumber lexeme => "Invalid number literal: " ++ Text.quoted lexeme
  | unexpectedCharacter c => "Unexpected character: " ++ Text.quoted (String.singleton c)

structure ScanError where
  fault : ScanFault
  line : String
  index : Nat
deriving DecidableEq

namespace ScanError

/-- A heading, the ten characters of a line on either side of an index, and a caret below the index.
Dots stand for what is left out before and after. In an error built by hand the index may be any
whole number; a window that would end before the line does ends as far from the line's end. -/
def excerpt (heading line : String) (index : Int) : String :=
  let first := (index - 10).toNat
  let last := min (line.length : Int) (index + 10)
  let stop := if last < 0 then line.length + last else last
  let window := String.ofList ((line.toList.take stop.toNat).drop first)
  let before := if 0 < first then "..." else ""
  let after := if last < line.length then "..." else ""
  let indent := (index - first + before.length).toNat
  "[Tokenizer error] " ++ heading ++ "\n" ++ before ++ window ++ after ++ "\n"
    ++ String.ofList (List.replicate indent ' ') ++ "^"

def message (e : ScanError) : String := excerpt e.fault.message e.line e.index

end ScanError

namespace Token

/-- The characters that separate tokens. -/
def isSpace (c : Char) : Bool := c == ' ' || c == '\t' || c == '\n' || c == '\r' || c == '\x0c'

/-- The characters that a number goes on with. -/
def isNumberChar (c : Char) : Bool := c.isDigit || c == '.'

/-- The tokens of the characters from `position` on, or the first fault and its place. -/
def scanFrom (position : Nat) : List Char → Except (ScanFault × Nat) (List Token)
  | [] => .ok []
  | c :: rest =>
    if c.isDigit then
      let lexeme := c :: rest.takeWhile isNumberChar
      if 1 < lexeme.count '.' then .error (.invalidNumber (String.ofList lexeme), position)
      else do
        let others ← scanFrom (position + lexeme.length) (rest.dropWhile isNumberChar)
        let value := (Decimal.ofPlain lexeme).nearest false
        return ⟨.number, String.ofList lexeme, position, some value⟩ :: others
    else if c.isAlpha then do
      let lexeme := c :: rest.takeWhile Char.isAlphanum
      let others ← scanFrom (position + lexeme.length) (rest.dropWhile Char.isAlphanum)
      return ⟨.identifier, String.ofList lexeme, position, none⟩ :: others
    else
      match TokenKind.ofSymbol? c with
      | some kind => do
        let others ← scanFrom (position + 1) rest
        return ⟨kind, String.singleton c, position, none⟩ :: others
      | none =>
        if isSpace c then scanFrom (position + 1) rest
        else .error (.unexpectedCharacter c, position)
termination_by cs => cs.length
decreasing_by
  all_goals
    have := (rest.dropWhile_sublist isNumberChar).length_le
    have := (rest.dropWhile_sublist Char.isAlphanum).length_le
    grind

/-- The tokens of a line. -/
def scan (line : String) : Except ScanError (List Token) :=
  match scanFrom 0 line.toList with
  | .ok tokens => .ok tokens
  | .error (fault, index) => .error ⟨fault, line, index⟩

end Token

end Reckoner
