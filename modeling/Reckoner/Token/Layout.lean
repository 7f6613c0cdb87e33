import Reckoner.Token.Basic

/-!
# Laying tokens out

Tokens are written back into one line of text, each at its own place where the text before it leaves
room. A token whose place is already taken follows after one space.
-/

namespace Reckoner.Layout

/-- The spaces put in front of a token at `position` when the text before it has the given
length. -/
def gap (length : Nat) (position : Int) : Nat :=
  if length < position then (position - length).toNat
  else if length ≠ 0 ∧ position < length then 1
  else 0

/-- The offset of each token after text of the given length. -/
def offsetsFrom (length : Nat) : List Token → List Nat
  | [] => []
  | t :: ts =>
    let offset := length + gap length t.position
    offset :: offsetsFrom (offset + t.lexeme.length) ts

/-- What each token adds to text of the given length: its gap and its lexeme. -/
def piecesFrom (length : Nat) : List Token → List String
  | [] => []
  | t :: ts =>
    let spaces := gap length t.position
    (String.ofList (List.replicate spaces ' ') ++ t.lexeme)
      :: piecesFrom (length + spaces + t.lexeme.length) ts

def offsets (tokens : List Token) : List Nat := offsetsFrom 0 tokens

def text (tokens : List Token) : String := String.join (piecesFrom 0 tokens)

/-- The column of the token with the given index, or one past the end of the text if there is no
such token. -/
def column (tokens : List Token) (index : Nat) : Nat :=
  (offsets tokens)[index]?.getD ((text tokens).length + 1)

/-- The index that a whole number stands for among `count` tokens: one below zero counts from the
end, as far back as there are tokens. -/
def indexOf? (count : Nat) (index : Int) : Option Nat :=
  if 0 ≤ index then some index.toNat
  else if 0 ≤ count + index then some (count + index).toNat
  else none

/-- A heading, the tokens laid out, and a caret below the token with the given index. -/
def underline (heading : String) (tokens : List Token) (index : Nat) : String :=
  "[Parser error] " ++ heading ++ "\n" ++ text tokens ++ "\n"
    ++ String.ofList (List.replicate (column tokens index) ' ') ++ "^"

end Reckoner.Layout
