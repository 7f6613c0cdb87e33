import Reckoner.Decimal.Basic
import Reckoner.Text.Blank
import Reckoner.Text.DecimalDigit

/-!
# Numerals

The general form in which a number may be given by hand: white space around it, a sign, digits of
any script in groups joined by underscores, a point, an exponent, or one of the words for an
infinity and for what is not a number. The calculator's own lines use only the plain form of this.
-/

namespace Reckoner.Numeral

/-- Digits of any script as their plain forms, other characters as they are. -/
def plainDigit (c : Char) : Char :=
  match Text.digitValue? c with
  | some value => value.digitChar
  | none => c

/-- The digits of one or more groups joined by single underscores. -/
def groupedDigits? : List Char → Option (List Char)
  | [] => none
  | [c] => if c.isDigit then some [c] else none
  | c :: '_' :: rest => if c.isDigit then (groupedDigits? rest).map (c :: ·) else none
  | c :: rest => if c.isDigit then (groupedDigits? rest).map (c :: ·) else none

/-- A sign, if there is one, and what follows it. -/
def splitSign : List Char → Bool × List Char
  | '-' :: rest => (true, rest)
  | '+' :: rest => (false, rest)
  | cs => (false, cs)

/-- What stands before and after the first character that satisfies `p`. -/
def splitAt? (p : Char → Bool) (cs : List Char) : List Char × Option (List Char) :=
  match cs.dropWhile (!p ·) with
  | [] => (cs, none)
  | _ :: rest => (cs.takeWhile (!p ·), some rest)

/-- Digits that may be left out altogether. -/
def optionalDigits? (cs : List Char) : Option (List Char) :=
  if cs.isEmpty then some [] else groupedDigits? cs

/-- Digits, a point and more digits, where one of the two may be missing. -/
def significand? (cs : List Char) : Option Decimal := do
  let (before, after) := splitAt? (· == '.') cs
  let whole ← optionalDigits? before
  let fraction ← optionalDigits? (after.getD [])
  guard !(whole.isEmpty && fraction.isEmpty)
  return Decimal.ofPlain (whole ++ '.' :: fraction)

/-- A decimal with an exponent that may be missing. An exponent so far off that the number is past
every double, or nearer to zero than to any other, is drawn in, which keeps the nearest double. -/
def decimal? (cs : List Char) : Option Decimal := do
  let (before, after) := splitAt? (fun c => c == 'e' || c == 'E') cs
  let d ← significand? before
  match after with
  | none => return d
  | some exponent =>
    let (negative, rest) := splitSign exponent
    let size := Nat.ofDigitChars 10 (← groupedDigits? rest) 0
    let reach := 400 + cs.length
    let shift : Int := if negative then -(min size reach : Nat) else (min size reach : Nat)
    return { d with exponent := d.exponent + shift }

/-- The double that a numeral stands for. -/
def read? (text : String) : Option Double := do
  let (negative, cs) := splitSign ((Text.trim Text.isWhiteSpace text.toList).map plainDigit)
  let word := String.ofList (cs.map Char.toLower)
  if word = "inf" ∨ word = "infinity" then return .infinite negative
  else if word = "nan" then return .nan
  else return (← decimal? cs).nearest negative

end Reckoner.Numeral
