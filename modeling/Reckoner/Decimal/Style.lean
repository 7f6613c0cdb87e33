import Reckoner.Decimal.Shortest

/-!
# Number styles

The two ways in which doubles are written. The *exact* style of listings, trees and messages shows
that a number is a double and turns to an exponent for large and small values; the *plain* style of
results has no exponent and no point in whole numbers. Both write the shortest decimal that reads
back.
-/

namespace Reckoner

/-- The decisions of a style: which decimal exponents are written out by position, what follows a
whole number, and what stands for a value that is not a number. -/
structure NumberStyle where
  positional : Int → Bool
  wholeEnd : String
  notANumber : String

namespace NumberStyle

/-- Positional from `0.0001` to below `10 ^ 16`, whole numbers ending in `.0`. -/
def exact : NumberStyle := ⟨fun e => -4 ≤ e && e < 16, ".0", "nan"⟩

/-- Always positional, whole numbers without a point. -/
def plain : NumberStyle := ⟨fun _ => true, "", "NaN"⟩

/-- The digits with the point in its place. -/
def writePositional (style : NumberStyle) (d : Decimal) : String :=
  let whole := String.ofList d.wholeDigits
  match d.fractionDigits with
  | [] => whole ++ style.wholeEnd
  | fraction => whole ++ "." ++ String.ofList fraction

/-- The exponent with its sign and at least two digits. -/
def writeExponent (e : Int) : String :=
  let digits := Nat.toDigits 10 e.natAbs
  (if e < 0 then "e-" else "e+") ++ String.ofList (List.replicate (2 - digits.length) '0' ++ digits)

/-- One digit, the others after a point if there are any, and the exponent. -/
def writeScientific (d : Decimal) : String :=
  let first := String.ofList (d.digits.take 1)
  let exponent := writeExponent (d.point - 1)
  match d.digits.drop 1 with
  | [] => first ++ exponent
  | others => first ++ "." ++ String.ofList others ++ exponent

def writeMagnitude (style : NumberStyle) (m : Magnitude) : String :=
  let d := m.shortest
  if style.positional (d.point - 1) then style.writePositional d else writeScientific d

def write (style : NumberStyle) : Double → String
  | .nan => style.notANumber
  | .infinite negative => (if negative then "-" else "") ++ "inf"
  | .finite negative m => (if negative then "-" else "") ++ style.writeMagnitude m

end NumberStyle

namespace Double

/-- The text of a value in trees, listings, logs and messages. -/
def exactText (x : Double) : String := NumberStyle.exact.write x

/-- The text of a value in results. -/
def plainText (x : Double) : String := NumberStyle.plain.write x

end Double

end Reckoner
