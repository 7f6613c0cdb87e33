/-!
# Blank text

White space is that of Unicode. A line counts as blank if it holds nothing but white space and the
four information separators.
-/

namespace Reckoner.Text

/-- The first and last code point of each run of white space. -/
def whiteSpaceRanges : List (Nat × Nat) :=
  [(0x9, 0xd), (0x20, 0x20), (0x85, 0x85), (0xa0, 0xa0), (0x1680, 0x1680), (0x2000, 0x200a),
   (0x2028, 0x2029), (0x202f, 0x202f), (0x205f, 0x205f), (0x3000, 0x3000)]

def isWhiteSpace (c : Char) : Bool :=
  whiteSpaceRanges.any fun (first, last) => first ≤ c.toNat && c.toNat ≤ last

/-- The separators of files, groups, records and units. -/
def isInformationSeparator (c : Char) : Bool := 0x1c ≤ c.toNat && c.toNat ≤ 0x1f

def isBlank (c : Char) : Bool := isWhiteSpace c || isInformationSeparator c

/-- Nothing but blank characters; the empty text is blank. -/
def allBlank (text : String) : Bool := text.toList.all isBlank

/-- Without the characters of a class at either end. -/
def trim (p : Char → Bool) (cs : List Char) : List Char :=
  ((cs.dropWhile p).reverse.dropWhile p).reverse

end Reckoner.Text
