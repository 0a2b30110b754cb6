import TreeFeatures.Text.Ranges

/-!
# Blanks

The blanks around a command are those of Unicode's white space, with the four information
separators `0x1c` to `0x1f`.
-/

namespace TreeFeatures

/-- Code points that count as blank. -/
def blankRanges : CodeRanges :=
  [
    (0x9, 0xd), (0x1c, 0x20), (0x85, 0x85), (0xa0, 0xa0), (0x1680, 0x1680), (0x2000, 0x200a),
    (0x2028, 0x2029), (0x202f, 0x202f), (0x205f, 0x205f), (0x3000, 0x3000)]

/-- Whether a character is blank. -/
def isBlank (c : Char) : Bool := blankRanges.holds c

/-- The characters without the blanks at both ends. -/
def trimBlanks (cs : List Char) : List Char :=
  ((cs.dropWhile isBlank).reverse.dropWhile isBlank).reverse

/-- The text without the blanks at both ends. -/
def trimmed (s : String) : String := String.ofList (trimBlanks s.toList)

end TreeFeatures
