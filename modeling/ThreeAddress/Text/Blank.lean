import ThreeAddress.Text.Ranges

/-!
# Blank characters

The characters that separate tokens: the ASCII controls that move the cursor, the four
information separators, and the spaces and line separators beyond ASCII.
-/

namespace ThreeAddress.Text

/-- Tab to carriage return, the information separators and the space, next line, the no-break
space, the ogham space, the spaces of general punctuation with the two separators, the narrow
and the mathematical space, and the ideographic space. -/
def blankRanges : Ranges :=
  [(0x9, 0xd), (0x1c, 0x20), (0x85, 0x85), (0xa0, 0xa0), (0x1680, 0x1680), (0x2000, 0x200a),
   (0x2028, 0x2029), (0x202f, 0x202f), (0x205f, 0x205f), (0x3000, 0x3000)]

/-- Whether `c` separates tokens. -/
def isBlank (c : Char) : Bool := blankRanges.contains c

/-- Drops the blanks at both ends. -/
def trim (s : List Char) : List Char :=
  ((s.dropWhile isBlank).reverse.dropWhile isBlank).reverse

/-- Whether there is nothing but blanks. -/
def isBlankText (s : List Char) : Bool := s.all isBlank

end ThreeAddress.Text
