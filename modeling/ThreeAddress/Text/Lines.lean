/-!
# Lines

Where a text is cut into lines. Eleven breaks end a line: the controls from line feed to
carriage return, the pair of carriage return and line feed, three information separators, next
line, and the line and paragraph separators. A break at the very end opens no further line.
-/

namespace ThreeAddress.Text

/-- Whether `c` alone ends a line. -/
def isLineBreak (c : Char) : Bool :=
  ('\n' ≤ c && c ≤ '\r') || ('\x1c' ≤ c && c ≤ '\x1e') || c == '\u0085' ||
    c == '\u2028' || c == '\u2029'

/-- Puts `c` in front of the first line. -/
def consLine (c : Char) : List (List Char) → List (List Char)
  | [] => [[c]]
  | line :: lines => (c :: line) :: lines

/-- The lines of a text, without their breaks. -/
def splitLines : List Char → List (List Char)
  | [] => []
  | '\r' :: '\n' :: rest => [] :: splitLines rest
  | c :: rest => if isLineBreak c then [] :: splitLines rest else consLine c (splitLines rest)

/-- Writes every line end as a single line feed: the pair of carriage return and line feed, and
the carriage return alone. -/
def unifyLineEnds : List Char → List Char
  | [] => []
  | '\r' :: '\n' :: rest => '\n' :: unifyLineEnds rest
  | '\r' :: rest => '\n' :: unifyLineEnds rest
  | c :: rest => c :: unifyLineEnds rest

end ThreeAddress.Text
