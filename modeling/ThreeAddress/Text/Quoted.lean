import ThreeAddress.Text.Printable

/-!
# Quoted text

How a message shows a text exactly: between quotation marks, with the mark, the backslash and
every character that has no visible form escaped. Single marks are used unless the text has a
single mark and no double one.
-/

namespace ThreeAddress.Text

/-- The mark to quote a text with. -/
def quoteMark (s : List Char) : Char :=
  if s.contains '\x27' && !s.contains '\x22' then '\x22' else '\x27'

/-- `n` in lower-case hexadecimal, padded with zeros to `width` places. -/
def hexDigits (width n : Nat) : List Char :=
  let digits := Nat.toDigits 16 n
  List.replicate (width - digits.length) '0' ++ digits

/-- A code point written out: two, four or eight hexadecimal digits, the fewest that hold it. -/
def escapeCodePoint (n : Nat) : List Char :=
  if n ≤ 0xff then '\\' :: 'x' :: hexDigits 2 n
  else if n ≤ 0xffff then '\\' :: 'u' :: hexDigits 4 n
  else '\\' :: 'U' :: hexDigits 8 n

/-- One character inside a text quoted with `mark`. -/
def escapeChar (mark c : Char) : List Char :=
  if c == mark || c == '\\' then ['\\', c]
  else if c == '\t' then ['\\', 't']
  else if c == '\n' then ['\\', 'n']
  else if c == '\r' then ['\\', 'r']
  else if isPrintable c then [c]
  else escapeCodePoint c.toNat

/-- The text between quotation marks. -/
def quoteChars (s : List Char) : List Char :=
  let mark := quoteMark s
  mark :: s.flatMap (escapeChar mark) ++ [mark]

/-- The text between quotation marks, as a string. -/
def quote (s : String) : String := String.ofList (quoteChars s.toList)

end ThreeAddress.Text
