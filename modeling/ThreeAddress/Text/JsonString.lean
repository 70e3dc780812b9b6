import ThreeAddress.Text.Quoted

/-!
# JSON strings

A text as a JSON string in ASCII: quotation marks and backslashes are escaped, five controls
have escapes of their own, and every other character outside the printable ASCII is written as
its UTF-16 units.
-/

namespace ThreeAddress.Text

/-- A UTF-16 unit written out. -/
def escapeUnit (unit : Nat) : List Char := '\\' :: 'u' :: hexDigits 4 unit

/-- The UTF-16 units of a code point: one, or a pair of surrogates. -/
def utf16Units (codePoint : Nat) : List Nat :=
  if codePoint < 0x10000 then [codePoint]
  else [0xd800 + (codePoint - 0x10000) / 0x400, 0xdc00 + (codePoint - 0x10000) % 0x400]

/-- One character inside a JSON string. -/
def jsonChar (c : Char) : List Char :=
  if c = '\x22' then ['\\', '\x22']
  else if c = '\\' then ['\\', '\\']
  else if c = '\n' then ['\\', 'n']
  else if c = '\r' then ['\\', 'r']
  else if c = '\t' then ['\\', 't']
  else if c = '\x08' then ['\\', 'b']
  else if c = '\x0c' then ['\\', 'f']
  else if ' ' ≤ c ∧ c ≤ '~' then [c]
  else (utf16Units c.toNat).flatMap escapeUnit

/-- A text as a JSON string. -/
def jsonString (s : String) : String :=
  String.ofList ('\x22' :: s.toList.flatMap jsonChar ++ ['\x22'])

end ThreeAddress.Text
