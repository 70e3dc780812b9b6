import ThreeAddress.Code.Instruction
import ThreeAddress.Text.Blank
import ThreeAddress.Text.Word

/-!
# Reading instructions

The text of an instruction is read back form by form, calls and assignments first: `param`,
`goto` and `call` are names a program may assign to. Blanks around a line do not count. Between
the parts of a form stands exactly one space, and an operand holds none unless it is a character
literal, so each form can be read in one way only.
-/

namespace ThreeAddress

open Text

/-- A scanner takes characters off the front of a text, or does not fit. -/
abbrev Scanner := StateT (List Char) Option

namespace Scanner

/-- Takes the given text. -/
def exactly (text : List Char) : Scanner Unit := fun rest =>
  if text.isPrefixOf rest then some ((), rest.drop text.length) else none

/-- Fits at the end only. -/
def atEnd : Scanner Unit := fun rest => if rest.isEmpty then some ((), []) else none

/-- Takes the longest row of characters of a class, which must not be empty. -/
def run (isMember : Char → Bool) : Scanner (List Char) := fun rest =>
  let taken := rest.takeWhile isMember
  if taken.isEmpty then none else some (taken, rest.dropWhile isMember)

/-- Takes a name: a letter of ASCII or an underscore, and the word characters after it. -/
def name : Scanner String
  | c :: rest =>
    if isNameStart c then
      some (String.ofList (c :: rest.takeWhile isWordChar), rest.dropWhile isWordChar)
    else none
  | [] => none

/-- Whether an operand that is no character literal may hold `c`. -/
def isBare (c : Char) : Bool := !isBlank c && c != '\x27'

/-- Takes an operand: a character literal, which may hold a blank, or a row of characters
without blanks and quotation marks. -/
def operand : Scanner String
  | '\x27' :: '\\' :: c :: '\x27' :: rest =>
    if c = '\n' then none else some (String.ofList ['\x27', '\\', c, '\x27'], rest)
  | '\x27' :: c :: '\x27' :: rest =>
    if c = '\\' ∨ c = '\x27' then none else some (String.ofList ['\x27', c, '\x27'], rest)
  | '\x27' :: _ => none
  | text => (run isBare).map String.ofList text

/-- Takes one of the given operators, up to the next space. -/
def operator (operators : List (List Char)) : Scanner String := do
  let text ← run (· != ' ')
  if text ∈ operators then return String.ofList text else failure

/-- Takes a number in decimal digits of any script. -/
def number : Scanner Nat := decimalNumber <$> run isDecimal

/-- Takes the rest of a line, which must hold something and no line feed. -/
def restOfLine : Scanner String := fun rest =>
  if rest.isEmpty || rest.contains '\n' then none else some (String.ofList rest, [])

end Scanner

namespace Instruction

open Scanner

/-- The operators of binary assignments. -/
def binaryOperators : List (List Char) :=
  [['=', '='], ['!', '='], ['<', '='], ['>', '='], ['&', '&'], ['|', '|'], ['-'], ['+'], ['*'],
   ['/'], ['%'], ['<'], ['>']]

/-- The operators of unary assignments. -/
def unaryOperators : List (List Char) := [['-'], ['!']]

/-- The sign between a target and what is stored in it. -/
def arrow : Scanner Unit := exactly [' ', '=', ' ']

/-- `call f, n`, whose value is stored in the given target. -/
def scanCall (target : Option String) : Scanner Instruction := do
  exactly ['c', 'a', 'l', 'l', ' ']
  let function ← name
  exactly [',', ' ']
  let count ← number
  atEnd
  return .call function count target

/-- `x = call f, n`. -/
def scanStoredCall : Scanner Instruction := do
  let target ← name
  arrow
  scanCall (some target)

/-- `x = y op z`. -/
def scanBinary : Scanner Instruction := do
  let target ← name
  arrow
  let first ← operand
  exactly [' ']
  let sign ← operator binaryOperators
  exactly [' ']
  let second ← operand
  atEnd
  return .assign target (some first) (some sign) (some second)

/-- `x = op y`. -/
def scanUnary : Scanner Instruction := do
  let target ← name
  arrow
  let sign ← operator unaryOperators
  exactly [' ']
  let first ← operand
  atEnd
  return .assign target (some first) (some sign) none

/-- `x = y`. -/
def scanCopy : Scanner Instruction := do
  let target ← name
  arrow
  let first ← operand
  atEnd
  return .assign target (some first) none none

/-- `l:`. -/
def scanLabel : Scanner Instruction := do
  let place ← name
  exactly [':']
  atEnd
  return .label place

/-- `goto l`. -/
def scanJump : Scanner Instruction := do
  exactly ['g', 'o', 't', 'o', ' ']
  let goal ← name
  atEnd
  return .jump goal

/-- `if c goto l`. -/
def scanBranch : Scanner Instruction := do
  exactly ['i', 'f', ' ']
  let condition ← operand
  exactly [' ', 'g', 'o', 't', 'o', ' ']
  let goal ← name
  atEnd
  return .branch condition goal

/-- `param p`. -/
def scanParam : Scanner Instruction := do
  exactly ['p', 'a', 'r', 'a', 'm', ' ']
  let item ← restOfLine
  return .param item

/-- An instruction of any form. -/
def scan : Scanner Instruction :=
  scanStoredCall <|> scanCall none <|> scanBinary <|> scanUnary <|> scanCopy <|> scanLabel <|>
    scanJump <|> scanBranch <|> scanParam

/-- The instruction a line writes, blanks around it aside. -/
def ofLine? (line : List Char) : Option Instruction :=
  (scan (trim line)).map (·.1)

end Instruction

end ThreeAddress
