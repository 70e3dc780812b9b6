/-!
# Three-address instructions

One instruction per line of text: an assignment with at most one operator, a jump, a jump under
a condition, a label, a parameter for the next call, or a call. Operands are texts: names,
literals as they were written, and format strings.
-/

namespace ThreeAddress

/-- An instruction. -/
inductive Instruction where
  /-- A copy, or with an operator a unary form, or with an operator and a second operand a
  binary form. An operand is missing where a node that was lowered for it had no value. -/
  | assign (target : String) (first : Option String) (operator : Option String)
      (second : Option String)
  /-- Goes on at a label. -/
  | jump (label : String)
  /-- Goes on at a label if the condition holds; there is no negated form. -/
  | branch (condition label : String)
  /-- A place to go on at. -/
  | label (name : String)
  /-- Sets an argument for the next call. -/
  | param (operand : String)
  /-- Calls a function with the last parameters set, and may store its value. -/
  | call (function : String) (count : Int) (target : Option String)
  deriving DecidableEq, Repr

namespace Instruction

/-- The text of an operand; a missing one has a text as well. -/
def operandText (operand : Option String) : String := operand.getD "None"

/-- Whether it is an assignment with two operands. -/
def isBinary : Instruction → Bool
  | .assign _ _ operator second => operator.isSome && second.isSome
  | _ => false

/-- Whether it is an assignment with an operator and one operand. -/
def isUnary : Instruction → Bool
  | .assign _ _ operator second => operator.isSome && second.isNone
  | _ => false

/-- The text of an assignment. -/
def assignText (target : String) (first : Option String) :
    Option String → Option String → String
  | some operator, some second =>
    target ++ " = " ++ operandText first ++ " " ++ operator ++ " " ++ second
  | some operator, none => target ++ " = " ++ operator ++ " " ++ operandText first
  | none, _ => target ++ " = " ++ operandText first

/-- The text of a call; an empty target counts as none. -/
def callText (function : String) (count : Int) (target : Option String) : String :=
  let text := "call " ++ function ++ ", " ++ toString count
  match target with
  | some target => if target = "" then text else target ++ " = " ++ text
  | none => text

/-- An instruction as a line of text. Every count has a numeral here. But a numeral can be too long
to be written, as it can be too long to be read (`Instruction.ofLine`), and then there is no text:
asking for it fails. A program would need a print with almost `10 ^ 4300` arguments for that. -/
def text : Instruction → String
  | .assign target first operator second => assignText target first operator second
  | .jump goal => "goto " ++ goal
  | .branch condition goal => "if " ++ condition ++ " goto " ++ goal
  | .label name => name ++ ":"
  | .param operand => "param " ++ operand
  | .call function count target => callText function count target

/-- The name an instruction stores a value in. -/
def defines? : Instruction → Option String
  | .assign target .. => some target
  | .call _ _ target => target
  | .jump _ | .branch .. | .label _ | .param _ => none

/-- Whether it is a label. -/
def isLabel : Instruction → Bool
  | .label _ => true
  | _ => false

/-- Whether it is a call of the function. -/
def calls (name : String) : Instruction → Bool
  | .call function _ _ => function == name
  | _ => false

end Instruction

end ThreeAddress
