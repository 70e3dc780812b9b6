import ThreeAddress.DataType
import ThreeAddress.Token

/-!
# Checked trees

What the checker makes of a grammar tree: operators with their operands, every node with its
type. As with grammar trees every part is again a node of any form, and a part that is not
there is the node `absent`.
-/

namespace ThreeAddress

/-- What every node carries: its line, if it is known, and its type. -/
structure Mark where
  line : Option Line
  type : DataType
  deriving DecidableEq, Repr, Inhabited

/-- A node of the checked tree. -/
inductive Node where
  /-- A part that is not there. -/
  | absent
  /-- A node without a form. -/
  | bare (mark : Mark)
  /-- A whole program. -/
  | program (statements : List Node) (mark : Mark)
  /-- A body. -/
  | block (statements : List Node) (mark : Mark)
  /-- A value for a name. -/
  | assignment (target : String) (value : Node) (declares : Bool) (mark : Mark)
  /-- A print of arguments under a format text. -/
  | output (text : Node) (arguments : List Node) (mark : Mark)
  /-- A conditional: conditions and bodies in turn, and the last body if the number is odd. -/
  | conditional (parts : List Node) (mark : Mark)
  /-- A loop. -/
  | loop (condition body : Node) (mark : Mark)
  /-- An operator between two operands. -/
  | binary (operator : String) (left right : Node) (mark : Mark)
  /-- An operator in front of its operand. -/
  | unary (operator : String) (operand : Node) (mark : Mark)
  /-- A literal as it was written. -/
  | literal (lexeme : String) (mark : Mark)
  /-- A format text. -/
  | format (lexeme : String) (mark : Mark)
  /-- A name in an expression. -/
  | var (name : String) (mark : Mark)
  /-- The next value of the input. -/
  | input (mark : Mark)
  deriving Repr, Inhabited

namespace Node

/-- The name of a node's form in messages and drawings. -/
def form : Node → String
  | absent => "NoneType"
  | bare _ => "ASTNode"
  | program .. => "Program"
  | block .. => "Block"
  | assignment .. => "Assignment"
  | output .. => "OutputStatement"
  | conditional .. => "IfStatement"
  | loop .. => "WhileStatement"
  | binary .. => "BinaryOperation"
  | unary .. => "UnaryOperation"
  | literal .. => "Literal"
  | format .. => "FormatString"
  | var .. => "Variable"
  | input _ => "InputExpression"

/-- What a node carries. A part that is not there has no line and the type of statements. -/
def mark : Node → Mark
  | absent => ⟨none, .void⟩
  | bare mark | program _ mark | block _ mark | assignment _ _ _ mark | output _ _ mark
  | conditional _ mark | loop _ _ mark | binary _ _ _ mark | unary _ _ mark | literal _ mark
  | format _ mark | var _ mark | input mark => mark

/-- The type of a node. -/
def type (node : Node) : DataType := node.mark.type

/-- The line of a node, if it is known. -/
def line (node : Node) : Option Line := node.mark.line

/-- Whether there is no node. -/
def isAbsent : Node → Bool
  | absent => true
  | _ => false

/-- The text of a literal or a format text. -/
def lexeme? : Node → Option String
  | literal lexeme _ | format lexeme _ => some lexeme
  | _ => none

/-- The nodes directly below a node, from left to right. -/
def children : Node → List Node
  | program statements _ | block statements _ => statements
  | assignment _ value _ _ => [value]
  | output text arguments _ => text :: arguments
  | conditional parts _ => parts
  | loop condition body _ => [condition, body]
  | binary _ left right _ => [left, right]
  | unary _ operand _ => [operand]
  | absent | bare _ | literal .. | format .. | var .. | input _ => []

/-- The pairs of condition and body among the parts of a conditional. -/
def branches : List Node → List (Node × Node)
  | condition :: body :: rest => (condition, body) :: branches rest
  | _ => []

/-- The last body among the parts of a conditional, if there is one without a condition. -/
def lastBody? : List Node → Option Node
  | _ :: _ :: rest => lastBody? rest
  | [body] => some body
  | [] => none

end Node

end ThreeAddress
