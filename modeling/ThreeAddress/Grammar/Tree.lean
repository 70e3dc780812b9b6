import ThreeAddress.Token

/-!
# Grammar trees

What the grammar makes of a list of tokens. A tree keeps the shape of the text: a row of
operators of one level is one flat chain, parentheses have a node of their own, and nothing is
typed or resolved yet.

Every part of a tree is again a tree, of any form. Trees read from tokens only put forms where
the grammar allows them; the checker meets the others in trees made by hand and says so. A part
that is not there (the value of a declaration without one, the tail of a conditional without
one) is the tree `absent`.
-/

namespace ThreeAddress

/-- The levels of operators that are written in rows, from the loosest to the tightest. -/
inductive Level where
  | or | and | sum | product
  deriving DecidableEq, Repr, Inhabited

/-- Whether a token of this kind is an operator of the level. -/
def Level.holds : Level → TokenKind → Bool
  | .or, .or => true
  | .and, .and => true
  | .sum, .plus | .sum, .minus => true
  | .product, .star | .product, .slash | .product, .percent => true
  | _, _ => false

/-- A tree of the grammar. The last field of each form is the line it stands on. -/
inductive Tree where
  /-- A part that is not there. -/
  | absent
  /-- A node without a form. -/
  | bare (line : Line)
  /-- Statements, each closed by a semicolon: a program or a body. -/
  | block (statements : List Tree) (line : Line)
  /-- A new value for a name. -/
  | assignment (name : String) (value : Tree) (line : Line)
  /-- A declaration that fixes its value. -/
  | letFixed (name : String) (value : Tree) (line : Line)
  /-- A declaration that allows assignments, with or without a first value. -/
  | letMutable (name : String) (value : Tree) (line : Line)
  /-- A conditional with what follows its body: another link, a last block or nothing. -/
  | ifElse (condition body tail : Tree) (line : Line)
  /-- A further link of a conditional. -/
  | elseIf (condition body tail : Tree) (line : Line)
  /-- The last block of a conditional. -/
  | otherwise (body : Tree) (line : Line)
  /-- A loop. -/
  | loop (condition body : Tree) (line : Line)
  /-- A print of arguments under a format text. -/
  | output (format : String) (arguments : List Tree) (line : Line)
  /-- An operator with its right operand, on the line of the operator. -/
  | operation (operator : String) (operand : Tree) (line : Line)
  /-- A first operand and the operations that follow it, all of one level. -/
  | chain (level : Level) (first : Tree) (operations : List Tree) (line : Line)
  /-- An operand and a relational operation. -/
  | comparison (left operation : Tree) (line : Line)
  /-- The negation of what stands between parentheses. -/
  | negation (operand : Tree) (line : Line)
  /-- A name in an expression. -/
  | var (name : String) (line : Line)
  /-- A literal: the kind of its token and its text. -/
  | literal (kind : TokenKind) (lexeme : String) (line : Line)
  /-- The next value of the input. -/
  | input (line : Line)
  /-- An expression between parentheses. -/
  | group (inner : Tree) (line : Line)
  /-- The negative of an operand. -/
  | minus (operand : Tree) (line : Line)
  deriving Repr, Inhabited

namespace Tree

/-- The name of a level's chains in messages. -/
def chainForm : Level → String
  | .or => "OrChain"
  | .and => "AndChain"
  | .sum => "AdditiveChain"
  | .product => "MultiplicativeChain"

/-- The name of a tree's form in messages. -/
def form : Tree → String
  | absent => "NoneType"
  | bare _ => "ParseNode"
  | block .. => "StatementList"
  | assignment .. => "Reassignment"
  | letFixed .. => "ImmutableDeclaration"
  | letMutable .. => "MutableDeclaration"
  | ifElse .. => "IfChain"
  | elseIf .. => "ElseIfTail"
  | otherwise .. => "ElseTail"
  | loop .. => "WhileLoop"
  | output .. => "OutputCall"
  | operation .. => "OperatorTail"
  | chain level .. => chainForm level
  | comparison .. => "Comparison"
  | negation .. => "Negation"
  | var .. => "IdentifierFactor"
  | literal .. => "LiteralFactor"
  | input _ => "InputFactor"
  | group .. => "GroupFactor"
  | minus .. => "MinusFactor"

/-- The line a tree stands on, zero where there is no tree. -/
def line : Tree → Line
  | absent => 0
  | bare line | block _ line | assignment _ _ line | letFixed _ _ line | letMutable _ _ line
  | ifElse _ _ _ line | elseIf _ _ _ line | otherwise _ line | loop _ _ line | output _ _ line
  | operation _ _ line | chain _ _ _ line | comparison _ _ line | negation _ line
  | var _ line | literal _ _ line | input line | group _ line | minus _ line => line

/-- The statements of a block. -/
def statements : Tree → List Tree
  | block statements _ => statements
  | _ => []

end Tree

end ThreeAddress
