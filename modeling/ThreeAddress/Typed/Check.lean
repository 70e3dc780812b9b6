import ThreeAddress.Grammar.Tree
import ThreeAddress.Table
import ThreeAddress.Typed.Node

/-!
# Checking a grammar tree

The checker walks a grammar tree in the order of the text, keeps the table of names, and builds
the checked tree from the leaves up. A name must be declared before it is used, once in the
whole program; it must have a value before it is read; and every operator, condition and
assignment must find the types it needs.

The state after a failure is the state of that moment: the declarations made until then stay.
Only the depth of blocks is restored when a block is left, by whatever way.

`check` recurses on the tree. The budget counts how deep a node may lie below the root; it is
no fuel, and with a budget that is large enough it says nothing.
-/

namespace ThreeAddress

/-- Why a tree is not a well-typed program. -/
inductive CheckError where
  /-- The table refuses what the statement on the line does. -/
  | names (error : TableError) (line : Line)
  /-- An assignment to a name that is fixed. -/
  | fixedName (name : String) (line : Line)
  /-- A name is read before it has a value. -/
  | unassigned (name : String) (line : Line)
  /-- An operand of a logical operator is no truth value. -/
  | notBool (operator : String) (found : DataType) (line : Line)
  /-- An operand of an arithmetic or relational operator is no number. -/
  | notArithmetic (operator : String) (found : DataType) (line : Line)
  /-- The condition of a statement is no truth value. -/
  | notCondition (statement : String) (found : DataType) (line : Line)
  /-- A string stands as a value. -/
  | stringValue (line : Line)
  /-- The root is not a list of statements. -/
  | rootForm
  /-- A form stands where the checker has no rule for it. -/
  | noRule (form : String)
  /-- A literal of a kind that has no literals. -/
  | literalKind (kind : TokenKind)
  /-- A part is needed that is not there. -/
  | noPart
  /-- The nesting uses up the budget. -/
  | tooDeep
  deriving DecidableEq, Repr

/-- The error in words. -/
def CheckError.report : CheckError → Report
  | names error line => error.report line
  | fixedName name line =>
    .semantic ("Cannot assign to immutable identifier '" ++ name ++ "'") line
  | unassigned name line =>
    .semantic ("Identifier '" ++ name ++ "' is used before a value is assigned") line
  | notBool operator found line =>
    .semantic ("The '" ++ operator ++ "' operator requires bool, got " ++ found.name) line
  | notArithmetic operator found line =>
    .semantic ("Operands of '" ++ operator ++ "' must be int|char|float, got " ++ found.name) line
  | notCondition statement found line =>
    .semantic (statement ++ " condition must be bool, got " ++ found.name) line
  | stringValue line =>
    .semantic "String values are only supported as output format strings" line
  | rootForm => .internal "Type Checker" "the parse tree root must be a statement list"
  | noRule form => .internal "Type Checker" ("no rule for parse node " ++ form)
  | literalKind kind =>
    .internal "Type Checker" ("literal factor with token kind " ++ kind.name)
  | noPart => .breakdown .noPart
  | tooDeep => .internal "Type Checker" "program nested too deeply to check"

/-- What the checker keeps. -/
structure CheckState where
  table : Table := .empty
  /-- In how many blocks the checker is. -/
  depth : Nat := 0
  /-- How many statements have been checked, those in blocks included. -/
  checked : Nat := 0
  deriving DecidableEq, Repr

/-- A check works on the state and keeps it when it fails. -/
abbrev Check := EStateM CheckError CheckState

namespace Check

/-- Changes the table, or fails for the statement on the line as the table does. -/
def updateTable (line : Line) (change : Table → Except TableError Table) : Check Unit := do
  match change (← get).table with
  | .ok table => modify fun state => { state with table }
  | .error error => throw (.names error line)

/-- The entry of a name used on the line. -/
def entry (name : String) (line : Line) : Check Entry := do
  match (← get).table.lookup name with
  | .ok entry => return entry
  | .error error => throw (.names error line)

/-- Checks one block deeper, and is back at the old depth afterwards, also after a failure. -/
def deeper {Value : Type} (inner : Check Value) : Check Value := fun state =>
  match inner { state with depth := state.depth + 1 } with
  | .ok value after => .ok value { after with depth := state.depth }
  | .error error after => .error error { after with depth := state.depth }

/-- One more statement has been checked. -/
def countStatement : Check Unit :=
  modify fun state => { state with checked := state.checked + 1 }

/-- The type of a checked part, which must have left a node. -/
def typeOf (node : Node) : Check DataType :=
  if node.isAbsent then throw .noPart else return node.type

/-- An operand of a logical operator has to be a truth value. -/
def requireBool (node : Node) (operator : String) (line : Line) : Check Unit := do
  let type ← typeOf node
  if type = .bool then pure () else throw (.notBool operator type line)

/-- An operand of an arithmetic or relational operator has to be a number. -/
def requireArithmetic (node : Node) (operator : String) (line : Line) : Check Unit := do
  let type ← typeOf node
  if type.isArithmetic then pure () else throw (.notArithmetic operator type line)

/-- A condition has to be a truth value. -/
def requireCondition (node : Node) (statement : String) (line : Line) : Check Unit := do
  let type ← typeOf node
  if type = .bool then pure () else throw (.notCondition statement type line)

/-- A logical operation on two checked operands. -/
def logical (operator : String) (left right : Node) (line : Line) : Check Node := do
  requireBool left operator line
  requireBool right operator line
  return .binary operator left right ⟨line, .bool⟩

/-- An arithmetic operation on two checked operands. -/
def arithmetic (operator : String) (left right : Node) (line : Line) : Check Node := do
  requireArithmetic left operator line
  requireArithmetic right operator line
  return .binary operator left right ⟨line, .arithmeticResult [left.type, right.type]⟩

/-- A comparison of two checked operands. -/
def relational (operator : String) (left right : Node) (line : Line) : Check Node := do
  requireArithmetic left operator line
  requireArithmetic right operator line
  return .binary operator left right ⟨line, .bool⟩

/-- An operation of a level on two checked operands. -/
def operation : Level → String → Node → Node → Line → Check Node
  | .or | .and => logical
  | .sum | .product => arithmetic

/-- The negation of a checked operand. -/
def negation (operand : Node) (line : Line) : Check Node := do
  requireBool operand "!" line
  return .unary "!" operand ⟨line, .bool⟩

/-- The negative of a checked operand. -/
def minus (operand : Node) (line : Line) : Check Node := do
  requireArithmetic operand "-" line
  return .unary "-" operand ⟨line, .arithmeticResult [operand.type]⟩

/-- A name in an expression. -/
def reference (name : String) (line : Line) : Check Node := do
  let entry ← entry name line
  if entry.type = .unknown then throw (.unassigned name line)
  else return .var name ⟨line, entry.type⟩

/-- The type of the literals of a kind. -/
def literalType? : TokenKind → Option DataType
  | .intLit => some .int
  | .floatLit => some .float
  | .charLit => some .char
  | .boolLit => some .bool
  | .stringLit => some .string
  | _ => none

/-- A literal in an expression. -/
def literal (kind : TokenKind) (lexeme : String) (line : Line) : Check Node :=
  match literalType? kind with
  | none => throw (.literalKind kind)
  | some .string => throw (.stringValue line)
  | some type => return .literal lexeme ⟨line, type⟩

/-- A declaration with a checked first value. -/
def declaration (name : String) (value : Node) (assignable : Bool) (line : Line) :
    Check Node := do
  let type ← typeOf value
  updateTable line fun table => table.declare name type assignable
  return .assignment name value true ⟨line, .void⟩

/-- Fails unless the name on the line is known and may be assigned to. -/
def requireAssignable (name : String) (line : Line) : Check Unit := do
  let entry ← entry name line
  if entry.assignable then pure () else throw (.fixedName name line)

/-- An assignment of a checked value. -/
def assignment (name : String) (value : Node) (line : Line) : Check Node := do
  let type ← typeOf value
  updateTable line fun table => table.resolve name type
  return .assignment name value false ⟨line, .void⟩

/-- The checked statements of a block at the given depth: a program at the top, else a body. -/
def blockNode (depth : Nat) (statements : List Node) (line : Line) : Node :=
  if depth = 0 then .program statements ⟨line, .void⟩ else .block statements ⟨line, .void⟩

/-- Puts a checked statement in front of the others, unless it left no node. -/
def consStatement (node : Node) (others : List Node) : List Node :=
  if node.isAbsent then others else node :: others

end Check

namespace Tree

mutual
/-- Checks a tree of any form. -/
def check : Tree → Nat → Check Node
  | _, 0 => throw .tooDeep
  | .block statements line, budget + 1 => do
    let depth := (← get).depth
    let items ← Check.deeper (checkStatements statements budget)
    return Check.blockNode depth items line
  | .assignment name value line, budget + 1 => do
    Check.requireAssignable name line
    let value ← check value budget
    Check.assignment name value line
  | .letFixed name value line, budget + 1 => do
    let value ← check value budget
    Check.declaration name value false line
  | .letMutable name .absent line, _ + 1 => do
    Check.updateTable line fun table => table.declare name .unknown true
    return .absent
  | .letMutable name value line, budget + 1 => do
    let value ← check value budget
    Check.declaration name value true line
  | .ifElse condition body tail line, budget + 1 => do
    let condition ← check condition budget
    Check.requireCondition condition "if" line
    let body ← check body budget
    let rest ← checkTail tail budget
    return .conditional (condition :: body :: rest) ⟨line, .void⟩
  | .loop condition body line, budget + 1 => do
    let condition ← check condition budget
    Check.requireCondition condition "while" line
    let body ← check body budget
    return .loop condition body ⟨line, .void⟩
  | .output text arguments line, budget + 1 => do
    let arguments ← checkAll arguments budget
    return .output (.format text ⟨line, .string⟩) arguments ⟨line, .void⟩
  | .chain level first operations _, budget + 1 => do
    let first ← check first budget
    checkOperations level first operations budget
  | .comparison left (.operation operator right operatorLine) _, budget + 1 => do
    let left ← check left budget
    let right ← check right budget
    Check.relational operator left right operatorLine
  | .comparison left (.minus operand _) _, budget + 1 => do
    let _ ← check left budget
    let _ ← check operand budget
    throw .noPart
  | .comparison left _ _, budget + 1 => do
    let _ ← check left budget
    throw .noPart
  | .negation operand line, budget + 1 => do
    let operand ← check operand budget
    Check.negation operand line
  | .var name line, _ + 1 => Check.reference name line
  | .literal kind lexeme line, _ + 1 => Check.literal kind lexeme line
  | .input line, _ + 1 => return .input ⟨line, .int⟩
  | .group inner _, budget + 1 => check inner budget
  | .minus operand line, budget + 1 => do
    let operand ← check operand budget
    Check.minus operand line
  | .absent, _ + 1 => throw (.noRule (form .absent))
  | .bare line, _ + 1 => throw (.noRule (form (.bare line)))
  | .elseIf condition body tail line, _ + 1 =>
    throw (.noRule (form (.elseIf condition body tail line)))
  | .otherwise body line, _ + 1 => throw (.noRule (form (.otherwise body line)))
  | .operation operator operand line, _ + 1 =>
    throw (.noRule (form (.operation operator operand line)))

/-- Checks statements one after the other; a declaration without a value leaves no node. -/
def checkStatements : List Tree → Nat → Check (List Node)
  | [], _ => return []
  | statement :: statements, budget => do
    let node ← check statement budget
    Check.countStatement
    let others ← checkStatements statements budget
    return Check.consStatement node others

/-- Checks the arguments of a print. -/
def checkAll : List Tree → Nat → Check (List Node)
  | [], _ => return []
  | tree :: trees, budget => do
    let node ← check tree budget
    let others ← checkAll trees budget
    return node :: others

/-- Checks what follows the body of a conditional: its further links, all on one level, and its
last block. -/
def checkTail : Tree → Nat → Check (List Node)
  | .ifElse condition body tail line, budget | .elseIf condition body tail line, budget => do
    let condition ← check condition budget
    Check.requireCondition condition "if" line
    let body ← check body budget
    let rest ← checkTail tail budget
    return condition :: body :: rest
  | .otherwise body _, budget => do
    let body ← check body budget
    return [body]
  | .absent, _ | .bare _, _ | .block .., _ | .assignment .., _ | .letFixed .., _
  | .letMutable .., _ | .loop .., _ | .output .., _ | .operation .., _ | .chain .., _
  | .comparison .., _ | .negation .., _ | .var .., _ | .literal .., _ | .input _, _
  | .group .., _ | .minus .., _ => return []

/-- Checks the operations of a chain and joins each to what stands left of it. A node of another
form is no operation; where it has an operand, the operand is checked before its operator is
missed. -/
def checkOperations (level : Level) (left : Node) : List Tree → Nat → Check Node
  | [], _ => return left
  | .operation operator operand line :: operations, budget => do
    let right ← check operand budget
    let joined ← Check.operation level operator left right line
    checkOperations level joined operations budget
  | .minus operand _ :: _, budget => do
    let _ ← check operand budget
    throw .noPart
  | _ :: _, _ => throw .noPart
end

/-- How deep a node may lie below the root. -/
def standardBudget : Nat := 500

/-- Checks a whole program. -/
def checkProgram (budget : Nat) : Tree → Check Node
  | .block statements line => check (.block statements line) budget
  | _ => throw .rootForm

end Tree

end ThreeAddress
