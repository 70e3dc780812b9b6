import ThreeAddress.Code.Builder

/-!
# Lowering a checked tree

Statements become instructions in the order of the text. Every operator and every input takes
one fresh temporary, typed after its node, after the operands have been lowered from left to
right; both operands of a logical operator are always lowered. A conditional takes one label for
its end and two for every condition, a loop takes three.

`lower` answers with the operand that holds the value of a node, or with none for a node that
has no value. It recurses on the tree; the budget counts how deep a node may lie below the
root.
-/

namespace ThreeAddress

/-- The operators that stand between two operands. -/
def binaryOperators : List String :=
  ["+", "-", "*", "/", "%", "==", "!=", "<", ">", "<=", ">=", "&&", "||"]

/-- The operators that stand in front of one operand. -/
def unaryOperators : List String := ["-", "!"]

namespace Lower

/-- The operand that holds the value of a node, which must have one. -/
def requireValue (node : Node) (operand : Option String) : Lower String :=
  match operand with
  | some operand => return operand
  | none => throw (.noValue node.form node.line)

/-- The text of a format text. -/
def requireText (node : Node) : Lower String :=
  match node.lexeme? with
  | some lexeme => return lexeme
  | none => throw .noText

/-- A fresh temporary that an instruction stores its value in. -/
def intoTemporary (type : DataType) (instruction : String → Instruction) :
    Lower (Option String) := do
  let target ← freshTemporary type
  emit (instruction target)
  return some target

/-- Fails unless the operator is one of those listed. -/
def requireOperator (operators : List String) (operator : String) (error : LowerError) :
    Lower Unit :=
  if operator ∈ operators then pure () else throw error

end Lower

namespace Node

mutual
/-- Lowers a node of any form. -/
def lower : Node → Nat → Lower (Option String)
  | _, 0 => throw .tooDeep
  | .absent, _ + 1 => throw .missing
  | .bare mark, _ + 1 => throw (.noLowering (form (.bare mark)) mark.line)
  | .format lexeme mark, _ + 1 => throw (.noLowering (form (.format lexeme mark)) mark.line)
  | .program statements _, budget + 1 | .block statements _, budget + 1 => do
    lowerAll statements budget
    return none
  | .assignment target value _ _, budget + 1 => do
    let operand ← lower value budget
    let operand ← Lower.requireValue value operand
    Lower.emit (.assign target (some operand) none none)
    return none
  | .output text arguments _, budget + 1 => do
    let operands ← lowerArguments arguments budget
    let text ← Lower.requireText text
    Lower.emit (.param text)
    operands.forM fun operand => Lower.emit (.param operand)
    Lower.emit (.call "printf" (operands.length + 1) none)
    return none
  | .conditional parts mark, budget + 1 => do
    if (branches parts).isEmpty then throw (.noCondition mark.line)
    let final ← Lower.freshLabel
    lowerBranches final parts budget
    Lower.emit (.label final)
    return none
  | .loop condition body _, budget + 1 => do
    let top ← Lower.freshLabel
    let inside ← Lower.freshLabel
    let exit ← Lower.freshLabel
    Lower.emit (.label top)
    let operand ← lower condition budget
    let operand ← Lower.requireValue condition operand
    Lower.emit (.branch operand inside)
    Lower.emit (.jump exit)
    Lower.emit (.label inside)
    let _ ← lower body budget
    Lower.emit (.jump top)
    Lower.emit (.label exit)
    return none
  | .binary operator left right mark, budget + 1 => do
    Lower.requireOperator binaryOperators operator (.binaryOperator operator mark.line)
    let first ← lower left budget
    let second ← lower right budget
    Lower.intoTemporary mark.type fun target => .assign target first (some operator) second
  | .unary operator operand mark, budget + 1 => do
    Lower.requireOperator unaryOperators operator (.unaryOperator operator mark.line)
    let value ← lower operand budget
    Lower.intoTemporary mark.type fun target => .assign target value (some operator) none
  | .literal lexeme _, _ + 1 => return some lexeme
  | .var name _, _ + 1 => return some name
  | .input mark, _ + 1 =>
    Lower.intoTemporary mark.type fun target => .call "input" 0 (some target)

/-- Lowers statements one after the other. -/
def lowerAll : List Node → Nat → Lower Unit
  | [], _ => return ()
  | node :: nodes, budget => do
    let _ ← lower node budget
    lowerAll nodes budget

/-- Lowers the arguments of a print to operands. -/
def lowerArguments : List Node → Nat → Lower (List String)
  | [], _ => return []
  | node :: nodes, budget => do
    let operand ← lower node budget
    let operand ← Lower.requireValue node operand
    let operands ← lowerArguments nodes budget
    return operand :: operands

/-- Lowers the parts of a conditional: after each body the code goes on at the final label, and
a condition that does not hold goes on behind its body. -/
def lowerBranches (final : String) : List Node → Nat → Lower Unit
  | condition :: body :: rest, budget => do
    let operand ← lower condition budget
    let operand ← Lower.requireValue condition operand
    let inside ← Lower.freshLabel
    let next ← Lower.freshLabel
    Lower.emit (.branch operand inside)
    Lower.emit (.jump next)
    Lower.emit (.label inside)
    let _ ← lower body budget
    Lower.emit (.jump final)
    Lower.emit (.label next)
    lowerBranches final rest budget
  | [.absent], _ => return ()
  | [body], budget => do
    let _ ← lower body budget
    return ()
  | [], _ => return ()
end

/-- How deep a node may lie below the root. -/
def standardBudget : Nat := 500

/-- Lowers a node that must have a value. -/
def lowerValue (node : Node) (budget : Nat) : Lower String := do
  let operand ← lower node budget
  Lower.requireValue node operand

/-- Lowers a whole program as a new run, over the given table or the one at hand. A root that
is no program is refused before anything is changed. -/
def lowerProgram (budget : Nat) (root : Node) (table : Option Table) : Lower (List String) := do
  match root with
  | .program .. =>
    modify fun builder => { builder with table := table.getD builder.table }.reset
    let _ ← lower root budget
    let unresolved := (← get).labels.unresolved
    if unresolved.isEmpty then return (← get).lines else throw (.undefinedLabels unresolved)
  | _ => throw (.rootForm root.form)

end Node

end ThreeAddress
