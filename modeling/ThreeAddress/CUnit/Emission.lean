import ThreeAddress.Code.Reader
import ThreeAddress.CUnit.Statement
import ThreeAddress.Table
import ThreeAddress.Text.Quoted

/-!
# Emitting C

Lines of three-address code become a C unit. All lines are read first. Then each instruction
becomes one statement, except that parameters are held back for the next call, which takes all
of them. Every name of the table with a type that can be stored becomes a variable.

An emitter can be run again and again. A run that fails leaves behind the parameters it held back,
which the next run drops; the statistics are those of the last run that succeeded.
-/

namespace ThreeAddress

/-- Why code cannot be emitted. -/
inductive EmitError where
  /-- A line that writes no instruction. -/
  | malformed (line : String)
  /-- A line that counts the parameters of a call with too many digits. -/
  | longCount
  /-- A target without storage. -/
  | noStorage (name : String)
  /-- A call that counts other parameters than those held back for it. -/
  | paramCount (call : String) (expected : Int) (found : Nat)
  /-- A print with a target, or without a format text. -/
  | invalidPrint (call : String)
  /-- A read with parameters, or without a target. -/
  | invalidRead (call : String)
  /-- A read into a variable of a type that cannot be read. -/
  | unreadable (type : DataType) (name : String)
  /-- A call of any other function. -/
  | unknownFunction (name : String)
  /-- Parameters that no call takes. -/
  | unusedParams (params : List String)
  deriving DecidableEq, Repr

/-- The error in words. -/
def EmitError.report : EmitError → Report
  | malformed line => .emission ("malformed TAC line: " ++ Text.quote line)
  | longCount => .breakdown .longNumber
  | noStorage name => .emission ("no storage declared for '" ++ name ++ "'")
  | paramCount call expected found =>
    .emission (call ++ " expects " ++ toString expected ++ " params, found " ++ toString found)
  | invalidPrint call => .emission ("invalid printf call: " ++ call)
  | invalidRead call => .emission ("invalid input call: " ++ call)
  | unreadable type name =>
    .emission ("cannot read a " ++ type.name ++ " value into '" ++ name ++ "'")
  | unknownFunction name => .emission ("unknown runtime function '" ++ name ++ "'")
  | unusedParams params =>
    .emission ("param without a following call: " ++ ", ".intercalate params)

namespace Instruction

/-- How many digits the count of a call may have. -/
def maxCountDigits : Nat := 4300

/-- How many digits there are at the end of a text. -/
def trailingDigits (text : List Char) : Nat := (text.reverse.takeWhile Text.isDecimal).length

/-- The instruction a line writes. A call ends in its count, so the digits at the end of its line
are those of the count. -/
def ofLine (line : String) : Except EmitError Instruction :=
  let text := Text.trim line.toList
  match ofLine? line.toList with
  | some (.call function count target) =>
    if maxCountDigits < trailingDigits text then .error .longCount
    else .ok (.call function count target)
  | some instruction => .ok instruction
  | none => .error (.malformed (String.ofList text))

end Instruction

namespace CUnit

/-- The variable of an entry, if a value of its type can be stored. -/
def variableOf? (entry : Entry) : Option CVariable :=
  if entry.type.isStorable then some ⟨entry.type, entry.name⟩ else none

/-- The type of the variable that a name has in the unit. -/
def storage (table : Table) (name : String) : Except EmitError DataType :=
  match table.find? name with
  | some entry => if entry.type.isStorable then .ok entry.type else .error (.noStorage name)
  | none => .error (.noStorage name)

/-- The format that reads a value of a type. -/
def readFormat? : DataType → Option String
  | .int => some "\"%d\""
  | .float => some "\"%f\""
  | .char => some "\" %c\""
  | _ => none

/-- The statement of a read into a target. -/
def read (table : Table) (target : String) : Except EmitError CStatement := do
  let type ← storage table target
  match readFormat? type with
  | some format => .ok (.scan format target)
  | none => .error (.unreadable type target)

/-- The statement of a call that takes the given parameters. -/
def call (table : Table) (function : String) (count : Int) (target : Option String)
    (params : List String) : Except EmitError CStatement :=
  let text := Instruction.callText function count target
  if (params.length : Int) ≠ count then .error (.paramCount text count params.length)
  else if function = "printf" then
    if target.isSome || params.isEmpty then .error (.invalidPrint text)
    else .ok (.print params)
  else if function = "input" then
    match target with
    | some target => if params.isEmpty then read table target else .error (.invalidRead text)
    | none => .error (.invalidRead text)
  else .error (.unknownFunction function)

/-- The statement of an assignment. A remainder stored in a floating-point variable is computed
by a function, since C has no operator for it. -/
def assign (table : Table) (target : String) (first : Option String) (operator : Option String)
    (second : Option String) : Except EmitError CStatement := do
  let type ← storage table target
  let left := Instruction.operandText first
  match operator, second with
  | some operator, some right =>
    if operator = "%" ∧ type = .float then .ok (.remainder target left right)
    else .ok (.binary target left operator right)
  | some operator, none => .ok (.unary target operator left)
  | none, _ => .ok (.copy target left)

/-- The statements of instructions, where the given parameters are held back. -/
def statementsOf (table : Table) :
    List String → List Instruction → Except EmitError (List CStatement)
  | params, [] => if params.isEmpty then .ok [] else .error (.unusedParams params)
  | params, .param operand :: rest => statementsOf table (params ++ [operand]) rest
  | params, .call function count target :: rest => do
    let statement ← call table function count target params
    let statements ← statementsOf table [] rest
    .ok (statement :: statements)
  | params, .assign target first operator second :: rest => do
    let statement ← assign table target first operator second
    let statements ← statementsOf table params rest
    .ok (statement :: statements)
  | params, .label name :: rest => do
    let statements ← statementsOf table params rest
    .ok (.label name :: statements)
  | params, .jump goal :: rest => do
    let statements ← statementsOf table params rest
    .ok (.goto goal :: statements)
  | params, .branch condition goal :: rest => do
    let statements ← statementsOf table params rest
    .ok (.branch condition goal :: statements)

/-- The unit of instructions over a table of names. -/
def ofInstructions (table : Table) (instructions : List Instruction) : Except EmitError CUnit := do
  let statements ← statementsOf table [] instructions
  .ok ⟨table.entries.filterMap variableOf?, statements⟩

/-- The instructions of lines of text, blank lines aside. -/
def readLines (lines : List String) : Except EmitError (List Instruction) :=
  (lines.filter fun line => !Text.isBlankText line.toList).mapM Instruction.ofLine

end CUnit

/-- Numbers on an emitted unit. -/
structure EmitCounts where
  instructions : Nat
  declarations : Nat
  statements : Nat
  deriving DecidableEq, Repr

/-- An emitter over a table of names. -/
structure Emitter where
  table : Table
  indent : String := "    "
  /-- The parameters held back for the next call. -/
  held : List String := []
  /-- Whether a statement of the run needs the library of mathematical functions. -/
  needsMath : Bool := false
  /-- The numbers of the last run that succeeded. -/
  counts : Option EmitCounts := none
  deriving Repr

/-- A piece of a run works on the emitter and keeps it when it fails. -/
abbrev Emit := EStateM EmitError Emitter

namespace Emit

/-- A result that does not depend on the emitter. -/
def ofExcept {Value : Type} : Except EmitError Value → Emit Value
  | .ok value => return value
  | .error error => throw error

/-- Takes the parameters held back. -/
def takeHeld : Emit (List String) := do
  let held := (← get).held
  modify fun emitter => { emitter with held := [] }
  return held

/-- The statement of an instruction; a parameter is held back and has none. -/
def translate : Instruction → Emit (Option CStatement)
  | .param operand => do
    modify fun emitter => { emitter with held := emitter.held ++ [operand] }
    return none
  | .call function count target => do
    let params ← takeHeld
    let statement ← ofExcept (CUnit.call (← get).table function count target params)
    return some statement
  | .assign target first operator second => do
    let statement ← ofExcept (CUnit.assign (← get).table target first operator second)
    if statement.needsMath then modify fun emitter => { emitter with needsMath := true }
    return some statement
  | .label name => return some (.label name)
  | .jump goal => return some (.goto goal)
  | .branch condition goal => return some (.branch condition goal)

/-- The statements of instructions, one after the other. -/
def translateAll : List Instruction → Emit (List CStatement)
  | [] => return []
  | instruction :: rest => do
    let statement ← translate instruction
    let statements ← translateAll rest
    return statement.toList ++ statements

/-- The text of the unit of lines of text. -/
def generate (lines : List String) : Emit String := do
  modify fun emitter => { emitter with held := [], needsMath := false }
  let instructions ← ofExcept (CUnit.readLines lines)
  let statements ← translateAll instructions
  let emitter ← get
  if !emitter.held.isEmpty then throw (.unusedParams emitter.held)
  let unit : CUnit := ⟨emitter.table.entries.filterMap CUnit.variableOf?, statements⟩
  let counts : EmitCounts := ⟨instructions.length, unit.declared.length, unit.statements.length⟩
  modify fun emitter => { emitter with counts := some counts }
  return unit.textUnder (CUnit.headersWith emitter.needsMath) emitter.indent

end Emit

namespace Emitter

/-- The unit of lines of text, and the numbers on it. -/
def unit (emitter : Emitter) (lines : List String) : Except EmitError (CUnit × EmitCounts) := do
  let instructions ← CUnit.readLines lines
  let unit ← CUnit.ofInstructions emitter.table instructions
  .ok (unit, ⟨instructions.length, unit.declared.length, unit.statements.length⟩)

/-- Runs the emitter: the text of the unit or the error, and the emitter afterwards. -/
def run (emitter : Emitter) (lines : List String) : Except EmitError String × Emitter :=
  match Emit.generate lines emitter with
  | .ok text after => (.ok text, after)
  | .error error after => (.error error, after)

end Emitter

end ThreeAddress
