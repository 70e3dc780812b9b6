import ThreeAddress.CUnit.Emission
import ThreeAddress.Code.Lowering
import ThreeAddress.Grammar.FrontEnd
import ThreeAddress.Typed.Check

/-!
# Compilation

A source text becomes a grammar tree, a checked tree, three-address code and a C unit, one after
the other; the first of these that fails ends the compilation with its error. What has been
reached by then is written into a journal.
-/

namespace ThreeAddress

/-- The budgets for nesting, one for each stage that walks down a tree.

A budget stands for the room that a stage has for going down. The room that is in use already when
a compilation starts is not modelled: a stage is assumed to have the same budget inline and beside a
tokenizer, in the command and for an analysis. Drawing a tree has no budget. -/
structure Budgets where
  reading : Nat := Phrase.standardBudget
  checking : Nat := Tree.standardBudget
  lowering : Nat := Node.standardBudget
  deriving DecidableEq, Repr

/-- What a compilation is asked for. -/
structure Request where
  /-- Whether C is wanted. -/
  emitC : Bool := true
  /-- What the journal calls the text. -/
  title : String := "main"
  /-- Whether the text is cut into tokens concurrently. -/
  concurrent : Bool := true
  deriving DecidableEq, Repr

/-- Why a compilation ends. -/
inductive CompileError where
  | grammar (error : GrammarError)
  | check (error : CheckError)
  | lower (error : LowerError)
  | emit (error : EmitError)
  deriving DecidableEq, Repr

/-- The error in words. -/
def CompileError.report : CompileError → Report
  | grammar error => error.report
  | check error => error.report
  | lower error => error.report
  | emit error => error.report

/-- What a compilation has reached. -/
inductive Progress where
  | compiling (title : String) (characters : Nat)
  | parsed (statements : Nat)
  | checked (statements identifiers : Nat)
  | lowered (instructions temporaries : Nat)
  | emitted (instructions : Nat)
  deriving DecidableEq, Repr

/-- An entry of the journal as a line of text. -/
def Progress.line : Progress → String
  | compiling title characters =>
    "INFO pipeline: compiling " ++ title ++ " (" ++ toString characters ++ " characters)"
  | parsed statements =>
    "INFO syntax.parser: parsed " ++ toString statements ++ " top-level statements"
  | checked statements identifiers =>
    "INFO SemanticVisitor: checked " ++ toString statements ++ " statements, " ++
      toString identifiers ++ " identifiers declared"
  | lowered instructions temporaries =>
    "INFO tac.integrated_generator: generated " ++ toString instructions ++
      " TAC instructions using " ++ toString temporaries ++ " temporaries"
  | emitted instructions =>
    "INFO cgen.c_emitter: emitted C for " ++ toString instructions ++ " TAC instructions"

/-- What a compilation yields. -/
structure Compilation where
  /-- The checked tree. -/
  root : Node
  /-- The names of the program and the temporaries. -/
  table : Table
  /-- The three-address code. -/
  lines : List String
  /-- The C text, if it was asked for. -/
  c : Option String
  statistics : Statistics
  /-- How many names of the program there are, the temporaries not among them. -/
  declared : Nat
  /-- What is wrong with the code; nothing ever should be. -/
  problems : List String
  deriving Repr

/-- A compilation writes a journal and keeps it when it fails. -/
abbrev Compile := EStateM CompileError (List Progress)

namespace Compile

/-- Writes into the journal. -/
def note (progress : Progress) : Compile Unit := modify (· ++ [progress])

/-- Goes on with a value, or ends with the error of a stage. -/
def orEnd {Error Value : Type} (wrap : Error → CompileError) :
    Except Error Value → Compile Value
  | .ok value => return value
  | .error error => throw (wrap error)

/-- Runs a stage on its own state; its value and its last state, or its error. -/
def stage {Error State Value : Type} (wrap : Error → CompileError)
    (run : EStateM Error State Value) (state : State) : Compile (Value × State) :=
  match run state with
  | .ok value state => return (value, state)
  | .error error _ => throw (wrap error)

/-- The grammar tree of a text. -/
def readTree (budgets : Budgets) (request : Request) (source : String) : Compile Tree := do
  let tree ← orEnd .grammar (Tree.ofSource request.concurrent budgets.reading source)
  note (.parsed tree.statements.length)
  return tree

/-- The checked tree of a grammar tree, and the table of its names. -/
def checkTree (budgets : Budgets) (tree : Tree) : Compile (Node × Table) := do
  let (root, state) ← stage .check (tree.checkProgram budgets.checking) {}
  note (.checked state.checked state.table.size)
  return (root, state.table)

/-- The code of a checked tree, still under construction, and its text. -/
def lowerTree (budgets : Budgets) (root : Node) (table : Table) :
    Compile (List String × Builder) := do
  let (lines, builder) ← stage .lower (root.lowerProgram budgets.lowering none) { table }
  note (.lowered lines.length builder.temporaries.count)
  return (lines, builder)

/-- The C text of code over a table. -/
def emitLines (table : Table) (lines : List String) : Compile String := do
  let emitter : Emitter := { table }
  let (unit, counts) ← orEnd .emit (emitter.unit lines)
  note (.emitted counts.instructions)
  return unit.text emitter.indent

/-- Compiles a text. -/
def source (budgets : Budgets) (request : Request) (source : String) : Compile Compilation := do
  note (.compiling request.title source.length)
  let tree ← readTree budgets request source
  let (root, table) ← checkTree budgets tree
  let (lines, builder) ← lowerTree budgets root table
  let c ← if request.emitC then some <$> emitLines builder.table lines else pure none
  return {
    root, lines, c
    table := builder.table
    statistics := builder.statistics
    declared := builder.table.declared.length
    problems := builder.problems }

end Compile

/-- Compiles a text: what it yields or why it fails, and the journal. -/
def compile (budgets : Budgets) (request : Request) (source : String) :
    Except CompileError Compilation × List Progress :=
  match Compile.source budgets request source [] with
  | .ok compilation journal => (.ok compilation, journal)
  | .error error journal => (.error error, journal)

end ThreeAddress
