import ThreeAddress.Command.Files
import ThreeAddress.Command.Settings
import ThreeAddress.Compilation
import ThreeAddress.Table.Listing
import ThreeAddress.Typed.Drawing

/-!
# The command

The command reads a source file, compiles it, and writes what it was asked for. What it does
after reading is fixed before it writes anything: a script of messages and writes in order, and
a status for its end. The first write that fails ends the script early.

The statuses are 0 for success, 1 for words that do not fit the command and for files that
cannot be read or written, 2 for a text that is no program, 3 for a program that breaks a rule,
and 4 for a fault of the compiler.
-/

namespace ThreeAddress

/-- How the command ends. -/
inductive Exit where
  | status (code : Nat)
  /-- The command breaks off: the source file is no UTF-8 text. -/
  | notText
  /-- The command breaks off: a path is none that the system could be asked for. -/
  | badPath
  /-- The command breaks off: there is something to write and no path for it. -/
  | noPath
  deriving DecidableEq, Repr

/-- A step of a script. -/
inductive Action where
  /-- Prints a line. -/
  | say (line : String)
  /-- Writes a file. -/
  | write (path text : String)
  /-- Breaks off. -/
  | halt (exit : Exit)
  deriving DecidableEq, Repr

/-- What the command does once it has read its source. -/
structure Script where
  /-- Lines on the error stream, printed first. -/
  warnings : List String
  actions : List Action
  /-- The status at the end. -/
  status : Nat
  deriving DecidableEq, Repr

namespace Script

/-- The steps for a file that may have been asked for; an empty path asks for none. -/
def optional (path : Option String) (steps : String → List Action) : List Action :=
  match path with
  | some path => if path = "" then [] else steps path
  | none => []

/-- Draws the checked tree. -/
def drawing (compilation : Compilation) (path : String) : List Action :=
  [.write path compilation.root.drawing,
    .say ("✓ AST -> " ++ path ++ " (use: dot -Tpng " ++ path ++ " -o ast.png)")]

/-- Writes the code, a line feed after each line, and tells what is wrong with it. -/
def code (compilation : Compilation) : Option String → List Action
  | none => [.halt .noPath]
  | some path =>
    [.write path (String.join (compilation.lines.map (· ++ "\n"))),
      .say ("✓ Generated " ++ toString compilation.lines.length ++ " TAC instructions"),
      .say ("✓ TAC -> " ++ path)] ++
    if compilation.problems.isEmpty then [.say "✓ TAC validation passed"]
    else
      .say "\n⚠ TAC Validation Warnings:" ::
        compilation.problems.map fun problem => .say ("  - " ++ problem)

/-- Lists the table of names. -/
def symbols (compilation : Compilation) (path : String) : List Action :=
  [.write path compilation.table.listing, .say ("✓ Identifiers -> " ++ path)]

/-- Writes the C text, if there is one. -/
def c (compilation : Compilation) (path : String) : List Action :=
  match compilation.c with
  | some text => [.write path text, .say ("✓ C -> " ++ path)]
  | none => []

/-- Tells the numbers on the code. -/
def numbers (compilation : Compilation) : List Action :=
  [.say "\n--- TAC Statistics ---",
    .say ("  Total instructions: " ++ toString compilation.statistics.counts.instructions),
    .say ("  Temporaries used: " ++ toString compilation.statistics.temporaries),
    .say ("  Labels emitted: " ++ toString compilation.statistics.labels)]

/-- The steps after a compilation. -/
def success (settings : Settings) (compilation : Compilation) : List Action :=
  [.say "✓ Semantic analysis completed successfully."] ++
    optional settings.dot (drawing compilation) ++
    code compilation settings.tac ++
    optional settings.symbols (symbols compilation) ++
    c compilation settings.output ++
    numbers compilation

/-- The words and the status for a compilation that failed. -/
def failure (report : Report) : String × Nat :=
  match report with
  | .lexical .. | .grammar .. => ("✗ Syntax error: " ++ report.message, 2)
  | .semantic .. => ("✗ Semantic error: " ++ report.message, 3)
  | _ => ("✗ " ++ report.message, 4)

/-- The script for a source text. Any verbosity above zero prints the journal. From two on there
would be lines for single tokens and instructions between those of the journal as well; they are
left out, since the tokenizer writes some of them while the reader writes others, and their order is
open. -/
def ofSource (budgets : Budgets) (settings : Settings) (source : String) : Script :=
  let (result, journal) := compile budgets { emitC := !settings.noC } source
  let warnings := if settings.verbosity = 0 then [] else journal.map (·.line)
  match result with
  | .ok compilation => ⟨warnings, success settings compilation, 0⟩
  | .error error =>
    let (line, status) := failure error.report
    ⟨warnings ++ [line], [], status⟩

/-- The script for a source file that cannot be opened. -/
def unreadable (settings : Settings) (reason : String) : Script :=
  ⟨["✗ Cannot read " ++ settings.source ++ ": " ++ reason], [], 1⟩

/-- The line for a write that fails. -/
def cannotWrite (reason : String) : String := "✗ Cannot write output: " ++ reason

/-- A file as text, every line end a line feed; none if it is no UTF-8. -/
def decode? (bytes : ByteArray) : Option String :=
  (String.fromUTF8? bytes).map fun text => String.ofList (Text.unifyLineEnds text.toList)

end Script

/-- What a run of the command leaves behind. -/
structure Outcome where
  exit : Exit
  stdout : String
  stderr : String
  files : FileTree

namespace Outcome

/-- An outcome without output. -/
def silent (exit : Exit) (files : FileTree) : Outcome := ⟨exit, "", "", files⟩

/-- Carries out the steps of a script on a tree of files. -/
def perform (status : Nat) : List Action → Outcome → Outcome
  | [], outcome => { outcome with exit := .status status }
  | .say line :: actions, outcome =>
    perform status actions { outcome with stdout := outcome.stdout ++ line ++ "\n" }
  | .write path text :: actions, outcome =>
    match outcome.files.write path text with
    | .ok files => perform status actions { outcome with files }
    | .error .zeroInPath => { outcome with exit := .badPath }
    | .error error =>
      { outcome with
        exit := .status 1
        stderr := outcome.stderr ++ Script.cannotWrite (error.message path) ++ "\n" }
  | .halt exit :: _, outcome => { outcome with exit }

/-- Carries out a script. -/
def ofScript (script : Script) (files : FileTree) : Outcome :=
  perform script.status script.actions
    ⟨.status 0, "", String.join (script.warnings.map (· ++ "\n")), files⟩

end Outcome

/-- Runs the command on a tree of files. The budgets are those of an analysis as well: how much room
for nesting the command has used up itself is not modelled, and neither is running out of it while
the tree is drawn (`Budgets`). What is printed for help and for words that do not fit is left
out. -/
def runCommand (budgets : Budgets) (words : List String) (files : FileTree) : Outcome :=
  match Settings.ofWords words with
  | .error .help => .silent (.status 0) files
  | .error .usage => .silent (.status 1) files
  | .ok settings =>
    match files.read settings.source with
    | .error .zeroInPath => .silent .badPath files
    | .error error =>
      .ofScript (Script.unreadable settings (error.message settings.source)) files
    | .ok bytes =>
      match Script.decode? bytes with
      | none => .silent .notText files
      | some source => .ofScript (Script.ofSource budgets settings source) files

end ThreeAddress
