import ThreeAddress.Compilation
import ThreeAddress.Typed.Drawing

/-!
# Analysis

The answer to a client that sends a program and says which results it wants to see. A program
that cannot be compiled is answered with one diagnostic and no results.
-/

namespace ThreeAddress

/-- A program, and what its sender wants to see of it. -/
structure AnalysisRequest where
  code : String
  drawing : Bool := false
  lines : Bool := false
  c : Bool := false
  deriving DecidableEq, Repr

/-- What is wrong with a program. -/
structure Diagnostic where
  kind : String
  message : String
  line : Option Line
  lexeme : Option String
  deriving DecidableEq, Repr

/-- The code of a program, with numbers on it. -/
structure CodeSummary where
  lines : List String
  instructions : Nat
  temporaries : Nat
  labels : Nat
  problems : List String
  deriving DecidableEq, Repr

/-- The answer. -/
structure AnalysisAnswer where
  /-- Whether the program could be compiled. -/
  isOk : Bool
  diagnostics : List Diagnostic
  drawing : Option String
  code : Option CodeSummary
  c : Option String
  deriving DecidableEq, Repr

/-- The diagnostic of a report. A fault of the compiler is shown with its frame and without a
place. -/
def Diagnostic.ofReport : Report → Diagnostic
  | .lexical reason lexeme line => ⟨"lexer", reason, line, some lexeme⟩
  | .grammar reason lexeme line => ⟨"parser", reason, line, some lexeme⟩
  | .semantic reason line => ⟨"semantic", reason, line, none⟩
  | report => ⟨"internal", report.message, none, none⟩

/-- The code of a compilation. -/
def CodeSummary.ofCompilation (compilation : Compilation) : CodeSummary where
  lines := compilation.lines
  instructions := compilation.lines.length
  temporaries := compilation.statistics.temporaries
  labels := compilation.statistics.labels
  problems := compilation.problems

/-- A value, if it is wanted. -/
def whenWanted {Value : Type} (wanted : Bool) (value : Value) : Option Value :=
  if wanted then some value else none

/-- Answers a request. The budgets are those of the command (`Budgets`), and the drawing of a tree
that could be compiled always succeeds (`Node.drawing`). -/
def analyze (budgets : Budgets) (request : AnalysisRequest) : AnalysisAnswer :=
  match (compile budgets { emitC := request.c, title := "request" } request.code).1 with
  | .error error => ⟨false, [Diagnostic.ofReport error.report], none, none, none⟩
  | .ok compilation =>
    { isOk := true
      diagnostics := []
      drawing := whenWanted request.drawing compilation.root.drawing
      code := whenWanted request.lines (CodeSummary.ofCompilation compilation)
      c := if request.c then compilation.c else none }

end ThreeAddress
