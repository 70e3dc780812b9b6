import ThreeAddress.Compilation
import ThreeAddress.Proofs.Grammar.Sources

/-!
# Compiling tokens

What a compilation yields depends on its source by the tokens only (`compile_eq`). The stages from
the tokens on are put together here without the journal, each with what follows it.
-/

namespace ThreeAddress

/-- What a compilation yields once its code is there. -/
def compileCode (request : Request) (root : Node) (lines : List String) (builder : Builder) :
    Except CompileError Compilation :=
  let result (c : Option String) : Compilation :=
    { root, lines, c
      table := builder.table
      statistics := builder.statistics
      declared := builder.table.declared.length
      problems := builder.problems }
  if request.emitC then
    match ({ table := builder.table } : Emitter).unit lines with
    | .ok (unit, _) => .ok (result (some (unit.text "    ")))
    | .error error => .error (.emit error)
  else .ok (result none)

/-- Compiles a checked tree. -/
def compileRoot (budgets : Budgets) (request : Request) (root : Node) (table : Table) :
    Except CompileError Compilation :=
  match root.lowerProgram budgets.lowering none { table } with
  | .ok lines builder => compileCode request root lines builder
  | .error error _ => .error (.lower error)

/-- Compiles a grammar tree. -/
def compileTree (budgets : Budgets) (request : Request) (tree : Tree) :
    Except CompileError Compilation :=
  match tree.checkProgram budgets.checking {} with
  | .ok root state => compileRoot budgets request root state.table
  | .error error _ => .error (.check error)

/-- Compiles tokens. -/
def compileTokens (budgets : Budgets) (request : Request) (tokens : List Token) :
    Except CompileError Compilation :=
  match Tree.ofTokens budgets.reading tokens with
  | .ok tree => compileTree budgets request tree
  | .error error => .error (.grammar error)

namespace Compile

/-- What is yielded, without the journal. -/
def outcome {Value : Type} (run : Compile Value) (journal : List Progress) :
    Except CompileError Value :=
  match run journal with
  | .ok value _ => .ok value
  | .error error _ => .error error

variable {Value Next Error State : Type} {journal : List Progress}

/-- A note does not change what is yielded. -/
theorem outcome_note (progress : Progress) (next : Unit → Compile Next) :
    outcome (note progress >>= next) journal = outcome (next ()) (journal ++ [progress]) := rfl

/-- A stage without a state, and what follows it. -/
theorem outcome_orEnd {wrap : Error → CompileError} (result : Except Error Value)
    (next : Value → Compile Next) :
    outcome (orEnd wrap result >>= next) journal = match result with
      | .ok value => outcome (next value) journal
      | .error error => .error (wrap error) := by
  cases result <;> rfl

/-- A stage on a state of its own, and what follows it. -/
theorem outcome_stage {wrap : Error → CompileError} (run : EStateM Error State Value)
    (state : State) (next : Value × State → Compile Next) :
    outcome (stage wrap run state >>= next) journal = match run state with
      | .ok value after => outcome (next (value, after)) journal
      | .error error _ => .error (wrap error) := by
  rw [stage]
  cases run state <;> rfl

end Compile

open Compile in
/-- What a compilation yields depends on the tokens of the source only. -/
theorem compile_eq (budgets : Budgets) (request : Request) (source : String) :
    (compile budgets request source).1 = compileTokens budgets request (tokenize source) := by
  have houtcome : (compile budgets request source).1 =
      outcome (Compile.source budgets request source) [] := by
    rw [compile, outcome]
    cases Compile.source budgets request source [] <;> rfl
  rw [houtcome, Compile.source, outcome_note, readTree, bind_assoc, outcome_orEnd,
    Tree.ofSource_eq, compileTokens]
  cases Tree.ofTokens budgets.reading (tokenize source) with
  | error error => rfl
  | ok tree =>
    simp only [bind_assoc, pure_bind, outcome_note, checkTree, outcome_stage, compileTree]
    cases tree.checkProgram budgets.checking {} with
    | error error state => rfl
    | ok root state =>
      simp only [bind_assoc, pure_bind, outcome_note, lowerTree, outcome_stage, compileRoot]
      cases root.lowerProgram budgets.lowering none { table := state.table } with
      | error error builder => rfl
      | ok lines builder =>
        simp only [compileCode]
        cases request.emitC with
        | false => rfl
        | true =>
          simp only [if_true, emitLines, map_eq_pure_bind, bind_assoc, pure_bind, outcome_orEnd]
          cases ({ table := builder.table } : Emitter).unit lines <;> rfl

end ThreeAddress
