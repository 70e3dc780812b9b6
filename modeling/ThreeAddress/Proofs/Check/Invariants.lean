import ThreeAddress.Proofs.Check.Acceptance
import ThreeAddress.Proofs.Invariants

/-!
# What a check keeps of the table

The checker changes the table by two operations only: it declares a name, and it records a value for
one. A relation between two moments of the table that these operations keep (`Check.IsKept`) is kept
by the check of a tree of any form, whether it succeeds or fails (`Check.IsKept.check`). What the
checker asks without changing anything leaves the whole state alone (`Check.IsQuiet`).
-/

namespace ThreeAddress

open Sequence

/-- Without a budget nothing is checked. -/
theorem Tree.check_zero (tree : Tree) : tree.check 0 = throw .tooDeep := by
  cases tree <;> rfl

namespace Check

/-! ## Parts that leave the state alone -/

/-- A part of a check leaves the state alone, whether it has a value or fails. -/
abbrev IsQuiet {Value : Type} (run : Check Value) : Prop := Keeps (· = ·) run

namespace IsQuiet

variable {Value Next : Type}

/-- A part of a check, and what follows it. -/
theorem bind {run : Check Value} {next : Value → Check Next} (hrun : IsQuiet run)
    (hnext : ∀ value, IsQuiet (next value)) : IsQuiet (run >>= next) :=
  Keeps.bind hrun hnext Eq.trans

/-- A plain value. -/
theorem pure (value : Value) : IsQuiet (Pure.pure value : Check Value) := Keeps.pure fun _ => rfl

/-- A failure. -/
theorem throw (error : CheckError) : IsQuiet (throw error : Check Value) := Keeps.throw fun _ => rfl

/-- The entry of a name. -/
theorem entry (name : String) (line : Line) : IsQuiet (entry name line) := by
  refine Keeps.get fun state => ?_
  cases hlookup : state.table.lookup name with
  | ok entry => exact pure entry
  | error error => exact throw _

/-- The type of a node. -/
theorem typeOf (node : Node) : IsQuiet (typeOf node) := by
  rw [Check.typeOf]
  split
  · exact throw _
  · exact pure _

/-- A demand on the type of a node. -/
theorem require (node : Node) {accepts : DataType → Prop} [DecidablePred accepts]
    (error : DataType → CheckError) :
    IsQuiet (do
      let type ← Check.typeOf node
      if accepts type then Pure.pure () else MonadExcept.throw (error type) : Check Unit) := by
  refine (typeOf node).bind fun type => ?_
  split
  · exact pure ()
  · exact throw _

/-- An operation on two operands. -/
theorem operation (level : Level) (operator : String) (left right : Node) (line : Line) :
    IsQuiet (operation level operator left right line) := by
  cases level with
  | or | and | sum | product =>
    exact (require left _).bind fun _ => (require right _).bind fun _ => pure _

/-- A comparison of two operands. -/
theorem relational (operator : String) (left right : Node) (line : Line) :
    IsQuiet (relational operator left right line) :=
  (require left _).bind fun _ => (require right _).bind fun _ => pure _

/-- The negation of an operand. -/
theorem negation (operand : Node) (line : Line) : IsQuiet (negation operand line) :=
  (require operand _).bind fun _ => pure _

/-- The negative of an operand. -/
theorem minus (operand : Node) (line : Line) : IsQuiet (minus operand line) :=
  (require operand _).bind fun _ => pure _

/-- A name in an expression. -/
theorem reference (name : String) (line : Line) : IsQuiet (reference name line) := by
  refine (entry name line).bind fun entry => ?_
  split
  · exact throw _
  · exact pure _

/-- A literal. -/
theorem literal (kind : TokenKind) (lexeme : String) (line : Line) :
    IsQuiet (literal kind lexeme line) := by
  rw [Check.literal]
  split
  · exact throw _
  · exact throw _
  · exact pure _

/-- A name that must be assignable. -/
theorem requireAssignable (name : String) (line : Line) :
    IsQuiet (requireAssignable name line) := by
  refine (entry name line).bind fun entry => ?_
  split
  · exact pure ()
  · exact throw _

/-- A check leaves the state alone if it does so with a budget. -/
theorem of_succ {tree : Tree} (h : ∀ budget, IsQuiet (tree.check (budget + 1))) (budget : Nat) :
    IsQuiet (tree.check budget) := by
  cases budget with
  | zero => exact tree.check_zero ▸ throw _
  | succ budget => exact h budget

end IsQuiet

/-! ## Relations that the operations on the table keep -/

/-- A change of the table that is refused. -/
theorem updateTable_error {state : CheckState} {line : Line}
    {change : Table → Except TableError Table} {error : TableError}
    (h : change state.table = .error error) :
    updateTable line change state = .error (.names error line) state := by
  refine bind_error.2 (.inr ⟨state, state, rfl, ?_⟩)
  rw [h]
  rfl

/-- A relation between two moments of the table that the operations of the checker keep. -/
structure IsKept (rel : Table → Table → Prop) : Prop where
  refl (table : Table) : rel table table
  trans {first second third : Table} : rel first second → rel second third → rel first third
  declare {table after : Table} {name : String} {type : DataType} {assignable : Bool} :
    table.declare name type assignable = .ok after → rel table after
  resolve {table after : Table} {name : String} {type : DataType} :
    table.resolve name type = .ok after → rel table after

/-- A relation holds between the table before a part of a check and the one behind it. -/
abbrev KeepsTable {Value : Type} (rel : Table → Table → Prop) (run : Check Value) : Prop :=
  Keeps (fun before after => rel before.table after.table) run

namespace IsKept

variable {rel : Table → Table → Prop} {budget : Nat} {Value Next : Type}

/-- A part of a check, and what follows it. -/
theorem bind (h : IsKept rel) {run : Check Value} {next : Value → Check Next}
    (hrun : KeepsTable rel run) (hnext : ∀ value, KeepsTable rel (next value)) :
    KeepsTable rel (run >>= next) := Keeps.bind hrun hnext h.trans

/-- A plain value. -/
theorem pure (h : IsKept rel) (value : Value) : KeepsTable rel (Pure.pure value : Check Value) :=
  .pure fun state => h.refl state.table

/-- A failure. -/
theorem throw (h : IsKept rel) (error : CheckError) :
    KeepsTable rel (throw error : Check Value) := .throw fun state => h.refl state.table

/-! ## The parts of a check -/

/-- One block deeper. -/
theorem deeper {inner : Check Value} (hinner : KeepsTable rel inner) :
    KeepsTable rel (deeper inner) := by
  intro state
  have hbelow := hinner { state with depth := state.depth + 1 }
  rw [last] at hbelow ⊢
  rw [Check.deeper]
  cases hrun : inner { state with depth := state.depth + 1 } with
  | ok | error =>
    rw [hrun] at hbelow
    exact hbelow

/-- A change of the table. -/
theorem updateTable (h : IsKept rel) (line : Line) {change : Table → Except TableError Table}
    (hchange : ∀ {table after}, change table = .ok after → rel table after) :
    KeepsTable rel (updateTable line change) := by
  intro state
  cases hafter : change state.table with
  | ok table =>
    rw [last_of_ok (updateTable_ok hafter)]
    exact hchange hafter
  | error error =>
    rw [last_of_error (updateTable_error hafter)]
    exact h.refl state.table

/-- What leaves the state alone. -/
theorem of_quiet (h : IsKept rel) {run : Check Value} (hrun : IsQuiet run) :
    KeepsTable rel run := by
  refine hrun.mono ?_
  rintro state _ rfl
  exact h.refl state.table

/-- A declaration with a value. -/
theorem declaration (h : IsKept rel) (name : String) (value : Node) (assignable : Bool)
    (line : Line) : KeepsTable rel (declaration name value assignable line) :=
  h.bind (h.of_quiet (.typeOf value)) fun _ => h.bind (h.updateTable line h.declare) fun _ =>
    h.pure _

/-- An assignment. -/
theorem assignment (h : IsKept rel) (name : String) (value : Node) (line : Line) :
    KeepsTable rel (assignment name value line) :=
  h.bind (h.of_quiet (.typeOf value)) fun _ => h.bind (h.updateTable line h.resolve) fun _ =>
    h.pure _

/-! ## Trees -/

/-- The relation is kept by the trees one level below. -/
def Below (rel : Table → Table → Prop) (budget : Nat) : Prop :=
  ∀ tree : Tree, KeepsTable rel (tree.check budget)

/-- Statements one after the other. -/
theorem statements (h : IsKept rel) (hbelow : Below rel budget) (trees : List Tree) :
    KeepsTable rel (Tree.checkStatements trees budget) := by
  induction trees with
  | nil => exact h.pure []
  | cons tree trees ih =>
    have hcount : KeepsTable rel countStatement := fun state => h.refl state.table
    exact h.bind (hbelow tree) fun _ => h.bind hcount fun _ => h.bind ih fun _ => h.pure _

/-- The arguments of a print. -/
theorem all (h : IsKept rel) (hbelow : Below rel budget) (trees : List Tree) :
    KeepsTable rel (Tree.checkAll trees budget) := by
  induction trees with
  | nil => exact h.pure []
  | cons tree trees ih => exact h.bind (hbelow tree) fun _ => h.bind ih fun _ => h.pure _

/-- A body under a condition, and what follows. -/
theorem guarded (h : IsKept rel) (hbelow : Below rel budget) (condition body : Tree)
    (statement : String) (line : Line) {next : Node → Node → Check Next}
    (hnext : ∀ test node, KeepsTable rel (next test node)) :
    KeepsTable rel (do
      let test ← condition.check budget
      requireCondition test statement line
      let node ← body.check budget
      next test node) :=
  h.bind (hbelow condition) fun test => h.bind (h.of_quiet (.require test _)) fun _ =>
    h.bind (hbelow body) fun node => hnext test node

/-- What follows the body of a conditional. -/
theorem tail (h : IsKept rel) (hbelow : Below rel budget) : ∀ tail : Tree,
    KeepsTable rel (tail.checkTail budget)
  | .ifElse condition body tail line | .elseIf condition body tail line =>
    h.guarded hbelow condition body "if" line fun _ _ => h.bind (h.tail hbelow tail) fun _ =>
      h.pure _
  | .otherwise body _ => h.bind (hbelow body) fun _ => h.pure _
  | .absent | .bare _ | .block .. | .assignment .. | .letFixed .. | .letMutable .. | .loop ..
  | .output .. | .operation .. | .chain .. | .comparison .. | .negation .. | .var ..
  | .literal .. | .input _ | .group .. | .minus .. => h.pure []

/-- The operations of a chain. -/
theorem operations (h : IsKept rel) (hbelow : Below rel budget) (level : Level) (left : Node)
    (trees : List Tree) : KeepsTable rel (Tree.checkOperations level left trees budget) := by
  induction trees generalizing left with
  | nil => exact h.pure left
  | cons tree trees ih =>
    cases tree with
    | operation operator operand line =>
      exact h.bind (hbelow operand) fun right =>
        h.bind (h.of_quiet (.operation level operator left right line)) fun joined => ih joined
    | minus operand => exact h.bind (hbelow operand) fun _ => h.throw _
    | _ => exact h.throw _

/-- What the operations on the table keep is kept by the check of a tree of any form. -/
theorem check (h : IsKept rel) (budget : Nat) (tree : Tree) :
    KeepsTable rel (tree.check budget) := by
  induction budget generalizing tree with
  | zero =>
    exact tree.check_zero ▸ h.throw _
  | succ budget ih =>
    cases tree with
    | absent | bare | elseIf | otherwise | operation => exact h.throw _
    | block statements line =>
      refine .get fun state => ?_
      exact h.bind (deeper (h.statements ih statements)) fun items => h.pure _
    | assignment name value line =>
      exact h.bind (h.of_quiet (.requireAssignable name line)) fun _ =>
        h.bind (ih value) fun node => h.assignment name node line
    | letFixed name value line =>
      exact h.bind (ih value) fun node => h.declaration name node false line
    | letMutable name value line =>
      have hvalue : KeepsTable rel (do
          let node ← value.check budget
          Check.declaration name node true line) :=
        h.bind (ih value) fun node => h.declaration name node true line
      cases value with
      | absent => exact h.bind (h.updateTable line h.declare) fun _ => h.pure _
      | _ => exact hvalue
    | ifElse condition body tail line =>
      exact h.guarded ih condition body "if" line fun _ _ => h.bind (h.tail ih tail) fun _ =>
        h.pure _
    | loop condition body line =>
      exact h.guarded ih condition body "while" line fun _ _ => h.pure _
    | output text arguments line => exact h.bind (h.all ih arguments) fun _ => h.pure _
    | chain level first operations line =>
      exact h.bind (ih first) fun left => h.operations ih level left operations
    | comparison left joined line =>
      cases joined with
      | operation operator right operatorLine =>
        exact h.bind (ih left) fun first => h.bind (ih right) fun second =>
          h.of_quiet (.relational operator first second operatorLine)
      | minus operand => exact h.bind (ih left) fun _ => h.bind (ih operand) fun _ => h.throw _
      | _ => exact h.bind (ih left) fun _ => h.throw _
    | negation operand line =>
      exact h.bind (ih operand) fun node => h.of_quiet (.negation node line)
    | var name line => exact h.of_quiet (.reference name line)
    | literal kind lexeme line => exact h.of_quiet (.literal kind lexeme line)
    | input line => exact h.pure _
    | group inner line => exact ih inner
    | minus operand line =>
      exact h.bind (ih operand) fun node => h.of_quiet (.minus node line)

/-- What the operations on the table keep is kept by the check of a whole program. -/
theorem checkProgram (h : IsKept rel) (budget : Nat) (tree : Tree) :
    KeepsTable rel (tree.checkProgram budget) := by
  cases tree with
  | block statements line => exact h.check budget _
  | _ => exact h.throw _

end IsKept

end Check

end ThreeAddress
