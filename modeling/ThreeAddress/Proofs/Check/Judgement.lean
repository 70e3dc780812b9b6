import Mathlib.Data.List.Forall2
import ThreeAddress.Proofs.Grammar.Derivation
import ThreeAddress.Proofs.Sequence
import ThreeAddress.Proofs.Table.Growth
import ThreeAddress.Typed.Check

/-!
# The rules of the checker

What the checker does to a derivation of the grammar, as rules. `Tree.Infers` gives an expression
its node over a table, which expressions leave alone; `Tree.Checks` gives a statement, a body or
the tail of a conditional the nodes it leaves, and tells how the table changes. The checker
follows the rules: on a derivation it ends with what they give, or with a fault of the program, or
because the budget is used up (`Tree.Derives.checkProgram_ends`).
-/

namespace ThreeAddress

open Sequence

/-! ## Rules -/

namespace Level

/-- Whether a value of the type may stand between the operators of the level. -/
def accepts : Level → DataType → Bool
  | or, type | and, type => type = .bool
  | sum, type | product, type => type.isArithmetic

/-- The type of an operation of the level on operands of the types. -/
def result : Level → DataType → DataType → DataType
  | or, _, _ | and, _, _ => .bool
  | sum, left, right | product, left, right => .arithmeticResult [left, right]

end Level

namespace Tree

/-- The node of an expression over a table. A chain is joined from the left, one operation at a
time. -/
inductive Infers (table : Table) : Tree → Node → Prop where
  | var {name : String} {line : Line} {entry : Entry} : table.find? name = some entry →
      entry.type ≠ .unknown → Infers table (.var name line) (.var name ⟨line, entry.type⟩)
  | literal {kind : TokenKind} {lexeme : String} {line : Line} {type : DataType} :
      Check.literalType? kind = some type → type ≠ .string →
      Infers table (.literal kind lexeme line) (.literal lexeme ⟨line, type⟩)
  | input {line : Line} : Infers table (.input line) (.input ⟨line, .int⟩)
  | group {inner : Tree} {node : Node} {line : Line} : Infers table inner node →
      Infers table (.group inner line) node
  | minus {operand : Tree} {node : Node} {line : Line} : Infers table operand node →
      node.type.isArithmetic = true →
      Infers table (.minus operand line)
        (.unary "-" node ⟨line, .arithmeticResult [node.type]⟩)
  | negation {operand : Tree} {node : Node} {line : Line} : Infers table operand node →
      node.type = .bool → Infers table (.negation operand line) (.unary "!" node ⟨line, .bool⟩)
  | comparison {left right : Tree} {first second : Node} {operator : String}
      {operatorLine line : Line} : Infers table left first → Infers table right second →
      (TokenKind.ofSpelling operator).isRelational = true → first.type.isArithmetic = true →
      second.type.isArithmetic = true →
      Infers table (.comparison left (.operation operator right operatorLine) line)
        (.binary operator first second ⟨operatorLine, .bool⟩)
  | single {level : Level} {first : Tree} {node : Node} {line : Line} :
      Infers table first node → Infers table (.chain level first [] line) node
  | joined {level : Level} {first right : Tree} {operations : List Tree} {left second : Node}
      {operator : String} {operatorLine line : Line} :
      Infers table (.chain level first operations line) left → Infers table right second →
      level.holds (TokenKind.ofSpelling operator) = true → level.accepts left.type = true →
      level.accepts second.type = true →
      Infers table (.chain level first (operations ++ [.operation operator right operatorLine])
        line) (.binary operator left second ⟨operatorLine, level.result left.type second.type⟩)

/-- Whether a tree may stand behind the body of a conditional. -/
def isTail : Tree → Bool
  | absent | elseIf .. | otherwise .. => true
  | _ => false

/-- What follows the body of a conditional is a tail. -/
theorem Derives.isTail {tree : Tree} (h : tree.Derives .elsePart) : tree.isTail = true := by
  cases h with
  | single hrow => rename_i level _; cases level <;> cases hrow
  | chain hrow => rename_i level _ _ _ _ _ _ _; cases level <;> cases hrow
  | _ => rfl

/-- A statement is no tail. -/
theorem Derives.isTail_statement {tree : Tree} (h : tree.Derives .statement) :
    tree.isTail = false := by
  cases h with
  | single hrow => rename_i level _; cases level <;> cases hrow
  | chain hrow => rename_i level _ _ _ _ _ _ _; cases level <;> cases hrow
  | _ => rfl

/-- The nodes that a statement, the statements of a body or the tail of a conditional leave, and
the table after them. A declaration without a value leaves no node. -/
inductive Checks : Table → Tree → List Node → Table → Prop where
  | assignment {table after : Table} {name : String} {entry : Entry} {value : Tree} {node : Node}
      {line : Line} : table.find? name = some entry → entry.assignable = true →
      Infers table value node → table.resolve name node.type = .ok after →
      Checks table (.assignment name value line) [.assignment name node false ⟨line, .void⟩] after
  | letFixed {table after : Table} {name : String} {value : Tree} {node : Node} {line : Line} :
      Infers table value node → table.declare name node.type false = .ok after →
      Checks table (.letFixed name value line) [.assignment name node true ⟨line, .void⟩] after
  | letUnset {table after : Table} {name : String} {line : Line} :
      table.declare name .unknown true = .ok after →
      Checks table (.letMutable name .absent line) [] after
  | letMutable {table after : Table} {name : String} {value : Tree} {node : Node} {line : Line} :
      Infers table value node → table.declare name node.type true = .ok after →
      Checks table (.letMutable name value line) [.assignment name node true ⟨line, .void⟩] after
  | ifElse {table between after : Table} {condition tail : Tree} {statements : List Tree}
      {test : Node} {items parts : List Node} {bodyLine line : Line} :
      Infers table condition test → test.type = .bool →
      Checks table (.block statements bodyLine) items between → tail.isTail = true →
      Checks between tail parts after →
      Checks table (.ifElse condition (.block statements bodyLine) tail line)
        [.conditional (test :: .block items ⟨bodyLine, .void⟩ :: parts) ⟨line, .void⟩] after
  | loop {table after : Table} {condition : Tree} {statements : List Tree} {test : Node}
      {items : List Node} {bodyLine line : Line} :
      Infers table condition test → test.type = .bool →
      Checks table (.block statements bodyLine) items after →
      Checks table (.loop condition (.block statements bodyLine) line)
        [.loop test (.block items ⟨bodyLine, .void⟩) ⟨line, .void⟩] after
  | output {table : Table} {format : String} {arguments : List Tree} {nodes : List Node}
      {line : Line} : List.Forall₂ (Infers table) arguments nodes →
      Checks table (.output format arguments line)
        [.output (.format format ⟨line, .string⟩) nodes ⟨line, .void⟩] table
  | noElse {table : Table} : Checks table .absent [] table
  | elseIf {table between after : Table} {condition tail : Tree} {statements : List Tree}
      {test : Node} {items parts : List Node} {bodyLine line : Line} :
      Infers table condition test → test.type = .bool →
      Checks table (.block statements bodyLine) items between → tail.isTail = true →
      Checks between tail parts after →
      Checks table (.elseIf condition (.block statements bodyLine) tail line)
        (test :: .block items ⟨bodyLine, .void⟩ :: parts) after
  | otherwise {table after : Table} {statements : List Tree} {items : List Node}
      {bodyLine line : Line} : Checks table (.block statements bodyLine) items after →
      Checks table (.otherwise (.block statements bodyLine) line)
        [.block items ⟨bodyLine, .void⟩] after
  | nil {table : Table} {line : Line} : Checks table (.block [] line) [] table
  | cons {table between after : Table} {statement : Tree} {statements : List Tree}
      {nodes others : List Node} {line : Line} : statement.isTail = false →
      Checks table statement nodes between →
      Checks between (.block statements line) others after →
      Checks table (.block (statement :: statements) line) (nodes ++ others) after

/-- The checker keeps every name. -/
theorem Checks.grows {table after : Table} {tree : Tree} {nodes : List Node}
    (h : tree.Checks table nodes after) : table.Grows after := by
  induction h with
  | assignment _ _ _ hresolve => exact Table.grows_of_resolve hresolve
  | letFixed _ hdeclare | letUnset hdeclare | letMutable _ hdeclare =>
    exact Table.grows_of_declare hdeclare
  | ifElse _ _ _ _ _ ihBody ihTail | elseIf _ _ _ _ _ ihBody ihTail => exact ihBody.trans ihTail
  | loop _ _ _ ih | otherwise _ ih => exact ih
  | output | noElse | nil => exact .refl _
  | cons _ _ _ ihStatement ihStatements => exact ihStatement.trans ihStatements

/-- An expression leaves a node. -/
theorem Infers.isAbsent {table : Table} {tree : Tree} {node : Node} (h : Infers table tree node) :
    node.isAbsent = false := by
  induction h with
  | group _ ih | single _ ih => exact ih
  | _ => rfl

/-- What holds of the node of every argument holds of all their nodes. -/
theorem Infers.forall_nodes {table : Table} {trees : List Tree} {nodes : List Node}
    {holds : Node → Prop} (h : List.Forall₂ (Infers table) trees nodes)
    (hholds : ∀ tree ∈ trees, ∀ node, Infers table tree node → holds node) :
    ∀ node ∈ nodes, holds node := by
  induction h with
  | nil => nofun
  | cons hfirst _ ih =>
    obtain ⟨hholdsFirst, hholdsOthers⟩ := List.forall_mem_cons.1 hholds
    exact List.forall_mem_cons.2 ⟨hholdsFirst _ hfirst, ih hholdsOthers⟩

end Tree

/-! ## How a check ends -/

/-- The error is a fault of the program, or the budget is used up. -/
def CheckError.IsForeseen (error : CheckError) : Prop :=
  error = .tooDeep ∨ ∃ reason line, error.report = .semantic reason line

namespace Check

variable {Value Other : Type} {state : CheckState}

/-- The check has a value and a state as wanted, or fails in a foreseen way. -/
abbrev Ends (run : Check Value) (state : CheckState) (wanted : Value → CheckState → Prop) : Prop :=
  EndsOr CheckError.IsForeseen run state wanted

/-! ## The parts of a check -/

/-- The type of a node that is there. -/
theorem typeOf_ends {node : Node} (h : node.isAbsent = false) :
    Ends (typeOf node) state fun type after => type = node.type ∧ after = state := by
  rw [typeOf, h]
  exact .pure ⟨rfl, rfl⟩

/-- A truth value. -/
theorem requireBool_ends {node : Node} (h : node.isAbsent = false) (operator : String)
    (line : Line) : Ends (requireBool node operator line) state
      fun _ after => node.type = .bool ∧ after = state := by
  refine (typeOf_ends h).bind ?_
  intro _ _ hresult
  obtain ⟨rfl, rfl⟩ := hresult
  split
  · next hbool => exact .pure ⟨hbool, rfl⟩
  · exact .throw (.inr ⟨_, _, rfl⟩)

/-- A number. -/
theorem requireArithmetic_ends {node : Node} (h : node.isAbsent = false) (operator : String)
    (line : Line) : Ends (requireArithmetic node operator line) state
      fun _ after => node.type.isArithmetic = true ∧ after = state := by
  refine (typeOf_ends h).bind ?_
  intro _ _ hresult
  obtain ⟨rfl, rfl⟩ := hresult
  split
  · next harithmetic => exact .pure ⟨harithmetic, rfl⟩
  · exact .throw (.inr ⟨_, _, rfl⟩)

/-- A condition. -/
theorem requireCondition_ends {node : Node} (h : node.isAbsent = false) (statement : String)
    (line : Line) : Ends (requireCondition node statement line) state
      fun _ after => node.type = .bool ∧ after = state := by
  refine (typeOf_ends h).bind ?_
  intro _ _ hresult
  obtain ⟨rfl, rfl⟩ := hresult
  split
  · next hbool => exact .pure ⟨hbool, rfl⟩
  · exact .throw (.inr ⟨_, _, rfl⟩)

/-- An operation of a level on two operands. -/
theorem operation_ends (level : Level) (operator : String) {left right : Node}
    (hleft : left.isAbsent = false) (hright : right.isAbsent = false) (line : Line) :
    Ends (operation level operator left right line) state fun node after =>
      node = .binary operator left right ⟨line, level.result left.type right.type⟩ ∧
        level.accepts left.type = true ∧ level.accepts right.type = true ∧ after = state := by
  cases level with
  | or | and =>
    refine (requireBool_ends hleft operator line).bind ?_
    intro _ _ hresult
    obtain ⟨hl, rfl⟩ := hresult
    refine (requireBool_ends hright operator line).bind ?_
    intro _ _ hresult
    obtain ⟨hr, rfl⟩ := hresult
    exact .pure ⟨rfl, decide_eq_true hl, decide_eq_true hr, rfl⟩
  | sum | product =>
    refine (requireArithmetic_ends hleft operator line).bind ?_
    intro _ _ hresult
    obtain ⟨hl, rfl⟩ := hresult
    refine (requireArithmetic_ends hright operator line).bind ?_
    intro _ _ hresult
    obtain ⟨hr, rfl⟩ := hresult
    exact .pure ⟨rfl, hl, hr, rfl⟩

/-- A comparison of two operands. -/
theorem relational_ends (operator : String) {left right : Node} (hleft : left.isAbsent = false)
    (hright : right.isAbsent = false) (line : Line) :
    Ends (relational operator left right line) state fun node after =>
      node = .binary operator left right ⟨line, .bool⟩ ∧ left.type.isArithmetic = true ∧
        right.type.isArithmetic = true ∧ after = state := by
  refine (requireArithmetic_ends hleft operator line).bind ?_
  intro _ _ hresult
  obtain ⟨hl, rfl⟩ := hresult
  refine (requireArithmetic_ends hright operator line).bind ?_
  intro _ _ hresult
  obtain ⟨hr, rfl⟩ := hresult
  exact .pure ⟨rfl, hl, hr, rfl⟩

/-- The entry of a name. -/
theorem entry_ends (name : String) (line : Line) :
    Ends (entry name line) state fun entry after =>
      state.table.find? name = some entry ∧ after = state := by
  refine EndsOr.get ?_
  cases hlookup : state.table.lookup name with
  | ok entry => exact .pure ⟨Table.lookup_ok.1 hlookup, rfl⟩
  | error error =>
    cases Table.lookup_error hlookup
    exact .throw (.inr ⟨_, _, rfl⟩)

/-- A name in an expression. -/
theorem reference_ends (name : String) (line : Line) :
    Ends (reference name line) state fun node after =>
      after = state ∧ Tree.Infers state.table (.var name line) node := by
  refine (entry_ends name line).bind ?_
  intro entry _ hresult
  obtain ⟨hfind, rfl⟩ := hresult
  split
  · exact .throw (.inr ⟨_, _, rfl⟩)
  · next hknown => exact .pure ⟨rfl, .var hfind hknown⟩

/-- A literal of a kind that has literals. -/
theorem literal_ends {kind : TokenKind} (h : kind.isLiteral = true) (lexeme : String)
    (line : Line) : Ends (literal kind lexeme line) state fun node after =>
      after = state ∧ Tree.Infers state.table (.literal kind lexeme line) node := by
  cases kind with
  | stringLit => exact .throw (.inr ⟨_, _, rfl⟩)
  | intLit | floatLit | boolLit | charLit => exact .pure ⟨rfl, .literal rfl (by simp)⟩
  | _ => cases h

/-- A change of the table, which fails only for faults of the program. -/
theorem updateTable_ends {line : Line} {change : Table → Except TableError Table}
    (h : ∀ error, change state.table = .error error →
      ∃ reason, error.report line = .semantic reason line) :
    Ends (updateTable line change) state fun _ after =>
      change state.table = .ok after.table ∧ after.depth = state.depth := by
  refine EndsOr.get ?_
  cases hchange : change state.table with
  | ok table => exact .inl ⟨_, _, rfl, rfl, rfl⟩
  | error error =>
    obtain ⟨reason, hreason⟩ := h error hchange
    exact .throw (.inr ⟨reason, line, hreason⟩)

/-- A declaration of a name with a type. -/
theorem declare_ends (name : String) (type : DataType) (assignable : Bool) (line : Line) :
    Ends (updateTable line fun table => table.declare name type assignable) state fun _ after =>
      state.table.declare name type assignable = .ok after.table ∧ after.depth = state.depth := by
  refine updateTable_ends fun error herror => ?_
  rw [(Table.declare_error herror).1]
  exact ⟨_, rfl⟩

/-- A declaration with a value. -/
theorem declaration_ends (name : String) {node : Node} (h : node.isAbsent = false)
    (assignable : Bool) (line : Line) :
    Ends (declaration name node assignable line) state fun result after =>
      result = .assignment name node true ⟨line, .void⟩ ∧
        state.table.declare name node.type assignable = .ok after.table ∧
        after.depth = state.depth := by
  refine (typeOf_ends h).bind ?_
  intro _ _ hresult
  obtain ⟨rfl, rfl⟩ := hresult
  refine (declare_ends name node.type assignable line).bind ?_
  intro _ after hresult
  obtain ⟨hdeclare, hdepth⟩ := hresult
  exact .pure ⟨rfl, hdeclare, hdepth⟩

/-- A name that may be assigned to. -/
theorem requireAssignable_ends (name : String) (line : Line) :
    Ends (requireAssignable name line) state fun _ after =>
      (∃ entry, state.table.find? name = some entry ∧ entry.assignable = true) ∧
        after = state := by
  refine (entry_ends name line).bind ?_
  intro entry _ hresult
  obtain ⟨hfind, rfl⟩ := hresult
  split
  · next hassignable => exact .pure ⟨⟨entry, hfind, hassignable⟩, rfl⟩
  · exact .throw (.inr ⟨_, _, rfl⟩)

/-- An assignment of a value. -/
theorem assignment_ends (name : String) {node : Node} (h : node.isAbsent = false)
    (line : Line) : Ends (assignment name node line) state fun result after =>
      result = .assignment name node false ⟨line, .void⟩ ∧
        state.table.resolve name node.type = .ok after.table ∧ after.depth = state.depth := by
  refine (typeOf_ends h).bind ?_
  intro _ _ hresult
  obtain ⟨rfl, rfl⟩ := hresult
  refine EndsOr.bind (updateTable_ends fun error herror => ?_) ?_
  · rcases Table.resolve_error herror with rfl | ⟨held, rfl⟩ <;> exact ⟨_, rfl⟩
  · intro _ after hresult
    obtain ⟨hresolve, hdepth⟩ := hresult
    exact .pure ⟨rfl, hresolve, hdepth⟩

/-- Statements one block deeper. -/
theorem deeper_ends {foreseen : CheckError → Prop} {inner : Check Value}
    {wanted : Value → CheckState → Prop}
    (h : EndsOr foreseen inner { state with depth := state.depth + 1 } wanted) :
    EndsOr foreseen (deeper inner) state fun value after =>
      ∃ last, wanted value last ∧ after = { last with depth := state.depth } := by
  rcases h with ⟨value, last, hrun, hwanted⟩ | ⟨error, last, hrun, herror⟩
  · exact .inl ⟨value, { last with depth := state.depth }, by simp only [deeper, hrun],
      last, hwanted, rfl⟩
  · exact .inr ⟨error, { last with depth := state.depth }, by simp only [deeper, hrun], herror⟩

/-- A checked statement in front of others. -/
theorem consStatement_eq (node : Node) (others : List Node) :
    consStatement node others = consStatement node [] ++ others := by
  unfold consStatement
  split <;> rfl

end Check

/-! ## The checker follows the rules -/

open Check

/-- What checking a derivation of a phrase comes to. Programs and blocks are checked as their
statements, which happens inside of a block. -/
def Phrase.IsChecked : Phrase → Tree → Prop
  | program, tree | block, tree => ∃ statements line, tree = .block statements line ∧
      ∀ (budget : Nat) (state : CheckState), state.depth ≠ 0 →
        Ends (Tree.checkStatements statements budget) state fun items after =>
          after.depth = state.depth ∧ tree.Checks state.table items after.table
  | statement, tree => ∀ (budget : Nat) (state : CheckState), state.depth ≠ 0 →
      Ends (tree.check budget) state fun node after =>
        after.depth = state.depth ∧ tree.Checks state.table (consStatement node []) after.table
  | elsePart, tree => ∀ (budget : Nat) (state : CheckState), state.depth ≠ 0 →
      Ends (tree.checkTail budget) state fun parts after =>
        after.depth = state.depth ∧ tree.Checks state.table parts after.table
  | relation, tree | conjunction, tree | negatable, tree | sum, tree | product, tree
  | factor, tree => ∀ (budget : Nat) (state : CheckState),
      Ends (tree.check budget) state fun node after =>
        after = state ∧ tree.Infers state.table node

namespace Tree

variable {state : CheckState}

/-- Without a budget nothing is checked. -/
theorem check_zero_ends (tree : Tree) {wanted : Node → CheckState → Prop} :
    Ends (tree.check 0) state wanted := by
  cases tree <;> exact .throw (.inl rfl)

/-- The statements of a body. -/
theorem body_ends {body : Tree} (h : Phrase.block.IsChecked body) :
    ∃ statements line, body = .block statements line ∧
      ∀ (budget : Nat) (state : CheckState), state.depth ≠ 0 →
        Ends (body.check budget) state fun node after => after.depth = state.depth ∧
          ∃ items, node = .block items ⟨line, .void⟩ ∧
            body.Checks state.table items after.table := by
  obtain ⟨statements, line, rfl, h⟩ := h
  refine ⟨statements, line, rfl, fun budget state hdepth => ?_⟩
  cases budget with
  | zero => exact check_zero_ends _
  | succ budget =>
    rw [check]
    refine EndsOr.get ?_
    refine (deeper_ends (h budget _ (Nat.succ_ne_zero _))).bind ?_
    rintro items _ ⟨last, ⟨-, hitems⟩, rfl⟩
    refine .pure ⟨rfl, items, ?_, hitems⟩
    rw [blockNode, if_neg hdepth]

/-- The operations of a chain, joined to what stands left of them. -/
theorem checkOperations_ends {level : Level} {first : Tree} {line : Line} (budget : Nat)
    {operations : List Tree} (hholds : ∀ operation ∈ operations, operation.IsOperation level.holds)
    (hoperands : ∀ operation ∈ operations, ∀ budget state,
      Ends (operation.operand.check budget) state fun node after =>
        after = state ∧ operation.operand.Infers state.table node) :
    ∀ {before : List Tree} {left : Node} {state : CheckState},
      (chain level first before line).Infers state.table left →
      Ends (checkOperations level left operations budget) state fun node after =>
        after = state ∧
          (chain level first (before ++ operations) line).Infers state.table node := by
  induction operations with
  | nil =>
    intro before left state hleft
    rw [List.append_nil]
    exact .pure ⟨rfl, hleft⟩
  | cons operation operations ih =>
    intro before left state hleft
    obtain ⟨operator, right, operatorLine, rfl, hoperator⟩ := (hholds operation (.head _)).eq
    refine (hoperands _ (.head _) budget state).bind ?_
    intro second _ hresult
    obtain ⟨rfl, hright⟩ := hresult
    refine (operation_ends level operator hleft.isAbsent hright.isAbsent operatorLine).bind ?_
    intro _ _ hresult
    obtain ⟨rfl, hl, hr, rfl⟩ := hresult
    rw [List.append_cons]
    exact ih (fun other hother => hholds other (.tail _ hother))
      (fun other hother => hoperands other (.tail _ hother))
      (.joined hleft hright hoperator hl hr)

/-- The arguments of a print. -/
theorem checkAll_ends {arguments : List Tree} (h : ∀ argument ∈ arguments, ∀ budget state,
    Ends (argument.check budget) state fun node after =>
      after = state ∧ argument.Infers state.table node) (budget : Nat) (state : CheckState) :
    Ends (checkAll arguments budget) state fun nodes after =>
      after = state ∧ List.Forall₂ (Infers state.table) arguments nodes := by
  induction arguments with
  | nil => exact .pure ⟨rfl, .nil⟩
  | cons argument arguments ih =>
    refine (h argument (.head _) budget state).bind ?_
    intro node _ hresult
    obtain ⟨rfl, hnode⟩ := hresult
    refine (ih fun other hother => h other (.tail _ hother)).bind ?_
    intro nodes _ hresult
    obtain ⟨rfl, hnodes⟩ := hresult
    exact .pure ⟨rfl, .cons hnode hnodes⟩

/-- The statements of a program or a body. -/
theorem checkStatements_ends {statements : List Tree} (line : Line)
    (hderives : ∀ statement ∈ statements, statement.Derives .statement)
    (h : ∀ statement ∈ statements, Phrase.statement.IsChecked statement) (budget : Nat)
    (state : CheckState) (hdepth : state.depth ≠ 0) :
    Ends (checkStatements statements budget) state fun items after =>
      after.depth = state.depth ∧ (block statements line).Checks state.table items after.table := by
  induction statements generalizing state with
  | nil => exact .pure ⟨rfl, .nil⟩
  | cons statement statements ih =>
    refine (h statement (.head _) budget state hdepth).bind ?_
    intro node between hresult
    obtain ⟨hdepth₁, hnode⟩ := hresult
    have hcount : Ends countStatement between fun _ after =>
        after.depth = between.depth ∧ after.table = between.table := .inl ⟨_, _, rfl, rfl, rfl⟩
    refine hcount.bind ?_
    intro _ counted hresult
    obtain ⟨hdepth₂, htable⟩ := hresult
    have hothers := ih (fun other hother => hderives other (.tail _ hother))
      (fun other hother => h other (.tail _ hother)) counted
      (by rwa [hdepth₂, hdepth₁])
    refine hothers.bind ?_
    intro others after hresult
    obtain ⟨hdepth₃, hothers⟩ := hresult
    refine .pure ⟨by rw [hdepth₃, hdepth₂, hdepth₁], ?_⟩
    rw [consStatement_eq]
    exact .cons (hderives statement (.head _)).isTail_statement hnode (htable ▸ hothers)

/-- A condition, its body and what follows it. -/
theorem link_ends {condition body tail : Tree} (hcondition : Phrase.relation.IsChecked condition)
    (hbody : Phrase.block.IsChecked body) (htail : Phrase.elsePart.IsChecked tail) :
    ∃ statements bodyLine, body = .block statements bodyLine ∧
      ∀ (budget : Nat) (state : CheckState) (line : Line), state.depth ≠ 0 →
        ∀ {Value : Type} {next : Node → Node → List Node → Check Value}
          {wanted : Value → CheckState → Prop},
          (∀ test items parts between after, condition.Infers state.table test →
            test.type = .bool → body.Checks state.table items between →
            tail.Checks between parts after.table → after.depth = state.depth →
            Ends (next test (.block items ⟨bodyLine, .void⟩) parts) after wanted) →
          Ends (do
            let test ← condition.check budget
            requireCondition test "if" line
            let body ← body.check budget
            let rest ← tail.checkTail budget
            next test body rest) state wanted := by
  obtain ⟨statements, bodyLine, rfl, hbody⟩ := body_ends hbody
  refine ⟨statements, bodyLine, rfl, fun budget state line hdepth Value next wanted hnext => ?_⟩
  refine (hcondition budget state).bind ?_
  intro test _ hresult
  obtain ⟨rfl, htest⟩ := hresult
  refine (requireCondition_ends htest.isAbsent "if" line).bind ?_
  intro _ _ hresult
  obtain ⟨hbool, rfl⟩ := hresult
  refine (hbody budget _ hdepth).bind ?_
  intro _ between hresult
  obtain ⟨hdepth₁, items, rfl, hitems⟩ := hresult
  refine (htail budget between (by rwa [hdepth₁])).bind ?_
  intro parts after hresult
  obtain ⟨hdepth₂, hparts⟩ := hresult
  exact hnext test items parts between.table after htest hbool hitems hparts
    (by rw [hdepth₂, hdepth₁])

/-- The checker follows the rules on every derivation. -/
theorem Derives.isChecked {phrase : Phrase} {tree : Tree} (h : tree.Derives phrase) :
    phrase.IsChecked tree := by
  induction h with
  | @program statements line hstatements ih =>
    exact ⟨statements, line, rfl, fun budget state hdepth =>
      checkStatements_ends line hstatements ih budget state hdepth⟩
  | block _ ih => exact ih
  | @assignment name value line _ ih =>
    intro budget state hdepth
    cases budget with
    | zero => exact check_zero_ends _
    | succ budget =>
      rw [check]
      refine (requireAssignable_ends name line).bind ?_
      intro _ _ hresult
      obtain ⟨⟨entry, hfind, hassignable⟩, rfl⟩ := hresult
      refine (ih budget _).bind ?_
      intro node _ hresult
      obtain ⟨rfl, hnode⟩ := hresult
      refine (assignment_ends name hnode.isAbsent line).mono ?_
      intro _ after hresult
      obtain ⟨rfl, hresolve, hdepth'⟩ := hresult
      exact ⟨hdepth', .assignment hfind hassignable hnode hresolve⟩
  | @letFixed name value line _ ih =>
    intro budget state hdepth
    cases budget with
    | zero => exact check_zero_ends _
    | succ budget =>
      rw [check]
      refine (ih budget _).bind ?_
      intro node _ hresult
      obtain ⟨rfl, hnode⟩ := hresult
      refine (declaration_ends name hnode.isAbsent false line).mono ?_
      intro _ after hresult
      obtain ⟨rfl, hdeclare, hdepth'⟩ := hresult
      exact ⟨hdepth', .letFixed hnode hdeclare⟩
  | @letUnset name line =>
    intro budget state hdepth
    cases budget with
    | zero => exact check_zero_ends _
    | succ budget =>
      rw [check]
      refine (declare_ends name .unknown true line).bind ?_
      intro _ after hresult
      obtain ⟨hdeclare, hdepth'⟩ := hresult
      exact .pure ⟨hdepth', .letUnset hdeclare⟩
  | @letMutable name value line hvalue ih =>
    intro budget state hdepth
    cases budget with
    | zero => exact check_zero_ends _
    | succ budget =>
      rw [check]
      · refine (ih budget _).bind ?_
        intro node _ hresult
        obtain ⟨rfl, hnode⟩ := hresult
        refine (declaration_ends name hnode.isAbsent true line).mono ?_
        intro _ after hresult
        obtain ⟨rfl, hdeclare, hdepth'⟩ := hresult
        exact ⟨hdepth', .letMutable hnode hdeclare⟩
      · exact hvalue.ne_absent (by simp)
  | @ifElse condition body tail line _ _ htail ihCondition ihBody ihTail =>
    obtain ⟨statements, bodyLine, rfl, hlink⟩ := link_ends ihCondition ihBody ihTail
    intro budget state hdepth
    cases budget with
    | zero => exact check_zero_ends _
    | succ budget =>
      rw [check]
      refine hlink budget state line hdepth ?_
      intro test items parts between after htest hbool hitems hparts hdepth'
      exact .pure ⟨hdepth', .ifElse htest hbool hitems htail.isTail hparts⟩
  | @elseIf condition body tail line _ _ htail ihCondition ihBody ihTail =>
    obtain ⟨statements, bodyLine, rfl, hlink⟩ := link_ends ihCondition ihBody ihTail
    intro budget state hdepth
    rw [checkTail]
    refine hlink budget state line hdepth ?_
    intro test items parts between after htest hbool hitems hparts hdepth'
    exact .pure ⟨hdepth', .elseIf htest hbool hitems htail.isTail hparts⟩
  | @otherwise body line _ ih =>
    obtain ⟨statements, bodyLine, rfl, hbody⟩ := body_ends ih
    intro budget state hdepth
    rw [checkTail]
    refine (hbody budget state hdepth).bind ?_
    intro _ after hresult
    obtain ⟨hdepth', items, rfl, hitems⟩ := hresult
    exact .pure ⟨hdepth', .otherwise hitems⟩
  | noElse => exact fun budget state hdepth => .pure ⟨rfl, .noElse⟩
  | @loop condition body line _ _ ihCondition ihBody =>
    obtain ⟨statements, bodyLine, rfl, hbody⟩ := body_ends ihBody
    intro budget state hdepth
    cases budget with
    | zero => exact check_zero_ends _
    | succ budget =>
      rw [check]
      refine (ihCondition budget state).bind ?_
      intro test _ hresult
      obtain ⟨rfl, htest⟩ := hresult
      refine (requireCondition_ends htest.isAbsent "while" line).bind ?_
      intro _ _ hresult
      obtain ⟨hbool, rfl⟩ := hresult
      refine (hbody budget _ hdepth).bind ?_
      intro _ after hresult
      obtain ⟨hdepth', items, rfl, hitems⟩ := hresult
      exact .pure ⟨hdepth', .loop htest hbool hitems⟩
  | @output format arguments line _ ih =>
    intro budget state hdepth
    cases budget with
    | zero => exact check_zero_ends _
    | succ budget =>
      rw [check]
      refine (checkAll_ends ih budget state).bind ?_
      intro nodes _ hresult
      obtain ⟨rfl, hnodes⟩ := hresult
      exact .pure ⟨rfl, .output hnodes⟩
  | @single _ level tree hrow _ ih =>
    subst hrow
    cases level <;> exact ih
  | @chain _ level first operations line hrow _ _ hholds _ ihFirst ihOperands =>
    have hexpression {tree : Tree} (ih : level.part.IsChecked tree) : ∀ budget state,
        Ends (tree.check budget) state fun node after =>
          after = state ∧ tree.Infers state.table node := by
      cases level <;> exact ih
    suffices h : ∀ budget state, Ends ((Tree.chain level first operations line).check budget) state
        fun node after =>
          after = state ∧ (Tree.chain level first operations line).Infers state.table node by
      subst hrow
      cases level <;> exact h
    intro budget state
    cases budget with
    | zero => exact check_zero_ends _
    | succ budget =>
      rw [check]
      refine (hexpression ihFirst budget state).bind ?_
      intro node _ hresult
      obtain ⟨rfl, hnode⟩ := hresult
      exact checkOperations_ends budget hholds
        (fun operation hmem => hexpression (ihOperands operation hmem)) (.single hnode)
  | plain _ ih => exact ih
  | @comparison left operation line _ hoperation _ ihLeft ihRight =>
    obtain ⟨operator, right, operatorLine, rfl, hoperator⟩ := hoperation.eq
    intro budget state
    cases budget with
    | zero => exact check_zero_ends _
    | succ budget =>
      rw [check]
      refine (ihLeft budget state).bind ?_
      intro first _ hresult
      obtain ⟨rfl, hleft⟩ := hresult
      refine (ihRight budget _).bind ?_
      intro second _ hresult
      obtain ⟨rfl, hright⟩ := hresult
      refine (relational_ends operator hleft.isAbsent hright.isAbsent operatorLine).mono ?_
      intro _ _ hresult
      obtain ⟨rfl, hl, hr, rfl⟩ := hresult
      exact ⟨rfl, .comparison hleft hright hoperator hl hr⟩
  | @negation operand line _ ih =>
    intro budget state
    cases budget with
    | zero => exact check_zero_ends _
    | succ budget =>
      rw [check]
      refine (ih budget state).bind ?_
      intro node _ hresult
      obtain ⟨rfl, hnode⟩ := hresult
      refine (requireBool_ends hnode.isAbsent "!" line).bind ?_
      intro _ _ hresult
      obtain ⟨hbool, rfl⟩ := hresult
      exact .pure ⟨rfl, .negation hnode hbool⟩
  | @var name line =>
    intro budget state
    cases budget with
    | zero => exact check_zero_ends _
    | succ budget => exact reference_ends name line
  | @literal kind lexeme line hliteral =>
    intro budget state
    cases budget with
    | zero => exact check_zero_ends _
    | succ budget => exact literal_ends hliteral lexeme line
  | @input line =>
    intro budget state
    cases budget with
    | zero => exact check_zero_ends _
    | succ budget => exact .pure ⟨rfl, .input⟩
  | @group inner line _ ih =>
    intro budget state
    cases budget with
    | zero => exact check_zero_ends _
    | succ budget =>
      rw [check]
      refine (ih budget state).mono ?_
      intro node after hresult
      obtain ⟨hafter, hnode⟩ := hresult
      exact ⟨hafter, .group hnode⟩
  | @minus operand line _ ih =>
    intro budget state
    cases budget with
    | zero => exact check_zero_ends _
    | succ budget =>
      rw [check]
      refine (ih budget state).bind ?_
      intro node _ hresult
      obtain ⟨rfl, hnode⟩ := hresult
      refine (requireArithmetic_ends hnode.isAbsent "-" line).bind ?_
      intro _ _ hresult
      obtain ⟨harithmetic, rfl⟩ := hresult
      exact .pure ⟨rfl, .minus hnode harithmetic⟩

/-- A whole program is checked by the rules. -/
theorem Derives.checkProgram_ends {tree : Tree} (h : tree.Derives .program) (budget : Nat)
    (table : Table) :
    ∃ statements line, tree = .block statements line ∧
      Ends (tree.checkProgram budget) { table } fun root after =>
        ∃ items, root = .program items ⟨line, .void⟩ ∧ tree.Checks table items after.table := by
  obtain ⟨statements, line, rfl, hstatements⟩ := h.isChecked
  refine ⟨statements, line, rfl, ?_⟩
  cases budget with
  | zero => exact check_zero_ends _
  | succ budget =>
    rw [checkProgram, check]
    refine EndsOr.get ?_
    refine (deeper_ends (hstatements budget _ (Nat.succ_ne_zero _))).bind ?_
    rintro items _ ⟨last, ⟨-, hitems⟩, rfl⟩
    exact .pure ⟨items, rfl, hitems⟩

end Tree

end ThreeAddress
