import ThreeAddress.Proofs.Check.Determinism
import ThreeAddress.Proofs.Check.Invariants

/-!
# What a failed check leaves behind

A check is a row of steps: the tests of conditions and the statements without bodies, in the order
of the text, and between them the ends of statements (`Tree.steps`). A step is done by the rules of
the checker and makes at most one change to the table (`Tree.Step.Does`). A check that fails has
done the steps in front of one that the rules refuse, with nothing of this one
(`Tree.checkProgram_stops`).
-/

namespace ThreeAddress

open Sequence Check

/-- A change of the table that a statement makes. -/
inductive Change where
  | declare (name : String) (type : DataType) (assignable : Bool)
  | resolve (name : String) (type : DataType)
  deriving DecidableEq, Repr

/-- The table after a change. -/
def Change.apply (table : Table) : Change → Except TableError Table
  | declare name type assignable => table.declare name type assignable
  | resolve name type => table.resolve name type

/-! ## Steps -/

namespace Tree

/-- What a check comes to one after the other. -/
inductive Step where
  /-- The condition of a conditional or a loop. -/
  | test (condition : Tree)
  /-- A statement without bodies. -/
  | act (statement : Tree)
  /-- The end of a statement. -/
  | finish

mutual
/-- The steps of a check, in the order of the text. -/
def steps : Tree → List Step
  | absent => []
  | block statements _ => stepsAll statements
  | ifElse condition body tail _ | elseIf condition body tail _ =>
    .test condition :: (steps body ++ steps tail)
  | otherwise body _ => steps body
  | loop condition body _ => .test condition :: steps body
  | statement => [.act statement]

/-- The steps of statements, each with its end. -/
def stepsAll : List Tree → List Step
  | [] => []
  | statement :: statements => steps statement ++ .finish :: stepsAll statements
end

namespace Step

/-- Whether a step is the end of a statement. -/
def isFinish : Step → Bool
  | finish => true
  | test _ | act _ => false

/-- What a step changes in a table where the rules allow it. -/
inductive Does (table : Table) : Step → List Change → Table → Prop where
  | test {condition : Tree} {node : Node} : condition.Infers table node → node.type = .bool →
      Does table (.test condition) [] table
  | assignment {after : Table} {name : String} {entry : Entry} {value : Tree} {node : Node}
      {line : Line} : table.find? name = some entry → entry.assignable = true →
      value.Infers table node → table.resolve name node.type = .ok after →
      Does table (.act (.assignment name value line)) [.resolve name node.type] after
  | letFixed {after : Table} {name : String} {value : Tree} {node : Node} {line : Line} :
      value.Infers table node → table.declare name node.type false = .ok after →
      Does table (.act (.letFixed name value line)) [.declare name node.type false] after
  | letUnset {after : Table} {name : String} {line : Line} :
      table.declare name .unknown true = .ok after →
      Does table (.act (.letMutable name .absent line)) [.declare name .unknown true] after
  | letMutable {after : Table} {name : String} {value : Tree} {node : Node} {line : Line} :
      value.Infers table node → table.declare name node.type true = .ok after →
      Does table (.act (.letMutable name value line)) [.declare name node.type true] after
  | output {format : String} {arguments : List Tree} {nodes : List Node} {line : Line} :
      List.Forall₂ (Infers table) arguments nodes →
      Does table (.act (.output format arguments line)) [] table
  | finish : Does table .finish [] table

/-- Steps done one after the other, with all that they change. -/
inductive DoAll : Table → List Step → List Change → Table → Prop where
  | nil {table : Table} : DoAll table [] [] table
  | cons {table between after : Table} {step : Step} {steps : List Step}
      {changes others : List Change} : step.Does table changes between →
      DoAll between steps others after → DoAll table (step :: steps) (changes ++ others) after

/-- The rules do not allow the step. -/
def IsRefused (table : Table) (step : Step) : Prop :=
  ∀ changes after, ¬ step.Does table changes after

variable {table between after : Table} {step : Step} {steps others : List Step}
  {changes more : List Change}

/-- The table of a step is the one that its change leads to. -/
theorem Does.apply (h : step.Does table changes after) :
    changes.foldlM Change.apply table = .ok after := by
  cases h with
  | test | output | finish => rfl
  | assignment _ _ _ hupdate | letFixed _ hupdate | letUnset hupdate | letMutable _ hupdate =>
    exact Sequence.except_bind_ok.2 ⟨after, hupdate, rfl⟩

namespace DoAll

/-- One step. -/
theorem single (h : step.Does table changes after) : DoAll table [step] changes after :=
  List.append_nil changes ▸ .cons h .nil

/-- Steps, and more steps behind them. -/
theorem append (h : DoAll table steps changes between) (h' : DoAll between others more after) :
    DoAll table (steps ++ others) (changes ++ more) after := by
  induction h with
  | nil => exact h'
  | cons hstep _ ih =>
    rw [List.append_assoc]
    exact .cons hstep (ih h')

/-- The table behind several steps is the one that their changes lead to, each of which
succeeds. -/
theorem apply (h : DoAll table steps changes after) :
    changes.foldlM Change.apply table = .ok after := by
  induction h with
  | nil => rfl
  | cons hstep _ ih =>
    rw [List.foldlM_append]
    exact Sequence.except_bind_ok.2 ⟨_, hstep.apply, ih⟩

end DoAll

/-- The steps lead from one state of the checker to another. -/
structure Lead (steps : List Step) (changes : List Change) (before after : CheckState) : Prop where
  doAll : DoAll before.table steps changes after.table
  depth : after.depth = before.depth
  checked : after.checked = before.checked + steps.countP isFinish

namespace Lead

variable {first second third : CheckState}

/-- No steps. -/
theorem nil (state : CheckState) : Lead [] [] state state := ⟨.nil, rfl, rfl⟩

/-- Steps, and more steps behind them. -/
theorem append (h : Lead steps changes first second) (h' : Lead others more second third) :
    Lead (steps ++ others) (changes ++ more) first third where
  doAll := h.doAll.append h'.doAll
  depth := h'.depth.trans h.depth
  checked := by rw [h'.checked, h.checked, List.countP_append, Nat.add_assoc]

end Lead

end Step

end Tree

/-! ## Checks as rows of steps -/

namespace Check

open ThreeAddress.Tree

/-- The check does the steps, or the budget is used up, or it does the steps in front of one that is
refused. -/
def Proceeds {Value : Type} (steps : List Step) (run : Check Value) (state : CheckState) : Prop :=
  (∃ value after changes, run state = .ok value after ∧ Step.Lead steps changes state after) ∨
    ∃ error after, run state = .error error after ∧ (error = .tooDeep ∨
      ∃ done failing rest changes, steps = done ++ failing :: rest ∧
        Step.Lead done changes state after ∧ failing.IsRefused after.table)

/-- The check does one step, or the budget is used up, or the step is refused. A failure leaves the
state alone. -/
def Settles {Value : Type} (step : Step) (run : Check Value) (state : CheckState) : Prop :=
  (∃ value table changes, run state = .ok value { state with table } ∧
      step.Does state.table changes table) ∨
    ∃ error, run state = .error error state ∧ (error = .tooDeep ∨ step.IsRefused state.table)

variable {Value Next : Type} {steps others : List Step} {step : Step} {run : Check Value}
  {state : CheckState} {node : Node}

namespace Proceeds

/-- A plain value. -/
theorem pure (value : Value) : Proceeds [] (Pure.pure value : Check Value) state :=
  .inl ⟨value, state, [], rfl, .nil state⟩

/-- A check does its steps if it does them with a budget. -/
theorem of_succ {tree : Tree}
    (h : ∀ budget state, Proceeds steps (tree.check (budget + 1)) state) (budget : Nat)
    (state : CheckState) : Proceeds steps (tree.check budget) state := by
  cases budget with
  | zero => exact tree.check_zero ▸ .inr ⟨_, state, rfl, .inl rfl⟩
  | succ budget => exact h budget state

/-- What is asked in front of the steps, and the steps. -/
theorem ok_bind {value : Value} {next : Value → Check Next} (hrun : run state = .ok value state)
    (h : Proceeds steps (next value) state) : Proceeds steps (run >>= next) state := by
  rw [Proceeds, bind_of_ok hrun]
  exact h

/-- Steps, and those that follow. -/
theorem bind {next : Value → Check Next} (h : Proceeds steps run state)
    (hnext : ∀ value after, Proceeds others (next value) after) :
    Proceeds (steps ++ others) (run >>= next) state := by
  rcases h with ⟨value, between, changes, hrun, hlead⟩ | ⟨error, after, hrun, hstop⟩
  · rcases hnext value between with ⟨result, after, more, hafter, hmore⟩ |
      ⟨error, after, hafter, rfl | ⟨done, failing, rest, more, rfl, hdone, hrefused⟩⟩
    · exact .inl ⟨result, after, _, bind_ok.2 ⟨value, between, hrun, hafter⟩, hlead.append hmore⟩
    · exact .inr ⟨_, after, bind_error.2 (.inr ⟨value, between, hrun, hafter⟩), .inl rfl⟩
    · refine .inr ⟨error, after, bind_error.2 (.inr ⟨value, between, hrun, hafter⟩), .inr ?_⟩
      exact ⟨steps ++ done, failing, rest, _, (List.append_assoc ..).symm, hlead.append hdone,
        hrefused⟩
  · refine .inr ⟨error, after, bind_error.2 (.inl hrun), hstop.imp id ?_⟩
    rintro ⟨done, failing, rest, changes, rfl, hdone, hrefused⟩
    exact ⟨done, failing, rest ++ others, changes, by rw [List.append_assoc, List.cons_append],
      hdone, hrefused⟩

/-- A function of the value. -/
theorem map (h : Proceeds steps run state) (image : Value → Next) :
    Proceeds steps (do let value ← run; return image value) state := by
  rw [← List.append_nil steps]
  exact h.bind fun value _ => pure (image value)

/-- One block deeper. -/
theorem deeper (h : ∀ state, Proceeds steps run state) (state : CheckState) :
    Proceeds steps (deeper run) state := by
  have hlead {done : List Step} {changes : List Change} {after : CheckState}
      (h : Step.Lead done changes { state with depth := state.depth + 1 } after) :
      Step.Lead done changes state { after with depth := state.depth } :=
    ⟨h.doAll, rfl, h.checked⟩
  rcases h { state with depth := state.depth + 1 } with ⟨value, after, changes, hrun, hafter⟩ |
    ⟨error, after, hrun, hstop⟩
  · exact .inl ⟨value, _, changes, by simp only [Check.deeper, hrun], hlead hafter⟩
  · refine .inr ⟨error, { after with depth := state.depth }, by simp only [Check.deeper, hrun],
      hstop.imp id ?_⟩
    rintro ⟨done, failing, rest, changes, hsteps, hdone, hrefused⟩
    exact ⟨done, failing, rest, changes, hsteps, hlead hdone, hrefused⟩

/-- The end of a statement. -/
theorem countStatement : Proceeds [.finish] countStatement state :=
  .inl ⟨(), _, [], rfl, .single .finish, rfl, rfl⟩

end Proceeds

namespace Settles

/-- One step that is not the end of a statement. -/
theorem proceeds (h : Settles step run state) (hstep : step.isFinish = false) :
    Proceeds [step] run state := by
  rcases h with ⟨value, table, changes, hrun, hdoes⟩ | ⟨error, hrun, hstop⟩
  · refine .inl ⟨value, _, changes, hrun, .single hdoes, rfl, ?_⟩
    rw [List.countP_singleton, hstep]
    rfl
  · exact .inr ⟨error, state, hrun, hstop.imp id fun hrefused =>
      ⟨[], step, [], [], rfl, .nil state, hrefused⟩⟩

/-- A step that is refused. -/
theorem refuse {error : CheckError} (hrun : run state = .error error state)
    (h : step.IsRefused state.table) : Settles step run state := .inr ⟨error, hrun, .inr h⟩

/-- What is asked in front of a step, and the step. -/
theorem ok_bind {value : Value} {next : Value → Check Next} (hrun : run state = .ok value state)
    (h : Settles step (next value) state) : Settles step (run >>= next) state := by
  rw [Settles, bind_of_ok hrun]
  exact h

end Settles

/-! ## Updates of the table -/

/-- A change of the table that is part of a step. -/
theorem updateTable_settles {change : Table → Except TableError Table} {changes : List Change}
    (line : Line) (value : Value)
    (hdoes : ∀ table, change state.table = .ok table → step.Does state.table changes table)
    (hneeds : ∀ changes table, step.Does state.table changes table →
      change state.table = .ok table) :
    Settles step (do updateTable line change; return value) state := by
  cases hchange : change state.table with
  | ok table =>
    exact .inl ⟨value, table, changes, bind_ok.2 ⟨(), _, updateTable_ok hchange, rfl⟩,
      hdoes table hchange⟩
  | error error =>
    refine .refuse (bind_error.2 (.inl (updateTable_error hchange))) fun changes table hstep => ?_
    cases hchange.symm.trans (hneeds changes table hstep)

end Check

/-! ## Expressions -/

/-- What it is that a derivation of a phrase is quiet: an expression leaves the state alone. -/
def Phrase.IsQuiet : Phrase → Tree → Prop
  | program, _ | block, _ | statement, _ | elsePart, _ => True
  | relation, tree | conjunction, tree | negatable, tree | sum, tree | product, tree
  | factor, tree => ∀ budget, Check.IsQuiet (tree.check budget)

namespace Tree

variable {state : CheckState} {step : Step} {budget : Nat} {value : Tree}

/-- The operations of a chain leave the state alone. -/
theorem checkOperations_quiet {level : Level} {operations : List Tree}
    (hholds : ∀ operation ∈ operations, operation.IsOperation level.holds)
    (hoperands : ∀ operation ∈ operations, Check.IsQuiet (operation.operand.check budget))
    (left : Node) : Check.IsQuiet (checkOperations level left operations budget) := by
  induction operations generalizing left with
  | nil => exact .pure left
  | cons operation operations ih =>
    obtain ⟨operator, right, line, rfl, -⟩ := (hholds _ (.head _)).eq
    obtain ⟨-, hholds⟩ := List.forall_mem_cons.1 hholds
    obtain ⟨hright, hoperands⟩ := List.forall_mem_cons.1 hoperands
    refine IsQuiet.bind hright fun second => ?_
    exact (IsQuiet.operation level operator left second line).bind fun joined =>
      ih hholds hoperands joined

/-- Checking an expression leaves the state alone. -/
theorem Derives.isQuiet {phrase : Phrase} {tree : Tree} (h : tree.Derives phrase) :
    phrase.IsQuiet tree := by
  induction h with
  | program | block | assignment | letFixed | letUnset | letMutable | ifElse | loop | output
  | noElse | elseIf | otherwise => trivial
  | @single _ level _ hrow _ ih =>
    subst hrow
    cases level <;> exact ih
  | @chain _ level first operations line hrow _ _ hholds _ ihFirst ihOperands =>
    have hpart {tree : Tree} (ih : level.part.IsQuiet tree) :
        ∀ budget, Check.IsQuiet (tree.check budget) := by
      cases level <;> exact ih
    suffices h : ∀ budget, Check.IsQuiet
        ((Tree.chain level first operations line).check budget) by
      subst hrow
      cases level <;> exact h
    exact .of_succ fun budget => (hpart ihFirst budget).bind fun left =>
      checkOperations_quiet hholds (fun operation hmem => hpart (ihOperands _ hmem) budget) left
  | plain _ ih => exact ih
  | @comparison left operation line _ hoperation _ ihLeft ihRight =>
    obtain ⟨operator, right, operatorLine, rfl, -⟩ := hoperation.eq
    exact .of_succ fun budget => (ihLeft budget).bind fun first => (ihRight budget).bind
      fun second => .relational operator first second operatorLine
  | @negation operand line _ ih =>
    exact .of_succ fun budget => (ih budget).bind fun node => .negation node line
  | @var name line => exact .of_succ fun _ => .reference name line
  | @literal kind lexeme line => exact .of_succ fun _ => .literal kind lexeme line
  | input => exact .of_succ fun _ => .pure _
  | group _ ih => exact .of_succ ih
  | @minus operand line _ ih =>
    exact .of_succ fun budget => (ih budget).bind fun node => .minus node line

/-- An expression has its node, or the budget is used up, or the rules give it none. It leaves the
state alone in any case. -/
theorem Derives.infers_or (h : value.Derives .relation) (budget : Nat) (state : CheckState) :
    (∃ node, value.check budget state = .ok node state ∧ value.Infers state.table node) ∨
      ∃ error, value.check budget state = .error error state ∧
        (error = .tooDeep ∨ ∀ node, ¬ value.Infers state.table node) := by
  have hchecked : Phrase.relation.IsChecked value := h.isChecked
  have haccepted : Phrase.relation.IsAccepted value := h.isAccepted
  have hquiet : Phrase.relation.IsQuiet value := h.isQuiet
  cases hrun : value.check budget state with
  | ok node after =>
    obtain ⟨rfl, hnode⟩ := (hchecked budget state).of_ok hrun
    exact .inl ⟨node, rfl, hnode⟩
  | error error after =>
    obtain rfl := (hquiet budget).of_error hrun
    refine .inr ⟨error, rfl, or_iff_not_imp_right.2 fun hinfers => ?_⟩
    push Not at hinfers
    obtain ⟨node, hnode⟩ := hinfers
    have hholds := state.table.holds_typeOf
    exact ((haccepted budget state _ _ hholds hnode.uses (hnode.hasType hholds)).of_error hrun).1

/-! ## Statements -/

/-- A step with a value, and what is done with its node. -/
theorem value_settles {next : Node → Check Node} (hvalue : value.Derives .relation)
    (hneeds : ∀ changes after, step.Does state.table changes after →
      ∃ node, value.Infers state.table node)
    (hnext : ∀ node, value.Infers state.table node → Settles step (next node) state)
    (budget : Nat) : Settles step (do let node ← value.check budget; next node) state := by
  rcases hvalue.infers_or budget state with ⟨node, hrun, hnode⟩ | ⟨error, hrun, hstop⟩
  · exact .ok_bind hrun (hnext node hnode)
  · refine .inr ⟨error, bind_error.2 (.inl hrun), hstop.imp id fun hnone changes after hdoes => ?_⟩
    obtain ⟨node, hnode⟩ := hneeds changes after hdoes
    exact hnone node hnode

/-- A declaration with a value. -/
theorem declared_settles {name : String} {assignable : Bool} {line : Line}
    (hvalue : value.Derives .relation)
    (hdoes : ∀ {node after}, value.Infers state.table node →
      state.table.declare name node.type assignable = .ok after →
      step.Does state.table [.declare name node.type assignable] after)
    (hneeds : ∀ changes after, step.Does state.table changes after → ∃ node,
      value.Infers state.table node ∧ state.table.declare name node.type assignable = .ok after)
    (budget : Nat) : Settles step (do
      let node ← value.check budget
      declaration name node assignable line) state := by
  refine value_settles hvalue (fun changes after hstep => ?_) (fun node hnode => ?_) budget
  · obtain ⟨node, hnode, -⟩ := hneeds changes after hstep
    exact ⟨node, hnode⟩
  · rw [declaration, typeOf, hnode.isAbsent, if_neg (by simp), pure_bind]
    refine updateTable_settles line _ (fun after => hdoes hnode) fun changes after hstep => ?_
    obtain ⟨node', hnode', hdeclare⟩ := hneeds changes after hstep
    exact hnode.det hnode' ▸ hdeclare

/-- An assignment. -/
theorem assignment_settles {name : String} {line : Line} (hvalue : value.Derives .relation)
    (budget : Nat) (state : CheckState) :
    Settles (.act (.assignment name value line)) (do
      Check.requireAssignable name line
      let node ← value.check budget
      Check.assignment name node line) state := by
  cases hasked : Check.requireAssignable name line state with
  | error error after =>
    obtain rfl := (IsQuiet.requireAssignable name line).of_error hasked
    refine .refuse (bind_error.2 (.inl hasked)) fun changes after hdoes => ?_
    cases hdoes with
    | assignment hfind hassignable =>
      cases hasked.symm.trans (requireAssignable_ok hfind hassignable line)
  | ok value' after =>
    obtain ⟨⟨entry, hfind, hassignable⟩, rfl⟩ := (requireAssignable_ends name line).of_ok hasked
    refine .ok_bind hasked (value_settles hvalue ?_ (fun node hnode => ?_) budget)
    · rintro changes after ⟨⟩
      exact ⟨_, ‹_›⟩
    · rw [Check.assignment, typeOf, hnode.isAbsent, if_neg (by simp), pure_bind]
      refine updateTable_settles line _ (fun after => .assignment hfind hassignable hnode) ?_
      intro changes after hdoes
      cases hdoes with
      | assignment _ _ hnode' hresolve => exact hnode.det hnode' ▸ hresolve

/-- Arguments have their nodes, or the budget is used up, or the rules give some argument none. -/
theorem infers_or_arguments {arguments : List Tree}
    (h : ∀ argument ∈ arguments, argument.Derives .relation) (budget : Nat) (state : CheckState) :
    (∃ nodes, checkAll arguments budget state = .ok nodes state ∧
        List.Forall₂ (Infers state.table) arguments nodes) ∨
      ∃ error, checkAll arguments budget state = .error error state ∧
        (error = .tooDeep ∨ ∀ nodes, ¬ List.Forall₂ (Infers state.table) arguments nodes) := by
  induction arguments with
  | nil => exact .inl ⟨[], rfl, .nil⟩
  | cons argument arguments ih =>
    obtain ⟨hfirst, hothers⟩ := List.forall_mem_cons.1 h
    rcases hfirst.infers_or budget state with ⟨node, hrun, hnode⟩ | ⟨error, hrun, hstop⟩
    · rcases ih hothers with ⟨nodes, hall, hnodes⟩ | ⟨error, hall, hstop⟩
      · refine .inl ⟨node :: nodes, bind_ok.2 ⟨node, state, hrun, ?_⟩, .cons hnode hnodes⟩
        exact bind_ok.2 ⟨nodes, state, hall, rfl⟩
      · refine .inr ⟨error, bind_error.2 (.inr ⟨node, state, hrun, bind_error.2 (.inl hall)⟩), ?_⟩
        refine hstop.imp id fun hnone nodes hnodes => ?_
        cases hnodes with
        | cons _ hrest => exact hnone _ hrest
    · refine .inr ⟨error, bind_error.2 (.inl hrun), hstop.imp id fun hnone nodes hnodes => ?_⟩
      cases hnodes with
      | cons hnode _ => exact hnone _ hnode

/-- A print. -/
theorem output_settles {arguments : List Tree} {format : String} {line : Line}
    (h : ∀ argument ∈ arguments, argument.Derives .relation) (budget : Nat) (state : CheckState) :
    Settles (.act (.output format arguments line)) (do
      let nodes ← checkAll arguments budget
      return Node.output (.format format ⟨line, .string⟩) nodes ⟨line, .void⟩) state := by
  rcases infers_or_arguments h budget state with ⟨nodes, hrun, hnodes⟩ | ⟨error, hrun, hstop⟩
  · exact .inl ⟨_, state.table, [], bind_ok.2 ⟨nodes, state, hrun, rfl⟩, .output hnodes⟩
  · refine .inr ⟨error, bind_error.2 (.inl hrun), hstop.imp id fun hnone changes after hdoes => ?_⟩
    cases hdoes with
    | output hnodes => exact hnone _ hnodes

/-- A condition, and what is checked behind it. -/
theorem test_proceeds {condition : Tree} {statement : String} {line : Line} {others : List Step}
    {Value : Type} {next : Node → Check Value} (hcondition : condition.Derives .relation)
    (hnext : ∀ test state, Proceeds others (next test) state) (budget : Nat) (state : CheckState) :
    Proceeds (.test condition :: others) (do
      let test ← condition.check budget
      requireCondition test statement line
      next test) state := by
  rcases hcondition.infers_or budget state with ⟨test, hrun, hnode⟩ | ⟨error, hrun, hstop⟩
  · have htest : Settles (.test condition) (requireCondition test statement line) state := by
      by_cases hbool : test.type = .bool
      · rw [requireCondition_eq hnode.isAbsent hbool]
        exact .inl ⟨(), state.table, [], rfl, .test hnode hbool⟩
      · rw [requireCondition, typeOf, hnode.isAbsent, if_neg (by simp), pure_bind, if_neg hbool]
        refine .refuse rfl fun changes after hdoes => ?_
        cases hdoes with
        | test hnode' hbool' => exact hbool (hnode.det hnode' ▸ hbool')
    exact .ok_bind hrun ((htest.proceeds rfl).bind fun _ after => hnext test after)
  · refine .inr ⟨error, state, bind_error.2 (.inl hrun), hstop.imp id fun hnone => ?_⟩
    refine ⟨[], .test condition, others, [], rfl, .nil state, fun changes after hdoes => ?_⟩
    cases hdoes with
    | test hnode => exact hnone _ hnode

/-- A condition, its body and what is checked behind them. -/
theorem guarded_proceeds {condition body : Tree} {statement : String} {line : Line}
    {others : List Step} {Value : Type} {next : Node → Node → Check Value}
    (hcondition : condition.Derives .relation)
    (hbody : ∀ budget state, Proceeds body.steps (body.check budget) state)
    (hnext : ∀ test node state, Proceeds others (next test node) state) (budget : Nat)
    (state : CheckState) :
    Proceeds (.test condition :: (body.steps ++ others)) (do
      let test ← condition.check budget
      requireCondition test statement line
      let node ← body.check budget
      next test node) state :=
  test_proceeds hcondition (fun test state => (hbody budget state).bind fun node after =>
    hnext test node after) budget state

/-- Statements one after the other. -/
theorem checkStatements_proceeds {statements : List Tree}
    (h : ∀ statement ∈ statements, ∀ budget state,
      Proceeds statement.steps (statement.check budget) state) (budget : Nat) (state : CheckState) :
    Proceeds (stepsAll statements) (checkStatements statements budget) state := by
  induction statements generalizing state with
  | nil => exact .pure []
  | cons statement statements ih =>
    obtain ⟨hfirst, hothers⟩ := List.forall_mem_cons.1 h
    refine (hfirst budget state).bind fun node between => ?_
    refine Proceeds.countStatement.bind fun _ counted => ?_
    exact (ih hothers counted).map _

end Tree

/-- What it is that a derivation of a phrase is checked step by step. -/
def Phrase.Proceeds : Phrase → Tree → Prop
  | program, tree | block, tree | statement, tree => ∀ budget state,
      Check.Proceeds tree.steps (tree.check budget) state
  | elsePart, tree => ∀ budget state, Check.Proceeds tree.steps (tree.checkTail budget) state
  | relation, _ | conjunction, _ | negatable, _ | sum, _ | product, _ | factor, _ => True

namespace Tree

/-- Programs, bodies, statements and tails of conditionals are checked step by step. -/
theorem Derives.proceeds {phrase : Phrase} {tree : Tree} (h : tree.Derives phrase) :
    phrase.Proceeds tree := by
  induction h with
  | @single _ level _ hrow | @chain _ level _ _ _ hrow =>
    subst hrow
    cases level <;> trivial
  | plain | comparison | negation | var | literal | input | group | minus => trivial
  | @program statements line _ ih =>
    refine .of_succ fun budget state => .ok_bind rfl (.map (.deeper (fun state => ?_) state) _)
    exact checkStatements_proceeds ih budget state
  | block _ ih => exact ih
  | @assignment name value line hvalue ih =>
    exact .of_succ fun budget state => (assignment_settles hvalue budget state).proceeds rfl
  | @letFixed name value line hvalue ih =>
    refine .of_succ fun budget state => ?_
    refine (declared_settles hvalue (fun hnode => .letFixed hnode) ?_ budget).proceeds rfl
    intro changes after hdoes
    cases hdoes with
    | letFixed hnode hdeclare => exact ⟨_, hnode, hdeclare⟩
  | @letUnset name line =>
    refine .of_succ fun budget state => ?_
    have hsettles : Settles (.act (.letMutable name .absent line)) (do
        updateTable line fun table => table.declare name .unknown true
        return Node.absent) state := by
      refine updateTable_settles line Node.absent (fun after => .letUnset) ?_
      intro changes after hdoes
      cases hdoes with
      | letUnset hdeclare => exact hdeclare
      | letMutable hnone => cases hnone
    exact hsettles.proceeds rfl
  | @letMutable name value line hvalue ih =>
    refine .of_succ fun budget state => ?_
    have hpresent : value ≠ .absent := hvalue.ne_absent (by simp)
    rw [check]
    · refine (declared_settles hvalue (fun hnode => .letMutable hnode) ?_ budget).proceeds rfl
      intro changes after hdoes
      cases hdoes with
      | letUnset => exact absurd rfl hpresent
      | letMutable hnode hdeclare => exact ⟨_, hnode, hdeclare⟩
    · exact hpresent
  | @ifElse condition body tail line hcondition _ htail _ ihBody ihTail =>
    refine .of_succ fun budget => ?_
    refine guarded_proceeds hcondition ihBody (fun test node state => ?_) budget
    exact (ihTail budget state).map _
  | @elseIf condition body tail line hcondition _ htail _ ihBody ihTail =>
    intro budget state
    refine guarded_proceeds hcondition ihBody (fun test node state => ?_) budget state
    exact (ihTail budget state).map _
  | @otherwise body line _ ih =>
    intro budget state
    exact (ih budget state).map _
  | noElse => exact fun budget state => .pure []
  | @loop condition body line hcondition _ _ ihBody =>
    refine .of_succ fun budget => test_proceeds hcondition (fun test state => ?_) budget
    exact (ihBody budget state).map _
  | @output format arguments line harguments _ =>
    exact .of_succ fun budget state => (output_settles harguments budget state).proceeds rfl

/-- A check that finds a fault of the program has done the steps in front of one that the rules
refuse. The table is what their changes make of the one at the beginning, each of which succeeds,
and the refused step changes nothing; the statements whose ends are among the steps have been
counted, and the depth of blocks is that of the beginning. -/
theorem checkProgram_stops {readBudget checkBudget : Nat} {tokens : List Token} {tree : Tree}
    {state after : CheckState} {error : CheckError} {reason : String} {line : Option Line}
    (hspelled : ∀ token ∈ tokens, token.IsSpelled) (hread : ofTokens readBudget tokens = .ok tree)
    (hcheck : tree.checkProgram checkBudget state = .error error after)
    (hfault : error.report = .semantic reason line) :
    ∃ done failing rest changes, tree.steps = done ++ failing :: rest ∧
      Step.DoAll state.table done changes after.table ∧
      changes.foldlM Change.apply state.table = .ok after.table ∧
      failing.IsRefused after.table ∧
      after.checked = state.checked + done.countP Step.isFinish ∧ after.depth = state.depth := by
  have hderives := (derives_of_ofTokens hspelled hread).1
  have hproceeds : Proceeds tree.steps (tree.checkProgram checkBudget) state := by
    obtain ⟨statements, line, rfl, -⟩ := hderives.checkProgram_ends checkBudget .empty
    exact hderives.proceeds checkBudget state
  rcases hproceeds with ⟨_, _, _, hrun, -⟩ | ⟨error', after', hrun, hstop⟩
  · cases hcheck.symm.trans hrun
  · cases hcheck.symm.trans hrun
    rcases hstop with rfl | ⟨done, failing, rest, changes, hsteps, hlead, hrefused⟩
    · cases hfault
    · exact ⟨done, failing, rest, changes, hsteps, hlead.doAll, hlead.doAll.apply, hrefused,
        hlead.checked, hlead.depth⟩

/-- The second assignment in a body behind `else if` is refused. Three statements have been checked,
two of them in bodies. -/
theorem checkProgram_stops_fixed : ∃ tree after done failing rest changes,
    ofTokens 16 (tokenize
      "let mut x; if false \x7b x = 1; \x7d else if true \x7b let y = x; y = 2; \x7d;") = .ok tree ∧
    tree.checkProgram 9 {} = .error (.fixedName "y" 1) after ∧
    tree.steps = done ++ failing :: rest ∧ Step.DoAll .empty done changes after.table ∧
    failing.IsRefused after.table ∧ done.countP Step.isFinish = 3 ∧
    after.table.entries = [⟨"x", .int, true, false⟩, ⟨"y", .int, false, false⟩] := by
  have htokens : tokenize
      "let mut x; if false \x7b x = 1; \x7d else if true \x7b let y = x; y = 2; \x7d;" =
      [⟨.kwLet, "let", 1⟩, ⟨.kwMut, "mut", 1⟩, ⟨.ident, "x", 1⟩, ⟨.semicolon, ";", 1⟩,
        ⟨.kwIf, "if", 1⟩, ⟨.boolLit, "false", 1⟩, ⟨.lbrace, "\x7b", 1⟩, ⟨.ident, "x", 1⟩,
        ⟨.assign, "=", 1⟩, ⟨.intLit, "1", 1⟩, ⟨.semicolon, ";", 1⟩, ⟨.rbrace, "\x7d", 1⟩,
        ⟨.kwElse, "else", 1⟩, ⟨.kwIf, "if", 1⟩, ⟨.boolLit, "true", 1⟩, ⟨.lbrace, "\x7b", 1⟩,
        ⟨.kwLet, "let", 1⟩, ⟨.ident, "y", 1⟩, ⟨.assign, "=", 1⟩, ⟨.ident, "x", 1⟩,
        ⟨.semicolon, ";", 1⟩, ⟨.ident, "y", 1⟩, ⟨.assign, "=", 1⟩, ⟨.intLit, "2", 1⟩,
        ⟨.semicolon, ";", 1⟩, ⟨.rbrace, "\x7d", 1⟩, ⟨.semicolon, ";", 1⟩,
        ⟨.endOfFile, "end of file", 1⟩] := by decide +kernel
  have hread : ofTokens 16 (tokenize
      "let mut x; if false \x7b x = 1; \x7d else if true \x7b let y = x; y = 2; \x7d;") =
      .ok (block [letMutable "x" absent 1, ifElse (literal .boolLit "false" 1)
        (block [assignment "x" (literal .intLit "1" 1) 1] 1) (elseIf (literal .boolLit "true" 1)
          (block [letFixed "y" (var "x" 1) 1, assignment "y" (literal .intLit "2" 1) 1] 1)
          absent 1) 1] 1) := by
    rw [htokens]
    rfl
  have hcheck : (block [letMutable "x" absent 1, ifElse (literal .boolLit "false" 1)
      (block [assignment "x" (literal .intLit "1" 1) 1] 1) (elseIf (literal .boolLit "true" 1)
        (block [letFixed "y" (var "x" 1) 1, assignment "y" (literal .intLit "2" 1) 1] 1)
        absent 1) 1] 1).checkProgram 9 {} = .error (.fixedName "y" 1)
          ⟨⟨[⟨"x", .int, true, false⟩, ⟨"y", .int, false, false⟩], by decide⟩, 0, 3⟩ := rfl
  obtain ⟨done, failing, rest, changes, hsteps, hdone, -, hrefused, hchecked, -⟩ :=
    checkProgram_stops (fun _ => isSpelled_of_mem_tokenize) hread hcheck rfl
  exact ⟨_, _, done, failing, rest, changes, hread, hcheck, hsteps, hdone, hrefused,
    (hchecked.trans (Nat.zero_add _)).symm, rfl⟩

end Tree

end ThreeAddress
