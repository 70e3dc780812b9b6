import ThreeAddress.Proofs.Check.Order

/-!
# Well-typed programs are checked

The checker finds no fault in a well-typed program. Whatever the state is in which it comes to a
part of the program, as long as the table records the mentions in front of it and knows no other
types than those of the names (`Tree.IsReady`), it checks the part by its rules, unless the budget
is used up. And the budget is used up only if it is no larger than the number of tokens.
-/

namespace ThreeAddress

open Sequence

/-! ## The parts of a check -/

namespace Check

variable {Value : Type} {state : CheckState} {node : Node}

/-- The check has a value and a state as wanted, or a budget is used up that is not above the
bound. -/
abbrev Passes (bound budget : Nat) (run : Check Value) (state : CheckState)
    (wanted : Value → CheckState → Prop) : Prop :=
  EndsOr (fun error => error = .tooDeep ∧ budget ≤ bound) run state wanted

/-- A part of a check with a budget and a bound of its own. -/
theorem Passes.within {bound budget bound' budget' : Nat} {run : Check Value}
    {wanted : Value → CheckState → Prop} (h : Passes bound' budget' run state wanted)
    (hle : budget' ≤ bound' → budget ≤ bound) : Passes bound budget run state wanted := by
  rcases h with h | ⟨error, after, hrun, rfl, hbudget⟩
  · exact .inl h
  · exact .inr ⟨_, after, hrun, rfl, hle hbudget⟩

/-- A truth value is one. -/
theorem requireBool_eq (h : node.isAbsent = false) (hbool : node.type = .bool) (operator : String)
    (line : Line) : requireBool node operator line = pure () := by
  rw [requireBool, typeOf, h, if_neg (by simp), pure_bind, if_pos hbool]

/-- A number is one. -/
theorem requireArithmetic_eq (h : node.isAbsent = false)
    (harithmetic : node.type.isArithmetic = true) (operator : String) (line : Line) :
    requireArithmetic node operator line = pure () := by
  rw [requireArithmetic, typeOf, h, if_neg (by simp), pure_bind, if_pos harithmetic]

/-- A truth value can be a condition. -/
theorem requireCondition_eq (h : node.isAbsent = false) (hbool : node.type = .bool)
    (statement : String) (line : Line) : requireCondition node statement line = pure () := by
  rw [requireCondition, typeOf, h, if_neg (by simp), pure_bind, if_pos hbool]

/-- Operands that a level accepts are joined. -/
theorem operation_eq {level : Level} {left right : Node} (hleft : left.isAbsent = false)
    (hright : right.isAbsent = false) (hl : level.accepts left.type = true)
    (hr : level.accepts right.type = true) (operator : String) (line : Line) :
    operation level operator left right line =
      pure (.binary operator left right ⟨line, level.result left.type right.type⟩) := by
  cases level with
  | or | and =>
    rw [operation, logical, requireBool_eq hleft (of_decide_eq_true hl), pure_bind,
      requireBool_eq hright (of_decide_eq_true hr), pure_bind]
    rfl
  | sum | product =>
    rw [operation, arithmetic, requireArithmetic_eq hleft hl, pure_bind,
      requireArithmetic_eq hright hr, pure_bind]
    rfl

/-- Numbers are compared. -/
theorem relational_eq {left right : Node} (hleft : left.isAbsent = false)
    (hright : right.isAbsent = false) (hl : left.type.isArithmetic = true)
    (hr : right.type.isArithmetic = true) (operator : String) (line : Line) :
    relational operator left right line = pure (.binary operator left right ⟨line, .bool⟩) := by
  rw [relational, requireArithmetic_eq hleft hl, pure_bind, requireArithmetic_eq hright hr,
    pure_bind]

/-- A truth value is negated. -/
theorem negation_eq (h : node.isAbsent = false) (hbool : node.type = .bool) (line : Line) :
    negation node line = pure (.unary "!" node ⟨line, .bool⟩) := by
  rw [negation, requireBool_eq h hbool, pure_bind]

/-- A number has a negative. -/
theorem minus_eq (h : node.isAbsent = false) (harithmetic : node.type.isArithmetic = true)
    (line : Line) :
    minus node line = pure (.unary "-" node ⟨line, .arithmeticResult [node.type]⟩) := by
  rw [minus, requireArithmetic_eq h harithmetic, pure_bind]

/-- A change of the table that succeeds. -/
theorem updateTable_ok {line : Line} {change : Table → Except TableError Table} {table : Table}
    (h : change state.table = .ok table) :
    updateTable line change state = .ok () { state with table } := by
  refine bind_ok.2 ⟨state, state, rfl, ?_⟩
  rw [h]
  rfl

/-- An entry that is found. -/
theorem entry_ok {name : String} {found : Entry} (h : state.table.find? name = some found)
    (line : Line) : entry name line state = .ok found state := by
  refine bind_ok.2 ⟨state, state, rfl, ?_⟩
  rw [Table.lookup_ok.2 h]
  rfl

/-- A name that may be assigned to. -/
theorem requireAssignable_ok {name : String} {found : Entry}
    (h : state.table.find? name = some found) (hassignable : found.assignable = true)
    (line : Line) : requireAssignable name line state = .ok () state := by
  refine bind_ok.2 ⟨found, state, entry_ok h line, ?_⟩
  rw [if_pos hassignable]
  rfl

/-- A name whose type is known. -/
theorem reference_ok {name : String} {found : Entry} (h : state.table.find? name = some found)
    (hknown : found.type ≠ .unknown) (line : Line) :
    reference name line state = .ok (.var name ⟨line, found.type⟩) state := by
  refine bind_ok.2 ⟨found, state, entry_ok h line, ?_⟩
  rw [if_neg hknown]
  rfl

/-- A declaration with a value that the table allows. -/
theorem declaration_ok {name : String} {assignable : Bool} {table : Table}
    (h : node.isAbsent = false)
    (hdeclare : state.table.declare name node.type assignable = .ok table) (line : Line) :
    declaration name node assignable line state =
      .ok (.assignment name node true ⟨line, .void⟩) { state with table } := by
  rw [declaration, typeOf, h, if_neg (by simp), pure_bind]
  exact bind_ok.2 ⟨(), _, updateTable_ok hdeclare, rfl⟩

/-- An assignment of a value that the table allows. -/
theorem assignment_ok {name : String} {table : Table} (h : node.isAbsent = false)
    (hresolve : state.table.resolve name node.type = .ok table) (line : Line) :
    assignment name node line state =
      .ok (.assignment name node false ⟨line, .void⟩) { state with table } := by
  rw [assignment, typeOf, h, if_neg (by simp), pure_bind]
  exact bind_ok.2 ⟨(), _, updateTable_ok hresolve, rfl⟩

end Check

/-! ## What the table allows -/

namespace Table

variable {table : Table} {mentions : List Mention} {name : String} {type : DataType}

/-- A new name can be declared. -/
theorem declare_of_not_mem (h : name ∉ table) (type : DataType) (assignable : Bool) :
    ∃ after, table.declare name type assignable = .ok after :=
  ⟨_, dif_neg h⟩

/-- A value of its type, or of any type if it has none, can be given to a name. -/
theorem resolve_of_type {entry : Entry} (hfind : table.find? name = some entry)
    (htype : entry.type ≠ .unknown → entry.type = type) :
    ∃ after, table.resolve name type = .ok after := by
  rw [resolve_eq (lookup_ok.2 hfind)]
  split
  · exact ⟨_, rfl⟩
  · next hknown => exact ⟨table, if_pos (htype hknown)⟩

/-- A name that has been declared as assignable may be assigned to. -/
theorem Records.exists_assignable (h : table.Records mentions)
    (hdeclared : ∃ hasValue, .declare name true hasValue ∈ mentions) :
    ∃ entry, table.find? name = some entry ∧ entry.assignable = true := by
  obtain ⟨hasValue, hmem⟩ := hdeclared
  have hname : name ∈ table := h.mem_iff.2 (List.mem_filterMap.2 ⟨_, hmem, rfl⟩)
  obtain ⟨entry, hfind⟩ := mem_iff_find?.1 hname
  exact ⟨entry, hfind, (h.assignable_iff hfind).2 ⟨hasValue, hmem⟩⟩

end Table

/-! ## Parts of well-typed programs -/

/-- The type of an operation is accepted by its level. -/
theorem Level.accepts_result (level : Level) (left right : DataType) :
    level.accepts (level.result left right) = true := by
  cases level with
  | or | and => rfl
  | sum | product =>
    rw [Level.result, Level.accepts, DataType.arithmeticResult]
    split <;> rfl

namespace Tree

/-- A well-typed part of a program, behind everything that the table records. -/
structure IsReady (types : String → DataType) (mentions : List Mention) (table : Table)
    (tree : Tree) : Prop where
  holds : table.Holds types
  records : table.Records mentions
  ordered : IsOrdered (mentions ++ tree.mentions)
  agrees : tree.Agrees types

variable {types : String → DataType} {mentions : List Mention} {table between : Table}
  {tree part : Tree} {type : DataType} {nodes : List Node}

/-- The mentions in trees are those in each of them. -/
theorem mem_mentionsAll {trees : List Tree} {mention : Mention} :
    mention ∈ mentionsAll trees ↔ ∃ tree ∈ trees, mention ∈ tree.mentions := by
  induction trees with
  | nil => simp [mentionsAll]
  | cons tree trees ih => simp [mentionsAll, ih]

/-- An operation mentions what its operand does. -/
theorem mentions_operand (tree : Tree) : tree.operand.mentions = tree.mentions := by
  cases tree <;> rfl

/-- The mentions in a row are those in its operands. -/
theorem mem_mentions_chain {level : Level} {first : Tree} {operations : List Tree} {line : Line}
    {mention : Mention} : mention ∈ (chain level first operations line).mentions ↔
      ∃ operand ∈ operands first operations, mention ∈ operand.mentions := by
  rw [Tree.mentions, List.mem_append, mem_mentionsAll, operands]
  simp [mentions_operand]

/-- An expression mentions only names that it uses. -/
theorem HasType.uses (h : tree.HasType types type) :
    ∀ mention ∈ tree.mentions, ∃ name, mention = .use name := by
  induction h with
  | @var name => exact List.forall_mem_singleton.2 ⟨name, rfl⟩
  | int | float | char | bool | input => nofun
  | group _ ih | minus _ _ ih | negation _ ih => exact ih
  | comparison _ _ _ _ ihLeft ihRight => exact List.forall_mem_append.2 ⟨ihLeft, ihRight⟩
  | single _ ih =>
    rw [Tree.mentions, mentionsAll, List.append_nil]
    exact ih
  | logical _ _ _ ih | arithmetic _ _ _ _ ih =>
    intro mention hmem
    obtain ⟨operand, hoperand, hmem⟩ := mem_mentions_chain.1 hmem
    exact ih operand hoperand mention hmem

/-- Expressions mention only names that they use. -/
theorem mentionsAll_uses {trees : List Tree}
    (h : ∀ tree ∈ trees, ∃ type, tree.HasType types type) :
    ∀ mention ∈ mentionsAll trees, ∃ name, mention = .use name := by
  intro mention hmem
  obtain ⟨tree, htree, hmem⟩ := mem_mentionsAll.1 hmem
  obtain ⟨type, htype⟩ := h tree htree
  exact htype.uses mention hmem

/-- What a tree mentions first is in order. -/
theorem IsReady.ordered_part {others : List Mention} (h : tree.IsReady types mentions table)
    (hmentions : tree.mentions = part.mentions ++ others) :
    IsOrdered (mentions ++ part.mentions) := by
  have hordered := h.ordered
  rw [hmentions, ← List.append_assoc] at hordered
  exact hordered.of_append

/-- The table knows the names that the first expression of a tree uses. -/
theorem IsReady.knows {others : List Mention} (h : tree.IsReady types mentions table)
    (hmentions : tree.mentions = part.mentions ++ others) (htype : part.HasType types type) :
    ∀ mention ∈ part.mentions, table.Knows mention :=
  h.records.knows (h.ordered_part hmentions) htype.uses

/-- What stands behind the first part of a tree is ready when that part has been checked. -/
theorem IsReady.behind {rest : Tree} (h : part.IsReady types mentions table)
    (hchecks : part.Checks table nodes between)
    (hordered : IsOrdered (mentions ++ part.mentions ++ rest.mentions))
    (hagrees : rest.Agrees types) : rest.IsReady types (mentions ++ part.mentions) between :=
  ⟨hchecks.holds h.holds h.agrees, hchecks.records h.records, hordered, hagrees⟩

/-- The operands of a row have types that its level accepts. -/
theorem HasType.accepts {level : Level} {first : Tree} {operations : List Tree} {line : Line}
    (h : (chain level first operations line).HasType types type) (hne : operations ≠ []) :
    ∀ operand ∈ operands first operations,
      ∃ type, operand.HasType types type ∧ level.accepts type = true := by
  intro operand hmem
  cases h with
  | single => exact absurd rfl hne
  | logical hlevel _ hoperands =>
    refine ⟨.bool, hoperands operand hmem, ?_⟩
    rcases hlevel with rfl | rfl <;> rfl
  | arithmetic hlevel _ hoperands hnumbers =>
    refine ⟨_, hoperands operand hmem, ?_⟩
    rcases hlevel with rfl | rfl <;> exact hnumbers operand hmem

end Tree

/-! ## The checker finds no fault -/

open Check

/-- What it is that a derivation of a phrase is accepted: where it is ready, it is checked by the
rules. -/
def Phrase.IsAccepted : Phrase → Tree → Prop
  | program, tree | block, tree => ∃ statements line, tree = .block statements line ∧
      ∀ (budget : Nat) (state : CheckState) (types : String → DataType) (mentions : List Mention),
        state.depth ≠ 0 → tree.IsReady types mentions state.table →
        Passes tree.spelling.length (budget + 1) (Tree.checkStatements statements budget) state
          fun items after => after.depth = state.depth ∧ tree.Checks state.table items after.table
  | statement, tree => ∀ (budget : Nat) (state : CheckState) (types : String → DataType)
      (mentions : List Mention), state.depth ≠ 0 → tree.IsReady types mentions state.table →
      Passes tree.spelling.length budget (tree.check budget) state
        fun node after => after.depth = state.depth ∧
          tree.Checks state.table (consStatement node []) after.table
  | elsePart, tree => ∀ (budget : Nat) (state : CheckState) (types : String → DataType)
      (mentions : List Mention), state.depth ≠ 0 → tree.IsReady types mentions state.table →
      Passes tree.spelling.length budget (tree.checkTail budget) state
        fun parts after => after.depth = state.depth ∧ tree.Checks state.table parts after.table
  | relation, tree | conjunction, tree | negatable, tree | sum, tree | product, tree
  | factor, tree => ∀ (budget : Nat) (state : CheckState) (types : String → DataType)
      (type : DataType), state.table.Holds types →
      (∀ mention ∈ tree.mentions, state.table.Knows mention) → tree.HasType types type →
      Passes tree.spelling.length budget (tree.check budget) state
        fun node after => after = state ∧ tree.Infers state.table node

namespace Tree

variable {types : String → DataType} {mentions : List Mention} {state : CheckState}

/-- Without a budget nothing is checked. -/
theorem check_zero_passes (tree : Tree) {bound : Nat} {wanted : Node → CheckState → Prop} :
    Passes bound 0 (tree.check 0) state wanted := by
  cases tree <;> exact .throw ⟨rfl, Nat.zero_le _⟩

/-- A body, one block deeper. -/
theorem body_passes {body : Tree} (h : Phrase.block.IsAccepted body) :
    ∃ statements line, body = .block statements line ∧
      ∀ (budget : Nat) (state : CheckState) (types : String → DataType) (mentions : List Mention),
        state.depth ≠ 0 → body.IsReady types mentions state.table →
        Passes body.spelling.length budget (body.check budget) state fun node after =>
          after.depth = state.depth ∧ ∃ items, node = .block items ⟨line, .void⟩ ∧
            body.Checks state.table items after.table := by
  obtain ⟨statements, line, rfl, h⟩ := h
  refine ⟨statements, line, rfl, fun budget state types mentions hdepth hready => ?_⟩
  cases budget with
  | zero => exact check_zero_passes _
  | succ budget =>
    rw [check]
    refine EndsOr.get ?_
    refine EndsOr.bind (deeper_ends (h budget _ types mentions (Nat.succ_ne_zero _) hready)) ?_
    rintro items _ ⟨last, ⟨-, hitems⟩, rfl⟩
    refine .pure ⟨rfl, items, ?_, hitems⟩
    rw [blockNode, if_neg hdepth]

/-- The operations of a chain, joined to what stands left of them. -/
theorem checkOperations_passes {level : Level} {first : Tree} {line : Line}
    {bound limit budget : Nat} {operations : List Tree}
    (hholds : ∀ operation ∈ operations, operation.IsOperation level.holds)
    (hoperands : ∀ operation ∈ operations,
      Passes bound limit (operation.operand.check budget) state fun node after =>
        after = state ∧ operation.operand.Infers state.table node ∧
          level.accepts node.type = true) :
    ∀ {before : List Tree} {left : Node},
      (chain level first before line).Infers state.table left →
      (operations ≠ [] → level.accepts left.type = true) →
      Passes bound limit (checkOperations level left operations budget) state fun node after =>
        after = state ∧
          (chain level first (before ++ operations) line).Infers state.table node := by
  induction operations with
  | nil =>
    intro before left hleft _
    rw [List.append_nil]
    exact .pure ⟨rfl, hleft⟩
  | cons operation operations ih =>
    intro before left hleft haccepts
    obtain ⟨operator, right, operatorLine, rfl, hoperator⟩ := (hholds operation (.head _)).eq
    refine (hoperands _ (.head _)).bind ?_
    rintro second _ ⟨rfl, hright, hsecond⟩
    have hl := haccepts (List.cons_ne_nil _ _)
    rw [operation_eq hleft.isAbsent hright.isAbsent hl hsecond, pure_bind, List.append_cons]
    exact ih (fun other hother => hholds other (.tail _ hother))
      (fun other hother => hoperands other (.tail _ hother))
      (.joined hleft hright hoperator hl hsecond) fun _ => level.accepts_result _ _

/-- The arguments of a print. -/
theorem checkAll_passes {bound limit budget : Nat} {arguments : List Tree}
    (h : ∀ argument ∈ arguments, Passes bound limit (argument.check budget) state
      fun node after => after = state ∧ argument.Infers state.table node) :
    Passes bound limit (checkAll arguments budget) state fun nodes after =>
      after = state ∧ List.Forall₂ (Infers state.table) arguments nodes := by
  induction arguments with
  | nil => exact .pure ⟨rfl, .nil⟩
  | cons argument arguments ih =>
    refine (h argument (.head _)).bind ?_
    rintro node _ ⟨rfl, hnode⟩
    refine (ih fun other hother => h other (.tail _ hother)).bind ?_
    rintro nodes _ ⟨rfl, hnodes⟩
    exact .pure ⟨rfl, .cons hnode hnodes⟩

/-- The statements of a program or a body. -/
theorem checkStatements_passes {statements : List Tree} (line : Line)
    (hderives : ∀ statement ∈ statements, statement.Derives .statement)
    (h : ∀ statement ∈ statements, Phrase.statement.IsAccepted statement) (budget : Nat)
    (state : CheckState) (types : String → DataType) (mentions : List Mention)
    (hdepth : state.depth ≠ 0)
    (hready : (block statements line).IsReady types mentions state.table) :
    Passes (block statements line).spelling.length (budget + 1) (checkStatements statements budget)
      state fun items after => after.depth = state.depth ∧
        (block statements line).Checks state.table items after.table := by
  induction statements generalizing state mentions with
  | nil => exact .pure ⟨rfl, .nil⟩
  | cons statement statements ih =>
    obtain ⟨hholds, hrecords, hordered, hagrees⟩ := hready
    have hmentions : (block (statement :: statements) line).mentions =
        statement.mentions ++ (block statements line).mentions := rfl
    rw [hmentions, ← List.append_assoc] at hordered
    cases hagrees with
    | block hagrees =>
      obtain ⟨hfirst, hothers⟩ := List.forall_mem_cons.1 hagrees
      have hready : statement.IsReady types mentions state.table :=
        ⟨hholds, hrecords, hordered.of_append, hfirst⟩
      have hlength : (block (statement :: statements) line).spelling.length =
          statement.spelling.length + 1 + (block statements line).spelling.length := by
        simp [spelling, statementsSpelling]
        omega
      refine ((h statement (.head _) budget state types mentions hdepth hready).within
        (by omega)).bind ?_
      rintro node between ⟨hdepth₁, hnode⟩
      have hcount : Passes (block (statement :: statements) line).spelling.length (budget + 1)
          countStatement between fun _ after =>
            after.depth = between.depth ∧ after.table = between.table := .inl ⟨_, _, rfl, rfl, rfl⟩
      refine hcount.bind ?_
      rintro _ counted ⟨hdepth₂, htable⟩
      have hreadyOthers := hready.behind hnode hordered (.block hothers)
      rw [← htable] at hreadyOthers
      refine ((ih (fun other hother => hderives other (.tail _ hother))
        (fun other hother => h other (.tail _ hother)) counted _ (by rwa [hdepth₂, hdepth₁])
        hreadyOthers).within (by omega)).bind ?_
      rintro others after ⟨hdepth₃, hothers⟩
      refine .pure ⟨by rw [hdepth₃, hdepth₂, hdepth₁], ?_⟩
      rw [consStatement_eq]
      exact .cons (hderives statement (.head _)).isTail_statement hnode (htable ▸ hothers)

/-- A condition, its body and what follows it. -/
theorem link_passes {condition body tail : Tree} (hcondition : Phrase.relation.IsAccepted condition)
    (hbody : Phrase.block.IsAccepted body) (htail : Phrase.elsePart.IsAccepted tail) :
    ∃ statements bodyLine, body = .block statements bodyLine ∧
      ∀ {budget bound limit : Nat} {state : CheckState} {types : String → DataType}
        {mentions : List Mention} {line : Line}, state.depth ≠ 0 → state.table.Holds types →
        state.table.Records mentions →
        IsOrdered (mentions ++ (condition.mentions ++ body.mentions ++ tail.mentions)) →
        condition.HasType types .bool → body.Agrees types → tail.Agrees types →
        (∀ part ∈ [condition, body, tail], budget ≤ part.spelling.length → limit ≤ bound) →
        ∀ {Value : Type} {next : Node → Node → List Node → Check Value}
          {wanted : Value → CheckState → Prop},
          (∀ test items parts between after, condition.Infers state.table test →
            test.type = .bool → body.Checks state.table items between →
            tail.Checks between parts after.table → after.depth = state.depth →
            Passes bound limit (next test (.block items ⟨bodyLine, .void⟩) parts) after wanted) →
          Passes bound limit (do
            let test ← condition.check budget
            requireCondition test "if" line
            let body ← body.check budget
            let rest ← tail.checkTail budget
            next test body rest) state wanted := by
  obtain ⟨statements, bodyLine, rfl, hbody⟩ := body_passes hbody
  refine ⟨statements, bodyLine, rfl, ?_⟩
  intro budget bound limit state types mentions line hdepth hholds hrecords hordered htype
    hagreesBody hagreesTail hlimit Value next wanted hnext
  rw [← List.append_assoc, ← List.append_assoc] at hordered
  have hknows := hrecords.knows hordered.of_append.of_append htype.uses
  refine ((hcondition budget state types .bool hholds hknows htype).within
    (hlimit _ (.head _))).bind ?_
  rintro test _ ⟨rfl, htest⟩
  have hbool : test.type = .bool := (htest.hasType hholds).unique htype
  rw [requireCondition_eq htest.isAbsent hbool, pure_bind]
  have hready : (block statements bodyLine).IsReady types (mentions ++ condition.mentions) _ :=
    ⟨hholds, hrecords.uses hknows, hordered.of_append, hagreesBody⟩
  refine ((hbody budget _ types _ hdepth hready).within (hlimit _ (.tail _ (.head _)))).bind ?_
  rintro _ between ⟨hdepth₁, items, rfl, hitems⟩
  have hreadyTail := hready.behind hitems hordered hagreesTail
  refine ((htail budget between types _ (by rwa [hdepth₁]) hreadyTail).within
    (hlimit _ (.tail _ (.tail _ (.head _))))).bind ?_
  rintro parts after ⟨hdepth₂, hparts⟩
  exact hnext test items parts between.table after htest hbool hitems hparts
    (by rw [hdepth₂, hdepth₁])

/-- The first value of a declaration, and the declaration. -/
theorem declaration_passes {name : String} {value : Tree} {assignable hasValue : Bool} {line : Line}
    {budget bound : Nat} (hvalue : Phrase.relation.IsAccepted value)
    (hholds : state.table.Holds types) (hrecords : state.table.Records mentions)
    (hordered : IsOrdered (mentions ++ (value.mentions ++ [.declare name assignable hasValue])))
    (htype : value.HasType types (types name))
    (hbound : budget ≤ value.spelling.length → budget + 1 ≤ bound) :
    Passes bound (budget + 1) (do
      let node ← value.check budget
      declaration name node assignable line) state fun result after =>
        after.depth = state.depth ∧ ∃ node, result = .assignment name node true ⟨line, .void⟩ ∧
          value.Infers state.table node ∧
          state.table.declare name node.type assignable = .ok after.table := by
  rw [← List.append_assoc] at hordered
  have hknows := hrecords.knows hordered.of_append htype.uses
  refine ((hvalue budget state types _ hholds hknows htype).within hbound).bind ?_
  rintro node _ ⟨rfl, hnode⟩
  have hnew := (hrecords.uses hknows).mem_iff.not.2 (IsOrdered.concat_iff.1 hordered).2
  obtain ⟨after, hdeclare⟩ := Table.declare_of_not_mem hnew node.type assignable
  exact .inl ⟨_, _, declaration_ok hnode.isAbsent hdeclare line, rfl, node, rfl, hnode, hdeclare⟩

/-- A derivation is accepted. -/
theorem Derives.isAccepted {phrase : Phrase} {tree : Tree} (h : tree.Derives phrase) :
    phrase.IsAccepted tree := by
  induction h with
  | @program statements line hstatements ih =>
    exact ⟨statements, line, rfl, checkStatements_passes line hstatements ih⟩
  | block _ ih => exact ih
  | @assignment name value line _ ih =>
    intro budget state types mentions hdepth hready
    cases budget with
    | zero => exact check_zero_passes _
    | succ budget =>
      cases hready.agrees with
      | assignment htype =>
        have hknows := hready.knows rfl htype
        have hordered := hready.ordered
        rw [Tree.mentions, ← List.append_assoc] at hordered
        obtain ⟨entry, hfind, hassignable⟩ := (hready.records.uses hknows).exists_assignable
          (IsOrdered.concat_iff.1 hordered).2
        rw [check]
        refine EndsOr.ok_bind (requireAssignable_ok hfind hassignable line) ?_
        refine ((ih budget _ types _ hready.holds hknows htype).within
          (by simp [spelling]; omega)).bind ?_
        rintro node _ ⟨rfl, hnode⟩
        have hname : node.type = types name := (hnode.hasType hready.holds).unique htype
        obtain ⟨after, hresolve⟩ := Table.resolve_of_type hfind
          fun hknown => (hready.holds name entry hfind hknown).trans hname.symm
        exact .inl ⟨_, _, assignment_ok hnode.isAbsent hresolve line, rfl,
          .assignment hfind hassignable hnode hresolve⟩
  | @letFixed name value line _ ih =>
    intro budget state types mentions hdepth hready
    cases budget with
    | zero => exact check_zero_passes _
    | succ budget =>
      cases hready.agrees with
      | letFixed htype =>
        rw [check]
        refine (declaration_passes ih hready.holds hready.records hready.ordered htype
          (by simp [spelling]; omega)).mono ?_
        rintro _ after ⟨hdepth', node, rfl, hnode, hdeclare⟩
        exact ⟨hdepth', .letFixed hnode hdeclare⟩
  | @letUnset name line =>
    intro budget state types mentions hdepth hready
    cases budget with
    | zero => exact check_zero_passes _
    | succ budget =>
      have hnew := hready.records.mem_iff.not.2 (IsOrdered.concat_iff.1 hready.ordered).2
      obtain ⟨after, hdeclare⟩ := Table.declare_of_not_mem hnew .unknown true
      rw [check]
      refine EndsOr.ok_bind (updateTable_ok hdeclare) ?_
      exact .pure ⟨rfl, .letUnset hdeclare⟩
  | @letMutable name value line hvalue ih =>
    intro budget state types mentions hdepth hready
    cases budget with
    | zero => exact check_zero_passes _
    | succ budget =>
      have habsent := hvalue.ne_absent (by simp)
      cases hready.agrees with
      | letUnset => exact absurd rfl habsent
      | letMutable htype =>
        rw [check]
        · refine (declaration_passes ih hready.holds hready.records hready.ordered htype
            (by simp [spelling]; omega)).mono ?_
          rintro _ after ⟨hdepth', node, rfl, hnode, hdeclare⟩
          exact ⟨hdepth', .letMutable hnode hdeclare⟩
        · exact habsent
  | @ifElse condition body tail line _ _ htail ihCondition ihBody ihTail =>
    obtain ⟨statements, bodyLine, rfl, hlink⟩ := link_passes ihCondition ihBody ihTail
    intro budget state types mentions hdepth hready
    cases budget with
    | zero => exact check_zero_passes _
    | succ budget =>
      cases hready.agrees with
      | ifElse htype hbody hagreesTail =>
        rw [check]
        refine hlink hdepth hready.holds hready.records hready.ordered htype hbody hagreesTail
          (by simp [spelling]; omega) ?_
        intro test items parts between after htest hbool hitems hparts hdepth'
        exact .pure ⟨hdepth', .ifElse htest hbool hitems htail.isTail hparts⟩
  | @elseIf condition body tail line _ _ htail ihCondition ihBody ihTail =>
    obtain ⟨statements, bodyLine, rfl, hlink⟩ := link_passes ihCondition ihBody ihTail
    intro budget state types mentions hdepth hready
    cases hready.agrees with
    | elseIf htype hbody hagreesTail =>
      rw [checkTail]
      refine hlink hdepth hready.holds hready.records hready.ordered htype hbody hagreesTail
        (by simp [spelling]; omega) ?_
      intro test items parts between after htest hbool hitems hparts hdepth'
      exact .pure ⟨hdepth', .elseIf htest hbool hitems htail.isTail hparts⟩
  | @otherwise body line _ ih =>
    obtain ⟨statements, bodyLine, rfl, hbody⟩ := body_passes ih
    intro budget state types mentions hdepth hready
    cases hready.agrees with
    | otherwise hagrees =>
      rw [checkTail]
      refine ((hbody budget state types mentions hdepth
        ⟨hready.holds, hready.records, hready.ordered, hagrees⟩).within
          (by simp [spelling]; omega)).bind ?_
      rintro _ after ⟨hdepth', items, rfl, hitems⟩
      exact .pure ⟨hdepth', .otherwise hitems⟩
  | noElse => exact fun budget state types mentions hdepth hready => .pure ⟨rfl, .noElse⟩
  | @loop condition body line _ _ ihCondition ihBody =>
    obtain ⟨statements, bodyLine, rfl, hbody⟩ := body_passes ihBody
    intro budget state types mentions hdepth hready
    cases budget with
    | zero => exact check_zero_passes _
    | succ budget =>
      cases hready.agrees with
      | loop htype hagrees =>
        have hknows := hready.knows rfl htype
        have hordered := hready.ordered
        rw [Tree.mentions, ← List.append_assoc] at hordered
        rw [check]
        refine ((ihCondition budget state types _ hready.holds hknows htype).within
          (by simp [spelling]; omega)).bind ?_
        rintro test _ ⟨rfl, htest⟩
        have hbool : test.type = .bool := (htest.hasType hready.holds).unique htype
        rw [requireCondition_eq htest.isAbsent hbool, pure_bind]
        refine ((hbody budget _ types _ hdepth
          ⟨hready.holds, hready.records.uses hknows, hordered, hagrees⟩).within
            (by simp [spelling]; omega)).bind ?_
        rintro _ after ⟨hdepth', items, rfl, hitems⟩
        exact .pure ⟨hdepth', .loop htest hbool hitems⟩
  | @output format arguments line _ ih =>
    intro budget state types mentions hdepth hready
    cases budget with
    | zero => exact check_zero_passes _
    | succ budget =>
      cases hready.agrees with
      | output hagrees =>
        rw [check]
        refine (checkAll_passes fun argument hmem => ?_).bind ?_
        · obtain ⟨type, htype⟩ := hagrees argument hmem
          have hmentions := hready.records.knows hready.ordered
            (mentionsAll_uses fun other hother => hagrees other hother)
          have hlength := (argument_sublist argument hmem).length_le
          exact (ih argument hmem budget state types type hready.holds
            (fun mention hmention => hmentions _ (mem_mentionsAll.2 ⟨argument, hmem, hmention⟩))
            htype).within (by simp [spelling]; omega)
        · rintro nodes _ ⟨rfl, hnodes⟩
          exact .pure ⟨rfl, .output hnodes⟩
  | @single _ level tree hrow _ ih =>
    subst hrow
    cases level <;> exact ih
  | @chain _ level first operations line hrow _ hne hholds _ ihFirst ihOperands =>
    have hexpression {tree : Tree} (ih : level.part.IsAccepted tree) :
        Phrase.factor.IsAccepted tree := by
      cases level <;> exact ih
    suffices h : Phrase.factor.IsAccepted (Tree.chain level first operations line) by
      subst hrow
      cases level <;> exact h
    intro budget state types type hholds' hknows htype
    cases budget with
    | zero => exact check_zero_passes _
    | succ budget =>
      have haccepts := htype.accepts hne
      have hpart {part : Tree} (hmem : part ∈ operands first operations)
          (ih : level.part.IsAccepted part) : Passes part.spelling.length budget
            (part.check budget) state fun node after => after = state ∧
              part.Infers state.table node ∧ level.accepts node.type = true := by
        obtain ⟨partType, hpartType, hlevel⟩ := haccepts part hmem
        refine (hexpression ih budget state types partType hholds'
          (fun mention hmention => hknows _ (mem_mentions_chain.2 ⟨part, hmem, hmention⟩))
          hpartType).mono ?_
        rintro node _ ⟨rfl, hnode⟩
        exact ⟨rfl, hnode, (hnode.hasType hholds').unique hpartType ▸ hlevel⟩
      -- Every operation has its operator in front of its operand.
      have hlength : ∀ operation ∈ operations,
          operation.operand.spelling.length + 1 ≤ (operationsSpelling operations).length := by
        intro operation hmem
        have hle := (operation_sublist operation hmem).length_le
        obtain ⟨operator, right, operatorLine, rfl, -⟩ := (hholds operation hmem).eq
        exact hle
      have hsome : 1 ≤ (operationsSpelling operations).length := by
        obtain ⟨operation, hmem⟩ := List.exists_mem_of_ne_nil operations hne
        exact Nat.le_trans (Nat.le_add_left _ _) (hlength operation hmem)
      rw [check]
      refine ((hpart (.head _) ihFirst).within (by simp [spelling]; omega)).bind ?_
      rintro node _ ⟨rfl, hnode, hlevel⟩
      refine checkOperations_passes hholds (fun operation hmem => ?_) (.single hnode)
        fun _ => hlevel
      have hoperand := hlength operation hmem
      exact (hpart (.tail _ (List.mem_map_of_mem hmem)) (ihOperands operation hmem)).within
        (by simp [spelling]; omega)
  | plain _ ih => exact ih
  | @comparison left operation line _ hoperation _ ihLeft ihRight =>
    obtain ⟨operator, right, operatorLine, rfl, hoperator⟩ := hoperation.eq
    intro budget state types type hholds hknows htype
    cases budget with
    | zero => exact check_zero_passes _
    | succ budget =>
      obtain ⟨hknowsLeft, hknowsRight⟩ := List.forall_mem_append.1 hknows
      cases htype with
      | comparison hleftType hrightType hleftNumber hrightNumber =>
        rw [check]
        refine ((ihLeft budget state types _ hholds hknowsLeft hleftType).within
          (by simp [spelling]; omega)).bind ?_
        rintro first _ ⟨rfl, hleft⟩
        refine ((ihRight budget _ types _ hholds hknowsRight hrightType).within
          (by simp [spelling, operand]; omega)).bind ?_
        rintro second _ ⟨rfl, hright⟩
        have hl := (hleft.hasType hholds).unique hleftType ▸ hleftNumber
        have hr := (hright.hasType hholds).unique hrightType ▸ hrightNumber
        rw [relational_eq hleft.isAbsent hright.isAbsent hl hr]
        exact .pure ⟨rfl, .comparison hleft hright hoperator hl hr⟩
  | @negation operand line _ ih =>
    intro budget state types type hholds hknows htype
    cases budget with
    | zero => exact check_zero_passes _
    | succ budget =>
      cases htype with
      | negation htype =>
        rw [check]
        refine ((ih budget state types _ hholds hknows htype).within
          (by simp [spelling]; omega)).bind ?_
        rintro node _ ⟨rfl, hnode⟩
        have hbool := (hnode.hasType hholds).unique htype
        rw [negation_eq hnode.isAbsent hbool]
        exact .pure ⟨rfl, .negation hnode hbool⟩
  | @var name line =>
    intro budget state types type hholds hknows htype
    cases budget with
    | zero => exact check_zero_passes _
    | succ budget =>
      obtain ⟨_, entry, hname, hfind, hknown⟩ := hknows _ (.head _)
      cases hname
      exact .inl ⟨_, _, reference_ok hfind hknown line, rfl, .var hfind hknown⟩
  | @literal kind lexeme line _ =>
    intro budget state types type hholds hknows htype
    cases budget with
    | zero => exact check_zero_passes _
    | succ budget =>
      cases htype with
      | int | float | char | bool => exact .pure ⟨rfl, .literal rfl (by decide)⟩
  | @input line =>
    intro budget state types type hholds hknows htype
    cases budget with
    | zero => exact check_zero_passes _
    | succ budget => exact .pure ⟨rfl, .input⟩
  | @group inner line _ ih =>
    intro budget state types type hholds hknows htype
    cases budget with
    | zero => exact check_zero_passes _
    | succ budget =>
      cases htype with
      | group htype =>
        rw [check]
        refine ((ih budget state types _ hholds hknows htype).within
          (by simp [spelling]; omega)).mono ?_
        rintro node _ ⟨rfl, hnode⟩
        exact ⟨rfl, .group hnode⟩
  | @minus operand line _ ih =>
    intro budget state types type hholds hknows htype
    cases budget with
    | zero => exact check_zero_passes _
    | succ budget =>
      cases htype with
      | minus htype harithmetic =>
        rw [check]
        refine ((ih budget state types _ hholds hknows htype).within
          (by simp [spelling])).bind ?_
        rintro node _ ⟨rfl, hnode⟩
        have hnumber := (hnode.hasType hholds).unique htype ▸ harithmetic
        rw [minus_eq hnode.isAbsent hnumber]
        exact .pure ⟨rfl, .minus hnode hnumber⟩

end Tree

end ThreeAddress
