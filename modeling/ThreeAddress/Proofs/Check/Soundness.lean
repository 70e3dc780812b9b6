import ThreeAddress.Proofs.Check.Judgement
import ThreeAddress.Proofs.Grammar.Sources
import ThreeAddress.Typed.Outline

/-!
# Checked trees are typed

The types in a checked tree are those that the operators, conditions and assignments demand, and
the names in it have the types of the last table (`Tree.check_typed`). A type is read off the
table before the later declarations are made; it stays right because it was known by then, and a
known type never changes.
-/

namespace ThreeAddress

/-! ## Typed nodes -/

/-- The types of a table are those that a program can give to a name. -/
def Table.IsPlain (table : Table) : Prop :=
  ∀ entry ∈ table.entries, entry.type ∈ [.unknown, .int, .bool, .char, .float]

namespace DataType

/-- The type of arithmetic on two operands. -/
def join (left right : DataType) : DataType :=
  if left = .float ∨ right = .float then .float else .int

end DataType

namespace Node

/-- Whether a node is a statement, a body or a program. -/
def isStatement : Node → Bool
  | program .. | block .. | assignment .. | output .. | conditional .. | loop .. => true
  | _ => false

/-- Whether a node is a format text. -/
def isFormat : Node → Bool
  | format .. => true
  | _ => false

/-- The types of a node and of the nodes directly below it agree with each other and with the
table. -/
def IsTyped (table : Table) : Node → Prop
  | absent | bare _ => False
  | program _ mark | block _ mark | output _ _ mark => mark.type = .void
  | assignment target value _ mark => mark.type = .void ∧ value.type.isStorable = true ∧
    ∃ entry, table.find? target = some entry ∧ value.type = entry.type
  | conditional parts mark => mark.type = .void ∧ ∀ branch ∈ branches parts, branch.1.type = .bool
  | loop condition _ mark => mark.type = .void ∧ condition.type = .bool
  | binary operator left right mark =>
    (operator ∈ ["&&", "||"] ∧ left.type = .bool ∧ right.type = .bool ∧ mark.type = .bool) ∨
    (operator ∈ ["==", "!=", "<", ">", "<=", ">="] ∧ left.type.isArithmetic = true ∧
      right.type.isArithmetic = true ∧ mark.type = .bool) ∨
    (operator ∈ ["+", "-", "*", "/", "%"] ∧ left.type.isArithmetic = true ∧
      right.type.isArithmetic = true ∧ mark.type = left.type.join right.type)
  | unary operator operand mark =>
    (operator = "!" ∧ operand.type = .bool ∧ mark.type = .bool) ∨
    (operator = "-" ∧ operand.type.isArithmetic = true ∧
      mark.type = operand.type.join operand.type)
  | literal _ mark => mark.type.isStorable = true
  | format _ mark => mark.type = .string
  | var name mark => mark.type.isStorable = true ∧
    ∃ entry, table.find? name = some entry ∧ mark.type = entry.type
  | input mark => mark.type = .int

end Node

/-! ## Types -/

namespace DataType

/-- The type of arithmetic can be stored. -/
theorem isStorable_join (left right : DataType) : (left.join right).isStorable = true := by
  unfold join
  split <;> rfl

/-- The type of arithmetic on two operands, as the checker finds it. -/
theorem arithmeticResult_pair (left right : DataType) :
    arithmeticResult [left, right] = left.join right := by
  cases left <;> cases right <;> rfl

/-- The type of arithmetic on one operand, as the checker finds it. -/
theorem arithmeticResult_single (operand : DataType) :
    arithmeticResult [operand] = operand.join operand := by
  cases operand <;> rfl

end DataType

/-- The type of an operation can be stored. -/
theorem Level.isStorable_result (level : Level) (left right : DataType) :
    (level.result left right).isStorable = true := by
  cases level with
  | or | and => rfl
  | sum | product =>
    rw [result, DataType.arithmeticResult_pair]
    exact DataType.isStorable_join left right

namespace Node

variable {table after : Table} {node : Node}

/-- The outline of a node has those of its children below it. -/
theorem outline_eq (node : Node) : node.outline = .mk node (outlines node.children) := by
  cases node <;> rfl

/-- What holds of all nodes of a tree holds of its root and of those of its subtrees. -/
theorem forall_mem_preorder {holds : Node → Prop} :
    (∀ part ∈ node.preorder, holds part) ↔
      holds node ∧ ∀ child ∈ node.children, ∀ part ∈ child.preorder, holds part := by
  have hall (nodes : List Node) : (∀ part ∈ Outline.preorderAll (outlines nodes), holds part) ↔
      ∀ child ∈ nodes, ∀ part ∈ child.preorder, holds part := by
    induction nodes with
    | nil => simp [outlines, Outline.preorderAll]
    | cons first others ih =>
      rw [outlines, Outline.preorderAll, List.forall_mem_append, ih, List.forall_mem_cons]
      rfl
  rw [preorder, outline_eq, Outline.preorder, List.forall_mem_cons, hall]

/-- A typed node is a statement and has no value, or it is a format text, or its value can be
stored. -/
theorem IsTyped.type_cases (h : node.IsTyped table) :
    (node.type = .void ∧ node.isStatement = true ∧ node.isFormat = false) ∨
    (node.type = .string ∧ node.isStatement = false ∧ node.isFormat = true) ∨
    (node.type.isStorable = true ∧ node.isStatement = false ∧ node.isFormat = false) := by
  have hvalue {type : DataType} (heq : node.type = type) (h : type.isStorable = true) :
      node.type.isStorable = true := heq ▸ h
  cases node with
  | absent | bare => exact h.elim
  | program | block | output => exact .inl ⟨h, rfl, rfl⟩
  | assignment | conditional | loop => exact .inl ⟨h.1, rfl, rfl⟩
  | format => exact .inr (.inl ⟨h, rfl, rfl⟩)
  | binary =>
    refine .inr (.inr ⟨?_, rfl, rfl⟩)
    rcases h with ⟨-, -, -, h⟩ | ⟨-, -, -, h⟩ | ⟨-, -, -, h⟩
    · exact hvalue h rfl
    · exact hvalue h rfl
    · exact hvalue h (DataType.isStorable_join _ _)
  | unary =>
    refine .inr (.inr ⟨?_, rfl, rfl⟩)
    rcases h with ⟨-, -, h⟩ | ⟨-, -, h⟩
    · exact hvalue h rfl
    · exact hvalue h (DataType.isStorable_join _ _)
  | literal => exact .inr (.inr ⟨h, rfl, rfl⟩)
  | var => exact .inr (.inr ⟨h.1, rfl, rfl⟩)
  | input => exact .inr (.inr ⟨hvalue h rfl, rfl, rfl⟩)

/-- What has been read off a table is right over every later one. -/
theorem IsTyped.grows (h : node.IsTyped table) (hgrows : table.Grows after) :
    node.IsTyped after := by
  have hentry {name : String} {type : DataType} (hstorable : type.isStorable = true)
      (h : ∃ entry, table.find? name = some entry ∧ type = entry.type) :
      ∃ entry, after.find? name = some entry ∧ type = entry.type := by
    obtain ⟨entry, hfind, rfl⟩ := h
    have hknown : entry.type ≠ .unknown := by
      intro hunknown
      rw [hunknown] at hstorable
      cases hstorable
    exact ⟨entry, hgrows.known hfind hknown, rfl⟩
  cases node with
  | assignment => exact ⟨h.1, h.2.1, hentry h.2.1 h.2.2⟩
  | var => exact ⟨h.1, hentry h.1 h.2⟩
  | _ => exact h

/-- What has been read off a table for a whole tree is right over every later one. -/
theorem typed_grows (h : ∀ part ∈ node.preorder, part.IsTyped table)
    (hgrows : table.Grows after) : ∀ part ∈ node.preorder, part.IsTyped after :=
  fun part hmem => (h part hmem).grows hgrows

end Node

/-! ## Tables -/

namespace Table

variable {table after : Table} {name : String} {type : DataType}

/-- A type that can be stored may be in a plain table. -/
theorem mem_plain_of_isStorable (h : type.isStorable = true) :
    type ∈ [DataType.unknown, .int, .bool, .char, .float] := by
  cases type <;> first | cases h; done | simp

/-- A known type of a plain table can be stored. -/
theorem IsPlain.isStorable (h : table.IsPlain) {entry : Entry}
    (hfind : table.find? name = some entry) (hknown : entry.type ≠ .unknown) :
    entry.type.isStorable = true := by
  have hmem := h entry (mem_of_find? hfind).1
  generalize entry.type = type at hmem hknown
  cases type <;> first | rfl | simp at hmem hknown

/-- A declaration with a plain type leaves the table plain. -/
theorem IsPlain.declare {assignable : Bool} (h : table.IsPlain)
    (htype : type ∈ [DataType.unknown, .int, .bool, .char, .float])
    (hdeclare : table.declare name type assignable = .ok after) : after.IsPlain := by
  obtain ⟨isNew, rfl⟩ := declare_ok hdeclare
  intro entry hmem
  rcases List.mem_append.1 hmem with hmem | hmem
  · exact h entry hmem
  · rw [List.mem_singleton.1 hmem]
    exact htype

/-- An assignment with a plain type leaves the table plain. -/
theorem IsPlain.resolve (h : table.IsPlain)
    (htype : type ∈ [DataType.unknown, .int, .bool, .char, .float])
    (hresolve : table.resolve name type = .ok after) : after.IsPlain := by
  obtain ⟨_, -, ⟨-, rfl⟩ | ⟨-, -, rfl⟩⟩ := resolve_ok hresolve
  · intro entry hmem
    obtain ⟨old, hold, rfl⟩ := List.mem_map.1 hmem
    unfold retype
    split
    · exact htype
    · exact h old hold
  · exact h

end Table

/-! ## Checked trees -/

namespace Tree

variable {table after : Table} {tree : Tree} {node : Node}

/-- The type of a literal can be stored. -/
theorem isStorable_of_literalType? {kind : TokenKind} {type : DataType}
    (h : Check.literalType? kind = some type) (hstring : type ≠ .string) :
    type.isStorable = true := by
  cases kind <;> simp only [Check.literalType?] at h <;> cases h <;>
    first | rfl | exact absurd rfl hstring

/-- The type of an operation agrees with its operands. -/
theorem isTyped_operation {level : Level} {operator : String} {left right : Node}
    (hoperator : level.holds (TokenKind.ofSpelling operator) = true)
    (hleft : level.accepts left.type = true) (hright : level.accepts right.type = true)
    (line : Line) :
    (Node.binary operator left right ⟨line, level.result left.type right.type⟩).IsTyped table := by
  have hmem := Level.mem_operators hoperator
  cases level with
  | or | and =>
    refine .inl ⟨?_, of_decide_eq_true hleft, of_decide_eq_true hright, rfl⟩
    rw [Level.operators, List.mem_singleton] at hmem
    rw [hmem]
    simp
  | sum | product =>
    refine .inr (.inr ⟨?_, hleft, hright, DataType.arithmeticResult_pair _ _⟩)
    simp only [Level.operators, List.mem_cons, List.not_mem_nil, or_false] at hmem
    rcases hmem with rfl | rfl | rfl <;> simp

/-- An expression has a value that can be stored, and all its nodes are typed. -/
theorem Infers.typed (h : tree.Infers table node) (hplain : table.IsPlain) :
    node.type.isStorable = true ∧ ∀ part ∈ node.preorder, part.IsTyped table := by
  induction h with
  | @var name line entry hfind hknown =>
    have hstorable := hplain.isStorable hfind hknown
    exact ⟨hstorable, Node.forall_mem_preorder.2 ⟨⟨hstorable, entry, hfind, rfl⟩, nofun⟩⟩
  | literal hkind hstring =>
    have hstorable := isStorable_of_literalType? hkind hstring
    exact ⟨hstorable, Node.forall_mem_preorder.2 ⟨hstorable, nofun⟩⟩
  | input => exact ⟨rfl, Node.forall_mem_preorder.2 ⟨rfl, nofun⟩⟩
  | group _ ih | single _ ih => exact ih
  | minus _ harithmetic ih =>
    rw [DataType.arithmeticResult_single]
    refine ⟨DataType.isStorable_join _ _, Node.forall_mem_preorder.2 ⟨?_, ?_⟩⟩
    · exact .inr ⟨rfl, harithmetic, rfl⟩
    · exact List.forall_mem_singleton.2 ih.2
  | negation _ hbool ih =>
    refine ⟨rfl, Node.forall_mem_preorder.2 ⟨.inl ⟨rfl, hbool, rfl⟩, ?_⟩⟩
    exact List.forall_mem_singleton.2 ih.2
  | comparison _ _ hoperator hleft hright ihLeft ihRight =>
    refine ⟨rfl, Node.forall_mem_preorder.2 ⟨?_, ?_⟩⟩
    · exact .inr (.inl ⟨TokenKind.mem_of_isRelational hoperator, hleft, hright, rfl⟩)
    · exact List.forall_mem_cons.2 ⟨ihLeft.2, List.forall_mem_singleton.2 ihRight.2⟩
  | @joined level _ _ _ _ _ _ operatorLine _ _ _ hoperator hleft hright ihLeft ihRight =>
    refine ⟨level.isStorable_result _ _, Node.forall_mem_preorder.2 ⟨?_, ?_⟩⟩
    · exact isTyped_operation hoperator hleft hright operatorLine
    · exact List.forall_mem_cons.2 ⟨ihLeft.2, List.forall_mem_singleton.2 ihRight.2⟩

/-- The nodes that a tree leaves are typed over the table, and the conditions in the tail of a
conditional are truth values. -/
structure Leaves (tree : Tree) (nodes : List Node) (table : Table) : Prop where
  parts : ∀ node ∈ nodes, ∀ part ∈ node.preorder, part.IsTyped table
  branches : tree.isTail = true → ∀ branch ∈ Node.branches nodes, branch.1.type = .bool

/-- A body of typed statements is typed. -/
theorem Leaves.body {statements : List Tree} {bodyLine line : Line} {items : List Node}
    (h : (block statements bodyLine).Leaves items table) :
    ∀ part ∈ (Node.block items ⟨line, .void⟩).preorder, part.IsTyped table :=
  Node.forall_mem_preorder.2 ⟨rfl, h.parts⟩

/-- A value that is stored under a name which has its type in the last table. -/
theorem typed_assignment {name : String} {declares : Bool} {line : Line}
    (hstorable : node.type.isStorable = true) (h : ∀ part ∈ node.preorder, part.IsTyped table)
    (hgrows : table.Grows after) {entry : Entry} (hfind : after.find? name = some entry)
    (htype : node.type = entry.type) :
    ∀ part ∈ (Node.assignment name node declares ⟨line, .void⟩).preorder, part.IsTyped after := by
  refine Node.forall_mem_preorder.2 ⟨⟨rfl, hstorable, entry, hfind, htype⟩, ?_⟩
  exact List.forall_mem_singleton.2 (Node.typed_grows h hgrows)

/-- What is left of a tree is typed over the last table. -/
theorem Checks.typed {nodes : List Node} (h : tree.Checks table nodes after)
    (hplain : table.IsPlain) : after.IsPlain ∧ tree.Leaves nodes after := by
  induction h with
  | assignment _ _ hvalue hresolve =>
    obtain ⟨hstorable, htyped⟩ := hvalue.typed hplain
    have hgrows := Table.grows_of_resolve hresolve
    obtain ⟨entry, hfind, htype⟩ := Table.find?_of_resolve hresolve
    refine ⟨hplain.resolve (Table.mem_plain_of_isStorable hstorable) hresolve, ?_, nofun⟩
    exact List.forall_mem_singleton.2
      (typed_assignment hstorable htyped hgrows hfind htype.symm)
  | letFixed hvalue hdeclare | letMutable hvalue hdeclare =>
    obtain ⟨hstorable, htyped⟩ := hvalue.typed hplain
    have hgrows := Table.grows_of_declare hdeclare
    refine ⟨hplain.declare (Table.mem_plain_of_isStorable hstorable) hdeclare, ?_, nofun⟩
    exact List.forall_mem_singleton.2
      (typed_assignment hstorable htyped hgrows (Table.find?_of_declare hdeclare) rfl)
  | letUnset hdeclare =>
    exact ⟨hplain.declare (by simp) hdeclare, nofun, nofun⟩
  | ifElse hcondition hbool hstatements htail hrest ihBody ihTail =>
    obtain ⟨hplain₁, hbody⟩ := ihBody hplain
    obtain ⟨hplain₂, hparts⟩ := ihTail hplain₁
    have htest := Node.typed_grows (hcondition.typed hplain).2
      (hstatements.grows.trans hrest.grows)
    refine ⟨hplain₂, List.forall_mem_singleton.2 ?_, nofun⟩
    refine Node.forall_mem_preorder.2 ⟨⟨rfl, ?_⟩, ?_⟩
    · exact List.forall_mem_cons.2 ⟨hbool, hparts.branches htail⟩
    · exact List.forall_mem_cons.2 ⟨htest, List.forall_mem_cons.2
        ⟨Node.typed_grows hbody.body hrest.grows, hparts.parts⟩⟩
  | elseIf hcondition hbool hstatements htail hrest ihBody ihTail =>
    obtain ⟨hplain₁, hbody⟩ := ihBody hplain
    obtain ⟨hplain₂, hparts⟩ := ihTail hplain₁
    have htest := Node.typed_grows (hcondition.typed hplain).2
      (hstatements.grows.trans hrest.grows)
    refine ⟨hplain₂, ?_, fun _ => ?_⟩
    · exact List.forall_mem_cons.2 ⟨htest, List.forall_mem_cons.2
        ⟨Node.typed_grows hbody.body hrest.grows, hparts.parts⟩⟩
    · exact List.forall_mem_cons.2 ⟨hbool, hparts.branches htail⟩
  | otherwise _ ih =>
    obtain ⟨hplain₁, hbody⟩ := ih hplain
    exact ⟨hplain₁, List.forall_mem_singleton.2 hbody.body, fun _ => nofun⟩
  | loop hcondition hbool hstatements ih =>
    obtain ⟨hplain₁, hbody⟩ := ih hplain
    have htest := Node.typed_grows (hcondition.typed hplain).2 hstatements.grows
    refine ⟨hplain₁, List.forall_mem_singleton.2 ?_, nofun⟩
    refine Node.forall_mem_preorder.2 ⟨⟨rfl, hbool⟩, ?_⟩
    exact List.forall_mem_cons.2 ⟨htest, List.forall_mem_singleton.2 hbody.body⟩
  | @output table format arguments nodes line harguments =>
    have hformat : ∀ part ∈ (Node.format format ⟨line, .string⟩).preorder, part.IsTyped table :=
      Node.forall_mem_preorder.2 ⟨rfl, nofun⟩
    refine ⟨hplain, List.forall_mem_singleton.2 ?_, nofun⟩
    refine Node.forall_mem_preorder.2 ⟨rfl, ?_⟩
    refine List.forall_mem_cons.2 ⟨hformat, Infers.forall_nodes harguments ?_⟩
    exact fun _ _ _ hnode => (hnode.typed hplain).2
  | noElse => exact ⟨hplain, nofun, fun _ => nofun⟩
  | nil => exact ⟨hplain, nofun, nofun⟩
  | cons _ _ hstatements ihFirst ihOthers =>
    obtain ⟨hplain₁, hfirst⟩ := ihFirst hplain
    obtain ⟨hplain₂, hothers⟩ := ihOthers hplain₁
    refine ⟨hplain₂, List.forall_mem_append.2 ⟨?_, hothers.parts⟩, nofun⟩
    exact fun node hmem => Node.typed_grows (hfirst.parts node hmem) hstatements.grows

/-- The checker is sound. In the tree it makes of a program that has been read, no type is
unknown, statements alone have no value, format texts alone are strings, and every node has the
type that its operator, its operands and the last table give it. A name whose type is still
unknown in the last table is neither assigned to nor read. -/
theorem check_typed {readBudget checkBudget : Nat} {tokens : List Token} {root : Node}
    {state : CheckState} (hspelled : ∀ token ∈ tokens, token.IsSpelled)
    (hread : ofTokens readBudget tokens = .ok tree) (hplain : table.IsPlain)
    (hcheck : tree.checkProgram checkBudget { table } = .ok root state) :
    (∀ node ∈ root.preorder, node.type ≠ .unknown ∧
      (node.type = .void ↔ node.isStatement = true) ∧
      (node.type = .string ↔ node.isFormat = true) ∧ node.IsTyped state.table) ∧
    ∀ entry ∈ state.table.entries, entry.type = .unknown → ∀ node ∈ root.preorder,
      (∀ value declares mark, node ≠ .assignment entry.name value declares mark) ∧
      ∀ mark, node ≠ .var entry.name mark := by
  obtain ⟨statements, line, rfl, hends⟩ :=
    (derives_of_ofTokens hspelled hread).1.checkProgram_ends checkBudget table
  have htyped : ∀ node ∈ root.preorder, node.IsTyped state.table := by
    obtain ⟨items, rfl, hitems⟩ := hends.of_ok hcheck
    obtain ⟨-, hleaves⟩ := hitems.typed hplain
    exact Node.forall_mem_preorder.2 ⟨rfl, hleaves.parts⟩
  refine ⟨fun node hmem => ?_, fun entry hentry hunknown node hmem => ?_⟩
  · have hnode := htyped node hmem
    rcases hnode.type_cases with ⟨htype, hstatement, hformat⟩ | ⟨htype, hstatement, hformat⟩ |
      ⟨htype, hstatement, hformat⟩
    · simp [htype, hstatement, hformat, hnode]
    · simp [htype, hstatement, hformat, hnode]
    · refine ⟨?_, ?_, ?_, hnode⟩
      · intro h
        rw [h] at htype
        cases htype
      · rw [hstatement]
        exact ⟨fun h => (by rw [h] at htype; cases htype), nofun⟩
      · rw [hformat]
        exact ⟨fun h => (by rw [h] at htype; cases htype), nofun⟩
  · have hfind := Table.find?_of_mem hentry
    have hnode := htyped node hmem
    have hcontra {type : DataType} (hstorable : type.isStorable = true)
        (h : ∃ entry', state.table.find? entry.name = some entry' ∧ type = entry'.type) :
        False := by
      obtain ⟨entry', hfind', rfl⟩ := h
      rw [hfind] at hfind'
      cases hfind'
      rw [hunknown] at hstorable
      cases hstorable
    refine ⟨?_, ?_⟩
    · rintro value declares mark rfl
      exact hcontra hnode.2.1 hnode.2.2
    · rintro mark rfl
      exact hcontra hnode.1 hnode.2

/-- A name that gets its type from the first value assigned to it. -/
theorem check_typed_deferred :
    ∃ root state, (block [letMutable "x" absent 1, assignment "x" (literal .intLit "1" 2) 2]
        1).checkProgram 3 {} = .ok root state ∧
      (Node.assignment "x" (.literal "1" ⟨some 2, .int⟩) false ⟨some 2, .void⟩).IsTyped
        state.table ∧
      state.table.entries = [⟨"x", .int, true, false⟩] := by
  have hspelled : ∀ token ∈ ([⟨.kwLet, "let", 1⟩, ⟨.kwMut, "mut", 1⟩, ⟨.ident, "x", 1⟩,
      ⟨.semicolon, ";", 1⟩, ⟨.ident, "x", 2⟩, ⟨.assign, "=", 2⟩, ⟨.intLit, "1", 2⟩,
      ⟨.semicolon, ";", 2⟩, ⟨.endOfFile, "", 3⟩] : List Token), token.IsSpelled := by
    simp [Token.IsSpelled, TokenKind.spelling?]
  have hcheck : (block [letMutable "x" absent 1, assignment "x" (literal .intLit "1" 2) 2]
      1).checkProgram 3 {} = .ok
        (.program [.assignment "x" (.literal "1" ⟨some 2, .int⟩) false ⟨some 2, .void⟩]
          ⟨some 1, .void⟩)
        ⟨⟨[⟨"x", .int, true, false⟩], by simp⟩, 0, 2⟩ := rfl
  refine ⟨_, _, hcheck, ?_, rfl⟩
  have hread : ofTokens 12 [⟨.kwLet, "let", 1⟩, ⟨.kwMut, "mut", 1⟩, ⟨.ident, "x", 1⟩,
      ⟨.semicolon, ";", 1⟩, ⟨.ident, "x", 2⟩, ⟨.assign, "=", 2⟩, ⟨.intLit, "1", 2⟩,
      ⟨.semicolon, ";", 2⟩, ⟨.endOfFile, "", 3⟩] =
      .ok (block [letMutable "x" absent 1, assignment "x" (literal .intLit "1" 2) 2] 1) := rfl
  have hplain : Table.empty.IsPlain := by simp [Table.IsPlain, Table.empty]
  refine ((check_typed hspelled hread hplain hcheck).1 _ ?_).2.2.2
  simp [Node.preorder, Node.outline, Node.outlines, Outline.preorder, Outline.preorderAll]

end Tree

end ThreeAddress
