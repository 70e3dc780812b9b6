import ThreeAddress.Proofs.Check.Determinism
import ThreeAddress.Proofs.Check.Literals
import ThreeAddress.Proofs.Check.Renaming
import ThreeAddress.Proofs.Token.Separation

/-!
# Expressions in full

A checked expression can be written with every operator in parentheses of its own (`Node.full`).
Written that way it is a factor of the grammar, and the checker gives it the same node again: none
of the levels of operators, the order in which a chain is joined, and the parentheses that were
there before is needed to tell the tree (`Tree.Infers.exists_full`).

A program may have the texts of its expressions exchanged while the rest stays (`Tree.written`).
With every expression in full it is checked to the same nodes and the same table, up to lines
(`Tree.Derives.exists_rewritten`).
-/

namespace ThreeAddress

/-! ## Texts -/

/-- A token with one spelling is a token of some source. -/
theorem TokenKind.isProper_piece {kind : TokenKind} (h : kind.spelling?.isSome = true) :
    kind.piece.IsProper := by
  refine Piece.isProper_iff.2 ⟨.spelled ?_, ?_⟩
  · cases kind <;> first | rfl | cases h
  · cases kind <;> decide

namespace Node

/-- The node with every line set to zero. -/
def unlined (node : Node) : Node := node.reline fun _ => 0

@[simp] theorem type_unlined (node : Node) : node.unlined.type = node.type := type_reline _ node

@[simp] theorem unlined_unlined (node : Node) : node.unlined.unlined = node.unlined :=
  reline_reline _ _ node

section
variable {line : Line} {type : DataType} {condition body text : Node} {nodes : List Node}

@[simp] theorem unlined_program : (program nodes ⟨some line, type⟩).unlined =
    program (nodes.map unlined) ⟨some 0, type⟩ := congrArg (program · _) (relineAll_eq _ nodes)

@[simp] theorem unlined_block : (block nodes ⟨some line, type⟩).unlined =
    block (nodes.map unlined) ⟨some 0, type⟩ := congrArg (block · _) (relineAll_eq _ nodes)

@[simp] theorem unlined_conditional : (conditional nodes ⟨some line, type⟩).unlined =
    conditional (nodes.map unlined) ⟨some 0, type⟩ :=
  congrArg (conditional · _) (relineAll_eq _ nodes)

@[simp] theorem unlined_loop : (loop condition body ⟨some line, type⟩).unlined =
    loop condition.unlined body.unlined ⟨some 0, type⟩ := rfl

@[simp] theorem unlined_format {lexeme : String} :
    (format lexeme ⟨some line, type⟩).unlined = format lexeme ⟨some 0, type⟩ := rfl

@[simp] theorem unlined_output : (output text nodes ⟨some line, type⟩).unlined =
    output text.unlined (nodes.map unlined) ⟨some 0, type⟩ :=
  congrArg (output _ · _) (relineAll_eq _ nodes)

end

/-- The texts of an expression with every operator in parentheses of its own. What is negated
stands between parentheses besides. -/
def full : Node → List String
  | binary operator left right _ => "(" :: (left.full ++ operator :: (right.full ++ [")"]))
  | unary operator operand _ =>
    if operator = "!" then "(" :: "!" :: "(" :: (operand.full ++ [")", ")"])
    else "(" :: operator :: (operand.full ++ [")"])
  | literal lexeme _ => [lexeme]
  | var name _ => [name]
  | input _ => ["input"]
  | absent | bare _ | program .. | block .. | assignment .. | output .. | conditional .. | loop ..
  | format .. => []

end Node

namespace Tree

/-- The texts of the tokens of a tree. -/
def texts (tree : Tree) : List String := tree.spelling.map Prod.snd

section
variable {name format : String} {value condition body tail inner : Tree}
  {statements arguments : List Tree} {line : Line}

@[simp] theorem texts_minus : (minus inner line).texts = "-" :: inner.texts := rfl

@[simp] theorem texts_group : (group inner line).texts = "(" :: (inner.texts ++ [")"]) := by
  simp only [texts, spelling, List.map_cons, List.map_append, List.map_nil]
  rfl

@[simp] theorem texts_negation :
    (negation inner line).texts = "!" :: "(" :: (inner.texts ++ [")"]) := by
  simp only [texts, spelling, List.map_cons, List.map_append, List.map_nil]
  rfl

@[simp] theorem texts_assignment :
    (assignment name value line).texts = name :: "=" :: value.texts := rfl

@[simp] theorem texts_letFixed :
    (letFixed name value line).texts = "let" :: name :: "=" :: value.texts := rfl

theorem texts_letMutable (h : value ≠ absent) :
    (letMutable name value line).texts = "let" :: "mut" :: name :: "=" :: value.texts := by
  rw [texts, spelling, initialSign_of_ne_absent h]
  rfl

@[simp] theorem texts_ifElse : (ifElse condition body tail line).texts =
    "if" :: (condition.texts ++ "\x7b" :: (body.texts ++ "\x7d" :: tail.texts)) := by
  simp only [texts, spelling, List.map_cons, List.map_append]
  rfl

@[simp] theorem texts_elseIf : (elseIf condition body tail line).texts =
    "else" :: "if" :: (condition.texts ++ "\x7b" :: (body.texts ++ "\x7d" :: tail.texts)) := by
  simp only [texts, spelling, List.map_cons, List.map_append]
  rfl

@[simp] theorem texts_otherwise : (otherwise body line).texts =
    "else" :: "\x7b" :: (body.texts ++ ["\x7d"]) := by
  simp only [texts, spelling, List.map_cons, List.map_append, List.map_nil]
  rfl

@[simp] theorem texts_loop : (loop condition body line).texts =
    "while" :: (condition.texts ++ "\x7b" :: (body.texts ++ ["\x7d"])) := by
  simp only [texts, spelling, List.map_cons, List.map_append, List.map_nil]
  rfl

@[simp] theorem texts_output : (output format arguments line).texts =
    "output" :: format :: arguments.flatMap fun argument => "," :: argument.texts := by
  have harguments : (argumentsSpelling arguments).map Prod.snd =
      arguments.flatMap fun argument => "," :: argument.texts := by
    induction arguments with
    | nil => rfl
    | cons first others ih =>
      rw [argumentsSpelling, List.map_cons, List.map_append, ih]
      rfl
  rw [texts, spelling, List.map_cons, List.map_cons, harguments]
  rfl

@[simp] theorem texts_block_cons : (block (value :: statements) line).texts =
    value.texts ++ ";" :: (block statements line).texts := by
  simp only [texts, spelling, statementsSpelling, List.map_append, List.map_cons]
  rfl

end

/-- How many nodes a statement leaves. -/
def nodeCount : Tree → Nat
  | letMutable _ absent _ => 0
  | _ => 1

mutual
/-- The texts of a program with other texts for its expressions. A first value, an assigned value,
a condition or an argument of a print is written as its tree and its node say; all else is written
as it stands. -/
def written (write : Tree → Node → List String) : Tree → List Node → List String
  | block statements _, nodes => writtenAll write statements nodes
  | assignment name value _, .assignment _ node _ _ :: _ => name :: "=" :: write value node
  | letFixed name value _, .assignment _ node _ _ :: _ => "let" :: name :: "=" :: write value node
  | letMutable name value _, .assignment _ node _ _ :: _ =>
    "let" :: "mut" :: name :: "=" :: write value node
  | letMutable name _ _, _ => ["let", "mut", name]
  | ifElse condition body tail _, .conditional (test :: inner :: parts) _ :: _ =>
    "if" :: (write condition test ++ "\x7b" ::
      (written write body inner.children ++ "\x7d" :: written write tail parts))
  | elseIf condition body tail _, test :: inner :: parts =>
    "else" :: "if" :: (write condition test ++ "\x7b" ::
      (written write body inner.children ++ "\x7d" :: written write tail parts))
  | otherwise body _, inner :: _ =>
    "else" :: "\x7b" :: (written write body inner.children ++ ["\x7d"])
  | loop condition body _, .loop test inner _ :: _ =>
    "while" :: (write condition test ++ "\x7b" ::
      (written write body inner.children ++ ["\x7d"]))
  | output format arguments _, .output _ nodes _ :: _ =>
    "output" :: format ::
      (arguments.zip nodes).flatMap fun part => "," :: write part.1 part.2
  | _, _ => []

/-- The texts of statements, each closed by a semicolon. -/
def writtenAll (write : Tree → Node → List String) : List Tree → List Node → List String
  | [], _ => []
  | statement :: statements, nodes =>
    written write statement (nodes.take statement.nodeCount) ++ ";" ::
      writtenAll write statements (nodes.drop statement.nodeCount)
end

/-! ## One expression -/

section
variable {tree : Tree} {level : Level}

/-- A factor alone is a sum. -/
theorem Derives.sum_of_factor (h : tree.Derives .factor) : tree.Derives .sum :=
  @Derives.single _ .sum _ rfl (@Derives.single _ .product _ rfl h)

/-- What may be negated is a relation. -/
theorem Derives.relation_of_negatable (h : tree.Derives .negatable) : tree.Derives .relation :=
  @Derives.single _ .or _ rfl (@Derives.single _ .and _ rfl h)

/-- A factor alone is a relation. -/
theorem Derives.relation_of_factor (h : tree.Derives .factor) : tree.Derives .relation :=
  .relation_of_negatable (.plain h.sum_of_factor)

/-- A factor may stand between the operators of a level. -/
theorem Derives.part_of_factor (h : tree.Derives .factor) : tree.Derives level.part := by
  cases level with
  | or => exact @Derives.single _ .and _ rfl (.plain h.sum_of_factor)
  | and => exact .plain h.sum_of_factor
  | sum => exact @Derives.single _ .product _ rfl h
  | product => exact h

/-- A row of any level is a relation. -/
theorem Derives.relation_of_row (h : tree.Derives level.row) : tree.Derives .relation := by
  cases level with
  | or => exact h
  | and => exact @Derives.single _ .or _ rfl h
  | sum => exact .relation_of_negatable (.plain h)
  | product => exact .relation_of_negatable (.plain (@Derives.single _ .sum _ rfl h))

end

/-- Every token of the tree is one of some source. -/
def IsProper (tree : Tree) : Prop := ∀ piece ∈ tree.spelling, piece.IsProper

/-- A tree whose tokens are among those of a proper one is proper. -/
theorem IsProper.mono {tree part : Tree} (h : tree.IsProper)
    (hpart : part.spelling.Sublist tree.spelling) : part.IsProper :=
  fun piece hpiece => h piece (hpart.subset hpiece)

/-- A part of a proper tree is proper. -/
theorem IsProper.part {tree part : Tree} (h : tree.IsProper) (hpart : part ∈ tree.parts) :
    part.IsProper := h.mono (spelling_sublist part hpart)

/-- A factor that is a node in full, and has this node. -/
structure IsFull (table : Table) (node : Node) (tree : Tree) : Prop where
  derives : tree.Derives .factor
  texts : tree.texts = node.full
  infers : tree.Infers table node.unlined
  proper : tree.IsProper

/-- A relation between parentheses. -/
theorem IsFull.group {table : Table} {node : Node} {inner : Tree}
    (hderives : inner.Derives .relation) (htexts : "(" :: (inner.texts ++ [")"]) = node.full)
    (hinfers : inner.Infers table node.unlined) (hproper : inner.IsProper) :
    (Tree.group inner 0).IsFull table node where
  derives := .group hderives
  texts := texts_group.trans htexts
  infers := .group hinfers
  proper := by
    simp only [IsProper, spelling, List.forall_mem_cons, List.forall_mem_append]
    exact ⟨TokenKind.isProper_piece rfl, hproper, TokenKind.isProper_piece rfl, nofun⟩

/-- An operator between nodes in full. -/
theorem IsFull.binary {table : Table} {first second : Node} {left right old inner : Tree}
    {operator : String} {operatorLine : Line} {type : DataType}
    (hleft : left.IsFull table first) (hright : right.IsFull table second)
    (hold : (operation operator old operatorLine).IsProper)
    (hderives : inner.Derives .relation)
    (hspelling : inner.spelling = left.spelling ++ (operation operator right 0).spelling)
    (hinfers : inner.Infers table (.binary operator first.unlined second.unlined ⟨some 0, type⟩)) :
    (Tree.group inner 0).IsFull table (.binary operator first second ⟨operatorLine, type⟩) := by
  have htexts : inner.texts = first.full ++ operator :: second.full := by
    rw [Tree.texts, hspelling, List.map_append, ← hleft.texts, ← hright.texts]
    rfl
  refine .group hderives (by simp [Node.full, htexts]) hinfers ?_
  rw [IsProper, hspelling, List.forall_mem_append]
  exact ⟨hleft.proper, List.forall_mem_cons.2 ⟨(List.forall_mem_cons.1 hold).1, hright.proper⟩⟩

/-- An expression can be written in full, and then has the same node. -/
theorem Infers.exists_full {table : Table} {tree : Tree} {node : Node}
    (h : tree.Infers table node) (hproper : tree.IsProper) :
    ∃ other : Tree, other.IsFull table node := by
  induction h with
  | @var name line entry hfind hknown =>
    exact ⟨.var name 0, .var, rfl, .var hfind hknown, hproper⟩
  | @literal kind lexeme line type hkind htype =>
    obtain ⟨-, hliteral⟩ := DataType.literalKind?_of_literalType? hkind htype
    exact ⟨.literal kind lexeme 0, .literal hliteral, rfl, .literal hkind htype, hproper⟩
  | input => exact ⟨.input 0, .input, rfl, .input, hproper⟩
  | group _ ih => exact ih (hproper.part (.head _))
  | minus _ hnumber ih =>
    obtain ⟨operand, hfull⟩ := ih (hproper.part (.head _))
    refine ⟨.group (.minus operand 0) 0,
      .group (.relation_of_factor (.minus hfull.derives)) ?_ ?_ ?_⟩
    · simp [Node.full, hfull.texts]
    · have hinfers := @Infers.minus table operand _ 0 hfull.infers (by simpa using hnumber)
      rwa [Node.type_unlined] at hinfers
    · exact List.forall_mem_cons.2 ⟨TokenKind.isProper_piece rfl, hfull.proper⟩
  | negation _ hbool ih =>
    obtain ⟨operand, hfull⟩ := ih (hproper.part (.head _))
    refine ⟨.group (.negation operand 0) 0,
      .group (.relation_of_negatable (.negation (.relation_of_factor hfull.derives))) ?_ ?_ ?_⟩
    · simp [Node.full, hfull.texts]
    · exact .negation hfull.infers (by simpa using hbool)
    · simp only [IsProper, spelling, List.forall_mem_cons, List.forall_mem_append]
      exact ⟨TokenKind.isProper_piece rfl, TokenKind.isProper_piece rfl, hfull.proper,
        TokenKind.isProper_piece rfl, nofun⟩
  | @comparison _ _ _ _ operator _ _ _ _ hoperator hfirst hsecond ihLeft ihRight =>
    have hold := hproper.part (.tail _ (.head _))
    obtain ⟨left, hleft⟩ := ihLeft (hproper.part (.head _))
    obtain ⟨right, hright⟩ := ihRight (hold.part (.head _))
    refine ⟨.group (.comparison left (.operation operator right 0) 0) 0,
      hleft.binary hright hold ?_ rfl ?_⟩
    · exact .relation_of_negatable
        (.comparison hleft.derives.sum_of_factor hoperator hright.derives.sum_of_factor)
    · exact .comparison hleft.infers hright.infers hoperator (by simpa using hfirst)
        (by simpa using hsecond)
  | single _ ih => exact ih (hproper.part (.head _))
  | @joined level _ _ operations _ _ operator _ _ _ _ hholds hfirst hsecond ihLeft ihRight =>
    have hold := hproper.part (.tail _ (List.mem_append_right operations (.head _)))
    obtain ⟨left, hleft⟩ := ihLeft (hproper.mono (chain_sublist _ _ _ _ _))
    obtain ⟨right, hright⟩ := ihRight (hold.part (.head _))
    refine ⟨.group (.chain level left [.operation operator right 0] 0) 0,
      hleft.binary hright hold ?_ ?_ ?_⟩
    · exact .relation_of_row (.chain rfl hleft.derives.part_of_factor (List.cons_ne_nil _ _)
        (List.forall_mem_singleton.2 hholds)
        (List.forall_mem_singleton.2 hright.derives.part_of_factor))
    · simp only [spelling, operationsSpelling, List.append_nil]
    · have hinfers := @Infers.joined table level left right [] _ _ operator 0 0
        (.single hleft.infers) hright.infers hholds (by simpa using hfirst) (by simpa using hsecond)
      rwa [Node.type_unlined, Node.type_unlined] at hinfers

/-! ## A whole program -/

variable {phrase : Phrase} {table after : Table} {tree : Tree} {nodes : List Node}

/-- A declaration without a value leaves no node. -/
theorem Checks.of_letUnset {name : String} {line : Line}
    (h : (Tree.letMutable name .absent line).Checks table nodes after) :
    nodes = [] ∧ table.declare name .unknown true = .ok after := by
  cases h with
  | letUnset hdeclare => exact ⟨rfl, hdeclare⟩
  | letMutable hvalue => cases hvalue

/-- A statement leaves one node or none. -/
theorem Derives.length_nodes (h : tree.Derives .statement)
    (hchecks : tree.Checks table nodes after) : nodes.length = tree.nodeCount := by
  cases h with
  | single hrow => rename_i level _; cases level <;> cases hrow
  | chain hrow => rename_i level _ _ _ _ _ _ _; cases level <;> cases hrow
  | letUnset =>
    obtain ⟨rfl, -⟩ := hchecks.of_letUnset
    rfl
  | @letMutable name value line =>
    cases hchecks with
    | letUnset => rfl
    | letMutable hvalue => cases value <;> first | rfl | cases hvalue
  | _ =>
    cases hchecks
    rfl

/-- A program written with the texts of its own expressions is spelled as it is. -/
theorem Derives.written_texts (h : tree.Derives phrase) (hchecks : tree.Checks table nodes after) :
    tree.written (fun part _ => part.texts) nodes = tree.texts := by
  induction h generalizing table nodes after with
  | @program statements line hstatements ih =>
    rw [written]
    induction statements generalizing table nodes with
    | nil => rfl
    | cons statement statements ihAll =>
      cases hchecks with
      | cons _ hstatement hothers =>
        have hlength := (hstatements _ (.head _)).length_nodes hstatement
        rw [writtenAll, List.take_left' hlength, List.drop_left' hlength,
          ih _ (.head _) hstatement,
          ihAll (fun other hmem => hstatements other (.tail _ hmem))
            (fun other hmem => ih other (.tail _ hmem)) hothers, texts_block_cons]
  | block _ ih | plain _ ih | single _ _ ih => exact ih hchecks
  | assignment | letFixed =>
    cases hchecks
    rfl
  | letUnset =>
    obtain ⟨rfl, -⟩ := hchecks.of_letUnset
    rfl
  | letMutable hvalue =>
    rw [texts_letMutable (hvalue.ne_absent (by simp))]
    cases hchecks with
    | letUnset => exact absurd rfl (hvalue.ne_absent (by simp))
    | letMutable => rfl
  | ifElse _ _ _ _ ihBody ihTail =>
    cases hchecks with
    | ifElse _ _ hbody _ htail =>
      rw [written, Node.children, ihBody hbody, ihTail htail, texts_ifElse]
  | elseIf _ _ _ _ ihBody ihTail =>
    cases hchecks with
    | elseIf _ _ hbody _ htail =>
      rw [written, Node.children, ihBody hbody, ihTail htail, texts_elseIf]
  | otherwise _ ihBody =>
    cases hchecks with
    | otherwise hbody => rw [written, Node.children, ihBody hbody, texts_otherwise]
  | loop _ _ _ ihBody =>
    cases hchecks with
    | loop _ _ hbody => rw [written, Node.children, ihBody hbody, texts_loop]
  | @output format arguments line =>
    cases hchecks with
    | @output _ _ _ nodes _ harguments =>
      have hfst : (arguments.zip nodes).map Prod.fst = arguments :=
        List.map_fst_zip (Nat.le_of_eq harguments.length_eq)
      rw [written, texts_output]
      conv_rhs => rw [← hfst, List.flatMap_map]
  | noElse =>
    cases hchecks
    rfl
  | _ => cases hchecks

/-- A tree for a phrase, on line zero, that is a checked one with every expression in full. It is
checked to the same nodes and the same table. -/
structure IsRewritten (phrase : Phrase) (tree : Tree) (table : Table) (nodes : List Node)
    (after : Table) (other : Tree) : Prop where
  derives : other.Derives phrase
  texts : other.texts = tree.written (fun _ node => node.full) nodes
  checks : other.Checks table (nodes.map Node.unlined) after
  proper : other.IsProper
  line : other.line = 0

/-- What is rewritten to a program is a block. -/
theorem IsRewritten.exists_block {other : Tree}
    (h : IsRewritten .program tree table nodes after other) :
    ∃ statements, other = .block statements 0 := by
  obtain ⟨statements, line, rfl, -⟩ := h.derives.program_inv
  obtain rfl : line = 0 := h.line
  exact ⟨statements, rfl⟩

/-- What is rewritten to a body is a block. -/
theorem IsRewritten.exists_body {other : Tree}
    (h : IsRewritten .block tree table nodes after other) :
    ∃ statements, other = .block statements 0 :=
  IsRewritten.exists_block ⟨h.derives.block_inv, h.texts, h.checks, h.proper, h.line⟩

/-- A statement and those behind it. -/
theorem IsRewritten.cons {statement first rest : Tree} {statements : List Tree} {line : Line}
    {middle : Table} {items others : List Node} (hlength : items.length = statement.nodeCount)
    (hfirst : IsRewritten .statement statement table items middle first)
    (hrest : IsRewritten .program (.block statements line) middle others after rest) :
    ∃ other, IsRewritten .program (.block (statement :: statements) line) table (items ++ others)
      after other := by
  obtain ⟨rewritten, rfl⟩ := hrest.exists_block
  obtain ⟨_, _, hblock, hderives⟩ := hrest.derives.program_inv
  cases hblock
  refine ⟨.block (first :: rewritten) 0, ⟨?_, ?_, ?_, ?_, rfl⟩⟩
  · exact .program (List.forall_mem_cons.2 ⟨hfirst.derives, hderives⟩)
  · rw [texts_block_cons, hfirst.texts, hrest.texts, written, written, writtenAll,
      List.take_left' hlength, List.drop_left' hlength]
  · rw [List.map_append]
    exact .cons hfirst.derives.isTail_statement hfirst.checks hrest.checks
  · simp only [IsProper, spelling, statementsSpelling, List.forall_mem_append,
      List.forall_mem_cons]
    exact ⟨hfirst.proper, TokenKind.isProper_piece rfl, hrest.proper⟩

/-- The arguments of a print can be written in full, and then have the same nodes. -/
theorem Infers.exists_full_arguments {arguments : List Tree}
    (h : List.Forall₂ (Infers table) arguments nodes)
    (hproper : ∀ argument ∈ arguments, argument.IsProper) :
    ∃ others, (∀ other ∈ others, other.Derives .relation) ∧
      (others.flatMap fun other => "," :: other.texts) =
        nodes.flatMap (fun node => "," :: node.full) ∧
      List.Forall₂ (Infers table) others (nodes.map Node.unlined) ∧
      ∀ piece ∈ argumentsSpelling others, piece.IsProper := by
  induction h with
  | nil => exact ⟨[], nofun, rfl, .nil, nofun⟩
  | cons hfirst _ ih =>
    obtain ⟨hproperFirst, hproperOthers⟩ := List.forall_mem_cons.1 hproper
    obtain ⟨first, hfull⟩ := hfirst.exists_full hproperFirst
    obtain ⟨others, hderives, htexts, hinfers, hothers⟩ := ih hproperOthers
    refine ⟨first :: others, ?_, ?_, .cons hfull.infers hinfers, ?_⟩
    · exact List.forall_mem_cons.2 ⟨hfull.derives.relation_of_factor, hderives⟩
    · rw [List.flatMap_cons, List.flatMap_cons, hfull.texts, htexts]
    · simp only [argumentsSpelling, List.forall_mem_cons, List.forall_mem_append]
      exact ⟨TokenKind.isProper_piece rfl, hfull.proper, hothers⟩

/-- A checked program can be written with every expression in full, and then is checked to the same
nodes and the same table. -/
theorem Derives.exists_rewritten (h : tree.Derives phrase) (hproper : tree.IsProper)
    (hchecks : tree.Checks table nodes after) :
    ∃ other, IsRewritten phrase tree table nodes after other := by
  induction h generalizing table nodes after with
  | @program statements line hstatements ih =>
    induction statements generalizing table nodes with
    | nil =>
      cases hchecks
      exact ⟨.block [] 0, .program nofun, rfl, .nil, nofun, rfl⟩
    | cons statement statements ihAll =>
      cases hchecks with
      | @cons _ _ _ _ _ items others _ _ hstatement hothers =>
        obtain ⟨first, hfirst⟩ := ih _ (.head _) (hproper.part (.head _)) hstatement
        obtain ⟨rest, hrest⟩ := ihAll (fun other hmem => hstatements other (.tail _ hmem))
          (fun other hmem => ih other (.tail _ hmem))
          (hproper.mono (block_sublist statement statements line)) hothers
        exact hfirst.cons ((hstatements _ (.head _)).length_nodes hstatement) hrest
  | block _ ih =>
    obtain ⟨other, hother⟩ := ih hproper hchecks
    exact ⟨other, .block hother.derives, hother.texts, hother.checks, hother.proper, hother.line⟩
  | plain _ ih =>
    obtain ⟨other, hother⟩ := ih hproper hchecks
    exact ⟨other, .plain hother.derives, hother.texts, hother.checks, hother.proper, hother.line⟩
  | single hrow _ ih =>
    obtain ⟨other, hother⟩ := ih hproper hchecks
    exact ⟨other, .single hrow hother.derives, hother.texts, hother.checks, hother.proper,
      hother.line⟩
  | @assignment name value line =>
    cases hchecks with
    | assignment hfind hassignable hvalue hresolve =>
      obtain ⟨value', hfull⟩ := hvalue.exists_full (hproper.part (.head _))
      refine ⟨.assignment name value' 0, .assignment hfull.derives.relation_of_factor, ?_,
        .assignment hfind hassignable hfull.infers (by simpa using hresolve), ?_, rfl⟩
      · rw [texts_assignment, hfull.texts, written]
      · simp only [IsProper, spelling, List.forall_mem_cons] at hproper ⊢
        exact ⟨hproper.1, hproper.2.1, hfull.proper⟩
  | @letFixed name value line =>
    cases hchecks with
    | letFixed hvalue hdeclare =>
      obtain ⟨value', hfull⟩ := hvalue.exists_full (hproper.part (.head _))
      refine ⟨.letFixed name value' 0, .letFixed hfull.derives.relation_of_factor, ?_,
        .letFixed hfull.infers (by simpa using hdeclare), ?_, rfl⟩
      · rw [texts_letFixed, hfull.texts, written]
      · simp only [IsProper, spelling, List.forall_mem_cons] at hproper ⊢
        exact ⟨hproper.1, hproper.2.1, hproper.2.2.1, hfull.proper⟩
  | @letUnset name line =>
    obtain ⟨rfl, hdeclare⟩ := hchecks.of_letUnset
    exact ⟨.letMutable name .absent 0, .letUnset, rfl, .letUnset hdeclare, hproper, rfl⟩
  | @letMutable name value line hrelation =>
    cases hchecks with
    | letUnset => exact absurd rfl (hrelation.ne_absent (by simp))
    | letMutable hvalue hdeclare =>
      obtain ⟨value', hfull⟩ := hvalue.exists_full (hproper.part (.head _))
      have hderives := hfull.derives.relation_of_factor
      have hthere := hderives.ne_absent (by simp)
      refine ⟨.letMutable name value' 0, .letMutable hderives, ?_,
        .letMutable hfull.infers (by simpa using hdeclare), ?_, rfl⟩
      · rw [texts_letMutable hthere, hfull.texts, written]
      · simp only [IsProper, spelling, initialSign_of_ne_absent hthere,
          initialSign_of_ne_absent (hrelation.ne_absent (by simp)), List.forall_mem_append,
          List.forall_mem_cons] at hproper ⊢
        exact ⟨hproper.1, hproper.2.1, hproper.2.2.1, hproper.2.2.2.1, hfull.proper⟩
  | @ifElse condition body tail line _ _ _ _ ihBody ihTail =>
    cases hchecks with
    | ifElse htest hbool hbody _ htail =>
      obtain ⟨condition', hfull⟩ := htest.exists_full (hproper.part (.head _))
      obtain ⟨body', hbody'⟩ := ihBody (hproper.part (.tail _ (.head _))) hbody
      obtain ⟨tail', htail'⟩ := ihTail (hproper.part (.tail _ (.tail _ (.head _)))) htail
      obtain ⟨statements, rfl⟩ := hbody'.exists_body
      refine ⟨.ifElse condition' (.block statements 0) tail' 0,
        .ifElse hfull.derives.relation_of_factor hbody'.derives htail'.derives, ?_, ?_, ?_, rfl⟩
      · rw [texts_ifElse, hfull.texts, hbody'.texts, htail'.texts]
        rfl
      · simpa using Checks.ifElse hfull.infers (by simpa using hbool) hbody'.checks
          htail'.derives.isTail htail'.checks
      · simp only [IsProper, spelling, List.forall_mem_cons, List.forall_mem_append]
        exact ⟨TokenKind.isProper_piece rfl, hfull.proper, TokenKind.isProper_piece rfl,
          hbody'.proper, TokenKind.isProper_piece rfl, htail'.proper⟩
  | @elseIf condition body tail line _ _ _ _ ihBody ihTail =>
    cases hchecks with
    | elseIf htest hbool hbody _ htail =>
      obtain ⟨condition', hfull⟩ := htest.exists_full (hproper.part (.head _))
      obtain ⟨body', hbody'⟩ := ihBody (hproper.part (.tail _ (.head _))) hbody
      obtain ⟨tail', htail'⟩ := ihTail (hproper.part (.tail _ (.tail _ (.head _)))) htail
      obtain ⟨statements, rfl⟩ := hbody'.exists_body
      refine ⟨.elseIf condition' (.block statements 0) tail' 0,
        .elseIf hfull.derives.relation_of_factor hbody'.derives htail'.derives, ?_, ?_, ?_, rfl⟩
      · rw [texts_elseIf, hfull.texts, hbody'.texts, htail'.texts]
        rfl
      · simpa using @Checks.elseIf _ _ _ _ _ _ _ _ _ _ 0 hfull.infers (by simpa using hbool)
          hbody'.checks htail'.derives.isTail htail'.checks
      · simp only [IsProper, spelling, List.forall_mem_cons, List.forall_mem_append]
        exact ⟨TokenKind.isProper_piece rfl, TokenKind.isProper_piece rfl, hfull.proper,
          TokenKind.isProper_piece rfl, hbody'.proper, TokenKind.isProper_piece rfl,
          htail'.proper⟩
  | otherwise _ ihBody =>
    cases hchecks with
    | otherwise hbody =>
      obtain ⟨body', hbody'⟩ := ihBody (hproper.part (.head _)) hbody
      obtain ⟨statements, rfl⟩ := hbody'.exists_body
      refine ⟨.otherwise (.block statements 0) 0, .otherwise hbody'.derives, ?_, ?_, ?_, rfl⟩
      · rw [texts_otherwise, hbody'.texts]
        rfl
      · simpa using Checks.otherwise hbody'.checks
      · simp only [IsProper, spelling, List.forall_mem_cons, List.forall_mem_append]
        exact ⟨TokenKind.isProper_piece rfl, TokenKind.isProper_piece rfl, hbody'.proper,
          TokenKind.isProper_piece rfl, nofun⟩
  | loop _ _ _ ihBody =>
    cases hchecks with
    | loop htest hbool hbody =>
      obtain ⟨condition', hfull⟩ := htest.exists_full (hproper.part (.head _))
      obtain ⟨body', hbody'⟩ := ihBody (hproper.part (.tail _ (.head _))) hbody
      obtain ⟨statements, rfl⟩ := hbody'.exists_body
      refine ⟨.loop condition' (.block statements 0) 0,
        .loop hfull.derives.relation_of_factor hbody'.derives, ?_, ?_, ?_, rfl⟩
      · rw [texts_loop, hfull.texts, hbody'.texts]
        rfl
      · simpa using Checks.loop hfull.infers (by simpa using hbool) hbody'.checks
      · simp only [IsProper, spelling, List.forall_mem_cons, List.forall_mem_append]
        exact ⟨TokenKind.isProper_piece rfl, hfull.proper, TokenKind.isProper_piece rfl,
          hbody'.proper, TokenKind.isProper_piece rfl, nofun⟩
  | noElse =>
    cases hchecks
    exact ⟨.absent, .noElse, rfl, .noElse, nofun, rfl⟩
  | @output format arguments line =>
    cases hchecks with
    | @output _ _ _ nodes _ harguments =>
      obtain ⟨others, hderives, htexts, hinfers, hothers⟩ :=
        Infers.exists_full_arguments harguments fun _ => hproper.part
      have hsnd : (arguments.zip nodes).map Prod.snd = nodes :=
        List.map_snd_zip (Nat.le_of_eq harguments.length_eq.symm)
      refine ⟨.output format others 0, .output hderives, ?_, ?_, ?_, rfl⟩
      · rw [texts_output, htexts, written]
        conv_lhs => rw [← hsnd, List.flatMap_map]
      · simpa using Checks.output hinfers
      · simp only [IsProper, spelling, List.forall_mem_cons] at hproper ⊢
        exact ⟨hproper.1, hproper.2.1, hothers⟩
  | _ => cases hchecks

/-- Trees that are equal up to lines are checked to nodes that are equal up to lines, and to the
same table. -/
theorem Checks.of_unlined_eq {other : Tree} (h : tree.Checks .empty nodes after)
    (hderives : tree.Derives .program) (hother : other.Derives .program)
    (hsame : other.unlined = tree.unlined) :
    ∃ others, other.Checks .empty others after ∧
      others.map Node.unlined = nodes.map Node.unlined := by
  rw [unlined_eq, unlined_eq] at hsame
  -- The checker is run on both with a budget that is large enough for the one.
  rcases h.passes hderives (tree.spelling.length + 1) with
    ⟨_, state, hrun, ⟨line, rfl⟩, rfl⟩ | ⟨_, _, -, -, hle⟩
  · have hrelined := checkProgram_relined (fun _ => 0) (tree.spelling.length + 1) other {}
    rw [hsame, checkProgram_relined, hrun] at hrelined
    obtain ⟨statements, line', rfl, hends⟩ :=
      hother.checkProgram_ends (tree.spelling.length + 1) .empty
    rcases hends with ⟨_, state', hrun', others, rfl, hothers⟩ | ⟨error, state', hrun', -⟩
    · rw [hrun'] at hrelined
      injection hrelined with hroot hstate
      subst hstate
      injection hroot with hnodes
      rw [Node.relineAll_eq, Node.relineAll_eq] at hnodes
      exact ⟨others, hothers, hnodes.symm⟩
    · rw [hrun'] at hrelined
      cases hrelined
  · omega

end Tree

end ThreeAddress
