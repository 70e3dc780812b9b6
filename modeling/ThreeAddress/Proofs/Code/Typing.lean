import ThreeAddress.Proofs.CUnit.Emission
import ThreeAddress.Proofs.Check.Leaves
import ThreeAddress.Proofs.Meaning.Preservation

/-!
# Generated code is typed

The typing rules of three-address code over a table of names. An operand has a type of its own: a
variable that of its entry, a literal the one that its text tells. Lowering keeps types: the operand
of an expression has the type of the node, and the code of typed nodes is typed over every table
with its temporaries (`Node.Lowers.typed`).
-/

namespace ThreeAddress

/-! ## The types of operands -/

/-- The type of a literal, as its text tells it: truth values are words, characters stand between
quotation marks, and the other numbers are those with a point and those without. -/
def DataType.ofLiteral (lexeme : String) : DataType :=
  if lexeme = "true" ∨ lexeme = "false" then .bool
  else if lexeme.toList.head? = some '\x27' then .char
  else if '.' ∈ lexeme.toList then .float
  else .int

namespace Table

/-- The type of a name. -/
def type? (table : Table) (name : String) : Option DataType := (table.find? name).map (·.type)

/-- The type of an operand. -/
def operandType? (table : Table) (operand : String) : Option DataType :=
  if Instruction.isVariable operand then table.type? operand else some (.ofLiteral operand)

variable {table : Table} {name operand : String} {type : DataType}

/-- A variable as an operand has its type as a name. -/
theorem operandType?_variable (h : Instruction.isVariable operand = true) :
    table.operandType? operand = table.type? operand := if_pos h

/-- A literal as an operand has the type of its text. -/
theorem operandType?_literal (h : Instruction.isVariable operand = false) :
    table.operandType? operand = some (.ofLiteral operand) := if_neg (by simp [h])

/-- A name with a type that can be stored has storage. -/
theorem storage_of_type? (h : table.type? name = some type) (hstorable : type.isStorable = true) :
    CUnit.storage table name = .ok type := by
  obtain ⟨entry, hfind, rfl⟩ := Option.map_eq_some_iff.1 h
  exact CUnit.storage_of_find? hfind hstorable

/-- A name with storage has its type. -/
theorem type?_of_storage (h : CUnit.storage table name = .ok type) :
    table.type? name = some type := by
  rw [CUnit.storage] at h
  split at h
  · next entry hfind =>
    split at h
    · cases h
      rw [type?, hfind, Option.map_some]
    · cases h
  · cases h

/-- A temporary has its type in every later table. -/
theorem type?_of_addTemporary {after last : Table}
    (h : table.addTemporary name type = .ok after) (hgrows : after.Grows last)
    (hstorable : type.isStorable = true) : last.type? name = some type :=
  type?_of_storage (CUnit.storage_of_addTemporary h hgrows hstorable)

end Table

/-! ## Typing rules -/

namespace Instruction

/-- The typing rules of instructions. -/
inductive IsTyped (table : Table) : Instruction → Prop where
  /-- Both sides of a copy have the same type. -/
  | copy {target operand : String} {type : DataType} : type.isStorable = true →
      table.operandType? operand = some type → table.type? target = some type →
      IsTyped table (.assign target (some operand) none none)
  | negation {target operand : String} : table.operandType? operand = some .bool →
      table.type? target = some .bool →
      IsTyped table (.assign target (some operand) (some "!") none)
  | minus {target operand : String} {type : DataType} : type.isArithmetic = true →
      table.operandType? operand = some type → table.type? target = some (type.join type) →
      IsTyped table (.assign target (some operand) (some "-") none)
  | logical {target operator first second : String} : operator ∈ ["&&", "||"] →
      table.operandType? first = some .bool → table.operandType? second = some .bool →
      table.type? target = some .bool →
      IsTyped table (.assign target (some first) (some operator) (some second))
  | relational {target operator first second : String} {left right : DataType} :
      operator ∈ ["==", "!=", "<", ">", "<=", ">="] → left.isArithmetic = true →
      right.isArithmetic = true → table.operandType? first = some left →
      table.operandType? second = some right → table.type? target = some .bool →
      IsTyped table (.assign target (some first) (some operator) (some second))
  /-- Arithmetic gives a floating-point number iff one of the operands is one. -/
  | arithmetic {target operator first second : String} {left right : DataType} :
      operator ∈ ["+", "-", "*", "/", "%"] → left.isArithmetic = true →
      right.isArithmetic = true → table.operandType? first = some left →
      table.operandType? second = some right → table.type? target = some (left.join right) →
      IsTyped table (.assign target (some first) (some operator) (some second))
  | jump {goal : String} : IsTyped table (.jump goal)
  | branch {condition goal : String} : table.operandType? condition = some .bool →
      IsTyped table (.branch condition goal)
  | label {name : String} : IsTyped table (.label name)
  /-- The parameter that tells how to print the others. -/
  | format {text : String} : text.toList.head? = some '\x22' → IsTyped table (.param text)
  | param {operand : String} {type : DataType} : type.isStorable = true →
      table.operandType? operand = some type → IsTyped table (.param operand)
  | print {count : Int} : IsTyped table (.call "printf" count none)
  | read {target : String} : table.type? target = some .int →
      IsTyped table (.call "input" 0 (some target))

/-- All instructions of the code are typed. -/
def AreTyped (table : Table) (code : List Instruction) : Prop :=
  ∀ instruction ∈ code, instruction.IsTyped table

variable {table : Table} {code others : List Instruction} {instruction : Instruction}

@[simp] theorem areTyped_nil : AreTyped table [] := nofun

/-- An instruction and more code are typed. -/
@[simp] theorem areTyped_cons : AreTyped table (instruction :: code) ↔
    instruction.IsTyped table ∧ AreTyped table code := List.forall_mem_cons

/-- Code and more code are typed. -/
@[simp] theorem areTyped_append : AreTyped table (code ++ others) ↔
    AreTyped table code ∧ AreTyped table others := List.forall_mem_append

end Instruction

/-! ## Texts tell types -/

/-- The type of a literal is the one that its text tells. -/
theorem IsLexeme.ofLiteral {kind : TokenKind} {text : String} {type : DataType}
    (h : IsLexeme kind text.toList) (hkind : Check.literalType? kind = some type)
    (htype : type ≠ .string) : DataType.ofLiteral text = type := by
  generalize hchars : text.toList = chars at h
  -- No text that begins otherwise is a truth value.
  have hword : ∀ {c : Char} {rest : List Char}, c :: rest = chars → c ≠ 't' → c ≠ 'f' →
      ¬(text = "true" ∨ text = "false") := by
    rintro c rest rfl ht hf (rfl | rfl)
    · exact ht (List.cons.inj hchars).1.symm
    · exact hf (List.cons.inj hchars).1.symm
  have hdigit : ∀ {c d : Char}, Text.isDigit c = true → Text.isDigit d = false → c ≠ d := by
    rintro c d hc hd rfl
    rw [hc] at hd
    cases hd
  cases h with
  | spelled hspelling =>
    have hnone : kind.spelling? = none := by cases kind <;> first | rfl | cases hkind
    rw [hnone] at hspelling
    cases hspelling
  | name | endOfFile | invalid => cases hkind
  | yes =>
    cases hkind
    exact if_pos (.inl (String.toList_injective hchars))
  | no =>
    cases hkind
    exact if_pos (.inr (String.toList_injective hchars))
  | @whole c rest hc hrest =>
    cases hkind
    have hpoint : '.' ∉ c :: rest := by
      intro hmem
      rcases List.mem_cons.1 hmem with rfl | hmem
      · cases hc
      · cases hrest '.' hmem
    have hmark : (c :: rest).head? ≠ some '\x27' := by
      rintro ⟨⟩
      cases hc
    rw [DataType.ofLiteral, if_neg (hword rfl (hdigit hc rfl) (hdigit hc rfl)), hchars,
      if_neg hmark, if_neg hpoint]
  | @point c rest fraction hc =>
    cases hkind
    have hmark : (c :: (rest ++ '.' :: fraction)).head? ≠ some '\x27' := by
      rintro ⟨⟩
      cases hc
    rw [DataType.ofLiteral, if_neg (hword rfl (hdigit hc rfl) (hdigit hc rfl)), hchars,
      if_neg hmark, if_pos (by simp)]
  | plain | escaped =>
    cases hkind
    rw [DataType.ofLiteral, if_neg (hword rfl (by decide) (by decide)), hchars]
    exact if_pos rfl
  | string =>
    cases hkind
    exact absurd rfl htype

namespace Node

/-- The operands that a node may stand for tell what they are: names are variables, literals are
none and have the type of the node, and format texts begin with a quotation mark. -/
def IsLegible : Node → Prop
  | var name _ => Instruction.isVariable name = true
  | literal lexeme mark =>
    Instruction.isVariable lexeme = false ∧ DataType.ofLiteral lexeme = mark.type
  | format lexeme _ => lexeme.toList.head? = some '\x22'
  | _ => True

/-- Nodes whose texts are tokens are legible. -/
theorem IsQuoted.isLegible {pieces : List Piece} {node : Node} (h : node.IsQuoted pieces)
    (hpieces : ∀ piece ∈ pieces, IsLexeme piece.1 piece.2.toList) : node.IsLegible := by
  cases node with
  | var name mark => exact (hpieces _ h).isOperand.1 rfl
  | literal lexeme mark =>
    obtain ⟨kind, hmem, hkind, htype⟩ := h
    have hlexeme := hpieces _ hmem
    have hliteral : kind.isLiteral = true := by cases kind <;> first | rfl | cases hkind
    exact ⟨hlexeme.isOperand.2 hliteral, hlexeme.ofLiteral hkind htype⟩
  | format lexeme mark =>
    obtain ⟨body, hbody⟩ := (hpieces _ h).exists_body
    rw [IsLegible, hbody]
    rfl
  | _ => trivial

/-- The nodes of a tree are typed over a table and legible. -/
def IsSound (table : Table) (node : Node) : Prop :=
  ∀ part ∈ node.preorder, part.IsTyped table ∧ part.IsLegible

/-! ## Typed code -/

open Instruction

variable {table after last : Table} {node : Node} {code : List Instruction} {operand : String}

/-- A tree is sound iff its root and the trees below it are. -/
theorem isSound_iff : node.IsSound table ↔
    (node.IsTyped table ∧ node.IsLegible) ∧ ∀ child ∈ node.children, child.IsSound table :=
  forall_mem_preorder

/-- The value of a sound expression can be stored. -/
theorem Computes.isStorable (h : node.Computes table code operand after)
    (hsound : node.IsSound last) : node.type.isStorable = true := by
  obtain ⟨⟨htyped, -⟩, -⟩ := isSound_iff.1 hsound
  cases h with
  | literal => exact htyped
  | var => exact htyped.1
  | input => exact congrArg DataType.isStorable htyped
  | unary => exact (IsTyped.unaryOperator htyped).2
  | binary => exact (IsTyped.binaryOperator htyped).2

/-- The code of an expression is typed, and its operand has the type of the node. -/
theorem Computes.typed (h : node.Computes table code operand after) (hgrows : after.Grows last)
    (hsound : node.IsSound last) :
    AreTyped last code ∧ last.operandType? operand = some node.type := by
  have htemporary (number : Nat) : last.operandType? (Temporaries.nameOf number) =
      last.type? (Temporaries.nameOf number) :=
    Table.operandType?_variable (Temporaries.isVariable_nameOf number)
  induction h with
  | literal =>
    obtain ⟨-, hliteral, htype⟩ := (isSound_iff.1 hsound).1
    exact ⟨areTyped_nil, (Table.operandType?_literal hliteral).trans (congrArg some htype)⟩
  | var =>
    obtain ⟨⟨-, entry, hfind, htype⟩, hvariable⟩ := (isSound_iff.1 hsound).1
    refine ⟨areTyped_nil, ?_⟩
    rw [Table.operandType?_variable hvariable, Table.type?, hfind]
    exact congrArg some htype.symm
  | @input _ _ mark number htable =>
    have hint : mark.type = .int := (isSound_iff.1 hsound).1.1
    rw [hint] at htable
    have htype := Table.type?_of_addTemporary htable hgrows rfl
    refine ⟨areTyped_cons.2 ⟨.read htype, areTyped_nil⟩, ?_⟩
    rw [htemporary, htype, ← hint]
    rfl
  | @unary _ _ _ operator inner mark _ value number _ htable ih =>
    obtain ⟨⟨htyped, -⟩, hchildren⟩ := isSound_iff.1 hsound
    have htype := Table.type?_of_addTemporary htable hgrows htyped.unaryOperator.2
    obtain ⟨hcode, hfirst⟩ := ih ((Table.grows_of_addTemporary htable).trans hgrows)
      (hchildren inner (.head _))
    refine ⟨areTyped_append.2 ⟨hcode, areTyped_cons.2 ⟨?_, areTyped_nil⟩⟩,
      (htemporary number).trans htype⟩
    rcases htyped with ⟨rfl, hbool, hmark⟩ | ⟨rfl, harithmetic, hmark⟩
    · rw [hbool] at hfirst
      exact .negation hfirst (hmark ▸ htype)
    · exact .minus harithmetic hfirst (hmark ▸ htype)
  | @binary _ _ _ _ operator left right mark _ _ first second number _ hright htable ihLeft
      ihRight =>
    obtain ⟨⟨htyped, -⟩, hchildren⟩ := isSound_iff.1 hsound
    have htype := Table.type?_of_addTemporary htable hgrows htyped.binaryOperator.2
    have hgrowsRight := (Table.grows_of_addTemporary htable).trans hgrows
    obtain ⟨hleftCode, hfirst⟩ := ihLeft (hright.grows.trans hgrowsRight)
      (hchildren left (.head _))
    obtain ⟨hrightCode, hsecond⟩ := ihRight hgrowsRight (hchildren right (.tail _ (.head _)))
    refine ⟨areTyped_append.2 ⟨hleftCode, areTyped_append.2
      ⟨hrightCode, areTyped_cons.2 ⟨?_, areTyped_nil⟩⟩⟩, (htemporary number).trans htype⟩
    rcases htyped with ⟨hoperator, hl, hr, hmark⟩ | ⟨hoperator, hl, hr, hmark⟩ |
      ⟨hoperator, hl, hr, hmark⟩
    · rw [hl] at hfirst
      rw [hr] at hsecond
      exact .logical hoperator hfirst hsecond (hmark ▸ htype)
    · exact .relational hoperator hl hr hfirst hsecond (hmark ▸ htype)
    · exact .arithmetic hoperator hl hr hfirst hsecond (hmark ▸ htype)

/-- The code of arguments is typed, and the operands can be parameters. -/
theorem ComputesAll.typed {nodes : List Node} {operands : List String}
    (h : ComputesAll table nodes code operands after) (hgrows : after.Grows last)
    (hsound : ∀ node ∈ nodes, node.IsSound last) :
    AreTyped last code ∧ AreTyped last (operands.map .param) := by
  induction h with
  | nil => exact ⟨areTyped_nil, areTyped_nil⟩
  | cons hnode hnodes ih =>
    obtain ⟨hsoundNode, hsoundNodes⟩ := List.forall_mem_cons.1 hsound
    obtain ⟨hcode, hoperand⟩ := hnode.typed (hnodes.grows.trans hgrows) hsoundNode
    obtain ⟨hothers, hoperands⟩ := ih hgrows hsoundNodes
    refine ⟨areTyped_append.2 ⟨hcode, hothers⟩, areTyped_cons.2 ⟨?_, hoperands⟩⟩
    exact .param (hnode.isStorable hsoundNode) hoperand

/-- The code of a condition is typed, and its operand is a truth value. -/
theorem Computes.condition_typed (h : node.Computes table code operand after)
    (hgrows : after.Grows last) (hsound : node.IsSound last) (hbool : node.type = .bool)
    (goal : String) : AreTyped last code ∧ (Instruction.branch operand goal).IsTyped last := by
  obtain ⟨hcode, hoperand⟩ := h.typed hgrows hsound
  rw [hbool] at hoperand
  exact ⟨hcode, .branch hoperand⟩

/-- The conditions among the parts of a conditional are truth values. -/
def HaveConditions : Shape → List Node → Prop
  | .statements, _ => True
  | .parts _, parts => ∀ branch ∈ branches parts, branch.1.type = .bool

/-- The code of statements and of the parts of a conditional is typed. -/
theorem Lowers.typed {supply after : Supply} {shape : Shape} {nodes : List Node}
    (h : Lowers supply shape nodes code after) (hgrows : after.table.Grows last)
    (hshape : HaveConditions shape nodes) (hsound : ∀ node ∈ nodes, node.IsSound last) :
    AreTyped last code := by
  induction h with
  | nil | noElse => exact areTyped_nil
  | @assignment _ _ _ target _ node _ _ _ _ _ hvalue hnodes ih =>
    obtain ⟨hassignment, hothers⟩ := List.forall_mem_cons.1 hsound
    obtain ⟨⟨⟨-, hstorable, entry, hfind, htype⟩, -⟩, hchildren⟩ := isSound_iff.1 hassignment
    obtain ⟨hcode, hoperand⟩ := hvalue.typed (hnodes.grows.trans hgrows)
      (hchildren node (.head _))
    have htarget : last.type? target = some node.type := by
      rw [Table.type?, hfind, htype]
      rfl
    exact areTyped_append.2 ⟨hcode, areTyped_cons.2
      ⟨.copy hstorable hoperand htarget, ih hgrows trivial hothers⟩⟩
  | output harguments hnodes ih =>
    obtain ⟨houtput, hothers⟩ := List.forall_mem_cons.1 hsound
    obtain ⟨hformat, hsoundArguments⟩ := List.forall_mem_cons.1 (isSound_iff.1 houtput).2
    obtain ⟨hcode, hoperands⟩ := harguments.typed (hnodes.grows.trans hgrows) hsoundArguments
    have htext := (isSound_iff.1 hformat).1.2
    refine areTyped_append.2 ⟨hcode, areTyped_append.2 ⟨areTyped_cons.2 ⟨.format htext, hoperands⟩,
      areTyped_cons.2 ⟨.print, ih hgrows trivial hothers⟩⟩⟩
  | conditional _ hnodes ihParts ihNodes =>
    obtain ⟨hconditional, hothers⟩ := List.forall_mem_cons.1 hsound
    obtain ⟨⟨⟨-, hconditions⟩, -⟩, hchildren⟩ := isSound_iff.1 hconditional
    have hparts := ihParts (hnodes.grows.trans hgrows) hconditions hchildren
    exact areTyped_append.2 ⟨hparts, areTyped_cons.2 ⟨.label, ihNodes hgrows trivial hothers⟩⟩
  | loop hcondition hbody hnodes ihBody ihNodes =>
    obtain ⟨hloop, hothers⟩ := List.forall_mem_cons.1 hsound
    obtain ⟨⟨⟨-, hbool⟩, -⟩, hchildren⟩ := isSound_iff.1 hloop
    obtain ⟨hsoundCondition, hblock⟩ := List.forall_mem_cons.1 hchildren
    have hgrowsBody := hnodes.grows.trans hgrows
    obtain ⟨hcode, hbranch⟩ := hcondition.condition_typed (hbody.grows.trans hgrowsBody)
      hsoundCondition hbool _
    have hitems := ihBody hgrowsBody trivial (isSound_iff.1 (List.forall_mem_singleton.1 hblock)).2
    have hrest := ihNodes hgrows trivial hothers
    simp only [areTyped_append, areTyped_cons]
    exact ⟨.label, hcode, hbranch, .jump, .label, hitems, .jump, .label, hrest⟩
  | otherwise _ ih =>
    exact ih hgrows trivial (isSound_iff.1 (List.forall_mem_singleton.1 hsound)).2
  | branch hcondition hbody hparts ihBody ihParts =>
    obtain ⟨hsoundCondition, hothers⟩ := List.forall_mem_cons.1 hsound
    obtain ⟨hblock, hsoundParts⟩ := List.forall_mem_cons.1 hothers
    obtain ⟨hbool, hconditions⟩ := List.forall_mem_cons.1 hshape
    have hgrowsBody := hparts.grows.trans hgrows
    obtain ⟨hcode, hbranch⟩ := hcondition.condition_typed (hbody.grows.trans hgrowsBody)
      hsoundCondition hbool _
    have hitems := ihBody hgrowsBody trivial (isSound_iff.1 hblock).2
    have hrest := ihParts hgrows hconditions hsoundParts
    simp only [areTyped_append, areTyped_cons]
    exact ⟨hcode, hbranch, .jump, .label, hitems, .jump, .label, hrest⟩

end Node

/-- What is left of a program that has been read is sound over its table. -/
theorem Tree.Checks.isSound {bound : Nat} {tree : Tree} {nodes : List Node} {table : Table}
    (h : tree.Checks .empty nodes table) (hcut : tree.IsCut bound) :
    ∀ node ∈ nodes, node.IsSound table := by
  have hlexemes : ∀ piece ∈ tree.spelling, IsLexeme piece.1 piece.2.toList :=
    fun piece hpiece => (hcut.lexemes piece hpiece).1
  exact fun node hnode part hpart => ⟨(h.typed nofun).2.parts node hnode part hpart,
    (h.isQuoted (List.Subset.refl _) node hnode part hpart).isLegible hlexemes⟩

/-- The code of a program that has been read and checked is typed over every later table with its
temporaries. -/
theorem Tree.Checks.lowered_typed {bound : Nat} {tree : Tree} {nodes : List Node} {table : Table}
    {after : Supply} {code : List Instruction} (h : tree.Checks .empty nodes table)
    (hcut : tree.IsCut bound) (hlowers : Node.Lowers ⟨table, 0⟩ .statements nodes code after) :
    Instruction.AreTyped after.table code := by
  refine hlowers.typed (.refl _) trivial fun node hnode part hpart => ?_
  obtain ⟨htyped, hlegible⟩ := h.isSound hcut node hnode part hpart
  exact ⟨htyped.grows hlowers.grows, hlegible⟩

end ThreeAddress
