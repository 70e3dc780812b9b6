import ThreeAddress.Proofs.Grammar.Derivation

/-!
# The grammar in kinds of tokens

A reader decides by the kinds of tokens alone, so the grammar is told here once more as a set of
lists of kinds for every phrase (`Phrase.Spells`): those of its derivations. One lemma for each
rule of the grammar says how such lists are put together.
-/

namespace ThreeAddress

/-- The kinds of the tokens of a tree. -/
def Tree.kinds (tree : Tree) : List TokenKind := tree.spelling.map Prod.fst

namespace Phrase

/-- The kinds of a phrase: a block has braces around it. -/
def enclose : Phrase → List TokenKind → List TokenKind
  | block, kinds => .lbrace :: (kinds ++ [.rbrace])
  | _, kinds => kinds

/-- The kinds are those of the tokens of a phrase. -/
def Spells (phrase : Phrase) (kinds : List TokenKind) : Prop :=
  ∃ tree : Tree, tree.Derives phrase ∧ kinds = phrase.enclose tree.kinds

/-- The kinds are those of the tokens of the arguments of a print. -/
def SpellsArguments (kinds : List TokenKind) : Prop :=
  ∃ arguments : List Tree, (∀ argument ∈ arguments, argument.Derives relation) ∧
    kinds = (Tree.argumentsSpelling arguments).map Prod.fst

namespace SpellsArguments

variable {kinds others : List TokenKind}

/-- No arguments. -/
theorem nil : SpellsArguments [] := ⟨[], nofun, rfl⟩

/-- The tokens of arguments and more arguments. -/
theorem argumentsSpelling_append (arguments others : List Tree) :
    Tree.argumentsSpelling (arguments ++ others) =
      Tree.argumentsSpelling arguments ++ Tree.argumentsSpelling others := by
  induction arguments with
  | nil => rfl
  | cons argument arguments ih => simp [Tree.argumentsSpelling, ih]

/-- Arguments and one more. -/
theorem concat (h : SpellsArguments kinds) (hargument : relation.Spells others) :
    SpellsArguments (kinds ++ .comma :: others) := by
  obtain ⟨arguments, harguments, rfl⟩ := h
  obtain ⟨last, hlast, rfl⟩ := hargument
  refine ⟨arguments ++ [last],
    List.forall_mem_append.2 ⟨harguments, List.forall_mem_singleton.2 hlast⟩, ?_⟩
  simp [enclose, Tree.kinds, Tree.argumentsSpelling, argumentsSpelling_append, TokenKind.piece]

end SpellsArguments

namespace Spells

variable {kinds others rest : List TokenKind} {level : Level} {kind : TokenKind}

/-! ## Rows -/

/-- A row has no braces around it. -/
theorem enclose_row (level : Level) (kinds : List TokenKind) : level.row.enclose kinds = kinds := by
  cases level <;> rfl

/-- A part of a row has no braces around it. -/
theorem enclose_part (level : Level) (kinds : List TokenKind) :
    level.part.enclose kinds = kinds := by
  cases level <;> rfl

/-- A row of one part. -/
theorem single (h : level.part.Spells kinds) : level.row.Spells kinds := by
  obtain ⟨tree, htree, rfl⟩ := h
  exact ⟨tree, .single rfl htree, by rw [enclose_part, enclose_row]⟩

/-- The kind of an operator is the one that its text spells. -/
theorem ofSpelling_piece (h : kind ∈ TokenKind.operators) :
    TokenKind.ofSpelling kind.piece.2 = kind := by
  revert kind
  decide

/-- A row and one more operation. -/
theorem joined (h : level.row.Spells kinds) (hkind : level.holds kind = true)
    (hpart : level.part.Spells others) : level.row.Spells (kinds ++ kind :: others) := by
  obtain ⟨tree, htree, rfl⟩ := h
  obtain ⟨operand, hoperand, rfl⟩ := hpart
  have hoperator : TokenKind.ofSpelling kind.piece.2 = kind := by
    refine ofSpelling_piece ?_
    cases level <;> cases kind <;> simp_all [Level.holds, TokenKind.operators]
  rw [enclose_row, enclose_part]
  have hoperation : (Tree.operation kind.piece.2 operand 0).IsOperation level.holds := by
    rwa [Tree.IsOperation, hoperator]
  have hderives : ∀ operation ∈ [Tree.operation kind.piece.2 operand 0],
      operation.operand.Derives level.part := List.forall_mem_singleton.2 hoperand
  rcases htree.row_inv with htree | ⟨first, operations, line, rfl, hfirst, -, hholds, hoperands⟩
  · refine ⟨.chain level tree [.operation kind.piece.2 operand 0] 0, .chain rfl htree (by simp)
      (List.forall_mem_singleton.2 hoperation) hderives, ?_⟩
    simp [enclose_row, Tree.kinds, Tree.spelling, Tree.operationsSpelling, hoperator]
  · refine ⟨.chain level first (operations ++ [.operation kind.piece.2 operand 0]) 0,
      .chain rfl hfirst (by simp)
        (List.forall_mem_append.2 ⟨hholds, List.forall_mem_singleton.2 hoperation⟩)
        (List.forall_mem_append.2 ⟨hoperands, hderives⟩), ?_⟩
    simp [enclose_row, Tree.kinds, Tree.spelling, Tree.operationsSpelling,
      Tree.operationsSpelling_append, hoperator]

/-! ## Programs and blocks -/

/-- The empty program. -/
theorem nothing : program.Spells [] := ⟨.block [] 0, .program nofun, rfl⟩

/-- The tokens of statements and more statements. -/
theorem statementsSpelling_append (statements others : List Tree) :
    Tree.statementsSpelling (statements ++ others) =
      Tree.statementsSpelling statements ++ Tree.statementsSpelling others := by
  induction statements with
  | nil => rfl
  | cons statement statements ih => simp [Tree.statementsSpelling, ih]

/-- A program and one more statement. -/
theorem followed (h : program.Spells kinds) (hstatement : statement.Spells others) :
    program.Spells (kinds ++ (others ++ [.semicolon])) := by
  obtain ⟨tree, htree, rfl⟩ := h
  obtain ⟨last, hlast, rfl⟩ := hstatement
  obtain ⟨statements, line, rfl, hstatements⟩ := htree.program_inv
  refine ⟨.block (statements ++ [last]) 0, .program (List.forall_mem_append.2
    ⟨hstatements, List.forall_mem_singleton.2 hlast⟩), ?_⟩
  simp [enclose, Tree.kinds, Tree.spelling, Tree.statementsSpelling, statementsSpelling_append,
    TokenKind.piece]

/-- A program between braces. -/
theorem braced (h : program.Spells kinds) : block.Spells (.lbrace :: (kinds ++ [.rbrace])) := by
  obtain ⟨tree, htree, rfl⟩ := h
  exact ⟨tree, .block htree, rfl⟩

/-! ## Statements -/

/-- An assignment. -/
theorem assignment (h : relation.Spells kinds) :
    statement.Spells (.ident :: .assign :: kinds) := by
  obtain ⟨value, hvalue, rfl⟩ := h
  exact ⟨.assignment "" value 0, .assignment hvalue, rfl⟩

/-- A declaration of a fixed name. -/
theorem letFixed (h : relation.Spells kinds) :
    statement.Spells (.kwLet :: .ident :: .assign :: kinds) := by
  obtain ⟨value, hvalue, rfl⟩ := h
  exact ⟨.letFixed "" value 0, .letFixed hvalue, rfl⟩

/-- A declaration without a value. -/
theorem letUnset : statement.Spells [.kwLet, .kwMut, .ident] :=
  ⟨.letMutable "" .absent 0, .letUnset, rfl⟩

/-- A declaration with a value. -/
theorem letMutable (h : relation.Spells kinds) :
    statement.Spells (.kwLet :: .kwMut :: .ident :: .assign :: kinds) := by
  obtain ⟨value, hvalue, rfl⟩ := h
  refine ⟨.letMutable "" value 0, .letMutable hvalue, ?_⟩
  simp [enclose, Tree.kinds, Tree.spelling, TokenKind.piece,
    Tree.initialSign_of_ne_absent (hvalue.ne_absent (by simp))]

/-- A conditional. -/
theorem ifElse (h : relation.Spells kinds) (hbody : block.Spells others)
    (htail : elsePart.Spells rest) : statement.Spells (.kwIf :: (kinds ++ (others ++ rest))) := by
  obtain ⟨condition, hcondition, rfl⟩ := h
  obtain ⟨body, hbody, rfl⟩ := hbody
  obtain ⟨tail, htail, rfl⟩ := htail
  refine ⟨.ifElse condition body tail 0, .ifElse hcondition hbody htail, ?_⟩
  simp [enclose, Tree.kinds, Tree.spelling, TokenKind.piece]

/-- A loop. -/
theorem loop (h : relation.Spells kinds) (hbody : block.Spells others) :
    statement.Spells (.kwWhile :: (kinds ++ others)) := by
  obtain ⟨condition, hcondition, rfl⟩ := h
  obtain ⟨body, hbody, rfl⟩ := hbody
  refine ⟨.loop condition body 0, .loop hcondition hbody, ?_⟩
  simp [enclose, Tree.kinds, Tree.spelling, TokenKind.piece]

/-- A print. -/
theorem output (h : SpellsArguments kinds) :
    statement.Spells (.kwOutput :: .stringLit :: kinds) := by
  obtain ⟨arguments, harguments, rfl⟩ := h
  exact ⟨.output "" arguments 0, .output harguments, rfl⟩

/-! ## What follows a conditional -/

/-- Nothing. -/
theorem noElse : elsePart.Spells [] := ⟨.absent, .noElse, rfl⟩

/-- One more condition. -/
theorem elseIf (h : relation.Spells kinds) (hbody : block.Spells others)
    (htail : elsePart.Spells rest) :
    elsePart.Spells (.kwElse :: .kwIf :: (kinds ++ (others ++ rest))) := by
  obtain ⟨condition, hcondition, rfl⟩ := h
  obtain ⟨body, hbody, rfl⟩ := hbody
  obtain ⟨tail, htail, rfl⟩ := htail
  refine ⟨.elseIf condition body tail 0, .elseIf hcondition hbody htail, ?_⟩
  simp [enclose, Tree.kinds, Tree.spelling, TokenKind.piece]

/-- The last body. -/
theorem otherwise (h : block.Spells kinds) : elsePart.Spells (.kwElse :: kinds) := by
  obtain ⟨body, hbody, rfl⟩ := h
  refine ⟨.otherwise body 0, .otherwise hbody, ?_⟩
  simp [enclose, Tree.kinds, Tree.spelling, TokenKind.piece]

/-! ## Expressions -/

/-- A sum that is not compared. -/
theorem plain (h : sum.Spells kinds) : negatable.Spells kinds := by
  obtain ⟨tree, htree, rfl⟩ := h
  exact ⟨tree, .plain htree, rfl⟩

/-- Two sums that are compared. -/
theorem comparison (h : sum.Spells kinds) (hkind : kind.isRelational = true)
    (hright : sum.Spells others) : negatable.Spells (kinds ++ kind :: others) := by
  obtain ⟨left, hleft, rfl⟩ := h
  obtain ⟨right, hright, rfl⟩ := hright
  have hoperator : TokenKind.ofSpelling kind.piece.2 = kind := by
    refine ofSpelling_piece ?_
    cases kind <;> simp_all [TokenKind.isRelational, TokenKind.operators]
  refine ⟨.comparison left (.operation kind.piece.2 right 0) 0,
    .comparison hleft (by rwa [Tree.IsOperation, hoperator]) hright, ?_⟩
  simp [enclose, Tree.kinds, Tree.spelling, hoperator]

/-- A negation. -/
theorem negation (h : relation.Spells kinds) :
    negatable.Spells (.not :: .lparen :: (kinds ++ [.rparen])) := by
  obtain ⟨operand, hoperand, rfl⟩ := h
  refine ⟨.negation operand 0, .negation hoperand, ?_⟩
  simp [enclose, Tree.kinds, Tree.spelling, TokenKind.piece]

/-- A name. -/
theorem var : factor.Spells [.ident] := ⟨.var "" 0, .var, rfl⟩

/-- A literal. -/
theorem literal (h : kind.isLiteral = true) : factor.Spells [kind] :=
  ⟨.literal kind "" 0, .literal h, rfl⟩

/-- An input. -/
theorem input : factor.Spells [.kwInput] := ⟨.input 0, .input, rfl⟩

/-- A group. -/
theorem group (h : relation.Spells kinds) :
    factor.Spells (.lparen :: (kinds ++ [.rparen])) := by
  obtain ⟨inner, hinner, rfl⟩ := h
  refine ⟨.group inner 0, .group hinner, ?_⟩
  simp [enclose, Tree.kinds, Tree.spelling, TokenKind.piece]

/-- The negative of a factor. -/
theorem minus (h : factor.Spells kinds) : factor.Spells (.minus :: kinds) := by
  obtain ⟨operand, hoperand, rfl⟩ := h
  exact ⟨.minus operand 0, .minus hoperand, rfl⟩

end Spells

/-- Every phrase has tokens. -/
theorem exists_spells (phrase : Phrase) : ∃ kinds, phrase.Spells kinds := by
  have hproduct : Level.product.row.Spells [.kwInput] := .single .input
  have hsum : Level.sum.row.Spells [.kwInput] := .single hproduct
  have hconjunction : Level.and.row.Spells [.kwInput] := .single (.plain hsum)
  have hrelation : Level.or.row.Spells [.kwInput] := .single hconjunction
  cases phrase with
  | program => exact ⟨_, .nothing⟩
  | statement => exact ⟨_, .letUnset⟩
  | elsePart => exact ⟨_, .noElse⟩
  | block => exact ⟨_, .braced .nothing⟩
  | relation => exact ⟨_, hrelation⟩
  | conjunction => exact ⟨_, hconjunction⟩
  | negatable => exact ⟨_, .plain hsum⟩
  | sum => exact ⟨_, hsum⟩
  | product => exact ⟨_, hproduct⟩
  | factor => exact ⟨_, .input⟩

end Phrase

end ThreeAddress
