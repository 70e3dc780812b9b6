import ThreeAddress.Proofs.Check.Soundness
import ThreeAddress.Proofs.Grammar.Sources
import ThreeAddress.Proofs.Token.Recognition

/-!
# The literals of checked trees

The checker keeps every literal and every format text where it was written: read from left to
right, those in the checked tree are those among the tokens, with their kinds
(`Tree.Checks.literals`). The kind of a literal is told by the type of its node.
-/

namespace ThreeAddress

/-- The kind of the literals of a type. -/
def DataType.literalKind? : DataType → Option TokenKind
  | .int => some .intLit
  | .float => some .floatLit
  | .char => some .charLit
  | .bool => some .boolLit
  | .unknown | .string | .void => none

/-- The type of a literal that has a value tells its kind. -/
theorem DataType.literalKind?_of_literalType? {kind : TokenKind} {type : DataType}
    (h : Check.literalType? kind = some type) (htype : type ≠ .string) :
    type.literalKind? = some kind ∧ kind.isLiteral = true := by
  cases kind <;> cases h <;> first | exact ⟨rfl, rfl⟩ | exact absurd rfl htype

/-- An operator that compares is no literal. -/
theorem TokenKind.isLiteral_of_isRelational {kind : TokenKind} (h : kind.isRelational = true) :
    kind.isLiteral = false := by
  cases kind <;> first | rfl | cases h

/-- An operator of a level is no literal. -/
theorem Level.isLiteral_of_holds {level : Level} {kind : TokenKind} (h : level.holds kind = true) :
    kind.isLiteral = false := by
  cases level <;> cases kind <;> first | rfl | cases h

/-! ## Nodes and trees -/

namespace Node

/-- The token of a literal or of a format text. -/
def literal? : Node → Option Piece
  | literal lexeme mark => mark.type.literalKind?.map (·, lexeme)
  | format lexeme _ => some (.stringLit, lexeme)
  | _ => none

/-- The literals and format texts of a tree from left to right. -/
def literals (node : Node) : List Piece := node.preorder.filterMap literal?

/-- The literals of a tree are that of its root and those below it. -/
theorem literals_eq (node : Node) :
    node.literals = node.literal?.toList ++ node.children.flatMap literals := by
  have hall (nodes : List Node) : (Outline.preorderAll (outlines nodes)).filterMap literal? =
      nodes.flatMap literals := by
    induction nodes with
    | nil => rfl
    | cons first others ih =>
      rw [outlines, Outline.preorderAll, List.filterMap_append, ih]
      rfl
  have hroot (rest : List Node) : (node :: rest).filterMap literal? =
      node.literal?.toList ++ rest.filterMap literal? := by
    cases hliteral : node.literal? <;> simp [hliteral]
  rw [literals, preorder, outline_eq, Outline.preorder, hroot, hall]

section
variable {lexeme operator target : String} {first second : Node} {nodes : List Node} {mark : Mark}

@[simp] theorem literals_format : (format lexeme mark).literals = [(.stringLit, lexeme)] := rfl

@[simp] theorem literals_var : (var lexeme mark).literals = [] := rfl

@[simp] theorem literals_input : (input mark).literals = [] := rfl

@[simp] theorem literals_unary : (unary operator first mark).literals = first.literals :=
  (literals_eq (unary operator first mark)).trans (List.append_nil _)

@[simp] theorem literals_binary :
    (binary operator first second mark).literals = first.literals ++ second.literals :=
  (literals_eq (binary operator first second mark)).trans
    (congrArg (first.literals ++ ·) (List.append_nil _))

@[simp] theorem literals_assignment {declares : Bool} :
    (assignment target first declares mark).literals = first.literals :=
  (literals_eq (assignment target first declares mark)).trans (List.append_nil _)

@[simp] theorem literals_output :
    (output first nodes mark).literals = first.literals ++ nodes.flatMap literals :=
  literals_eq (output first nodes mark)

@[simp] theorem literals_conditional :
    (conditional nodes mark).literals = nodes.flatMap literals :=
  literals_eq (conditional nodes mark)

@[simp] theorem literals_loop :
    (loop first second mark).literals = first.literals ++ second.literals :=
  (literals_eq (loop first second mark)).trans
    (congrArg (first.literals ++ ·) (List.append_nil _))

@[simp] theorem literals_block : (block nodes mark).literals = nodes.flatMap literals :=
  literals_eq (block nodes mark)

end

end Node

namespace Tree

/-- The literals among the tokens of a tree, with format texts. -/
def literals (tree : Tree) : List Piece := tree.spelling.filter fun piece => piece.1.isLiteral

variable {table after : Table} {tree : Tree} {node : Node} {nodes : List Node}

/-- The literals of an expression are kept in its node. -/
theorem Infers.literals (h : tree.Infers table node) : node.literals = tree.literals := by
  induction h with
  | var | input => rfl
  | @literal kind lexeme line type hkind htype =>
    obtain ⟨hliteral, his⟩ := DataType.literalKind?_of_literalType? hkind htype
    simp [Node.literals_eq, Node.literal?, Node.children, Tree.literals, spelling, hliteral, his]
  | group _ ih | minus _ _ ih | negation _ _ ih =>
    simp [ih, Tree.literals, spelling, TokenKind.piece, TokenKind.isLiteral]
  | single _ ih => simp [ih, Tree.literals, spelling, operationsSpelling]
  | comparison _ _ hoperator _ _ ihLeft ihRight =>
    simp [ihLeft, ihRight, Tree.literals, spelling, TokenKind.isLiteral_of_isRelational hoperator]
  | joined _ _ hoperator _ _ ihLeft ihRight =>
    simp [ihLeft, ihRight, Tree.literals, spelling, operationsSpelling, operationsSpelling_append,
      Level.isLiteral_of_holds hoperator]

/-- The literals of arguments are kept in their nodes. -/
theorem Infers.literals_arguments {arguments : List Tree}
    (h : List.Forall₂ (Infers table) arguments nodes) : nodes.flatMap Node.literals =
      (argumentsSpelling arguments).filter fun piece => piece.1.isLiteral := by
  induction h with
  | nil => rfl
  | cons hfirst _ ih =>
    simp [hfirst.literals, ih, Tree.literals, argumentsSpelling, TokenKind.piece,
      TokenKind.isLiteral]

/-- The literals of a statement, of a body or of the tail of a conditional are kept in the nodes. -/
theorem Checks.literals (h : tree.Checks table nodes after) :
    nodes.flatMap Node.literals = tree.literals := by
  induction h with
  | assignment _ _ hvalue | letFixed hvalue =>
    simp [hvalue.literals, Tree.literals, spelling, TokenKind.piece, TokenKind.isLiteral]
  | letUnset | noElse | nil => rfl
  | @letMutable _ _ _ value _ _ hvalue =>
    have hsome : value ≠ .absent := by
      rintro rfl
      cases hvalue
    simp [hvalue.literals, Tree.literals, spelling, initialSign_of_ne_absent hsome,
      TokenKind.piece, TokenKind.isLiteral]
  | ifElse hcondition _ _ _ _ ihBody ihTail | elseIf hcondition _ _ _ _ ihBody ihTail =>
    simp [hcondition.literals, ihBody, ihTail, Tree.literals, spelling, TokenKind.piece,
      TokenKind.isLiteral]
  | otherwise _ ih =>
    simp [ih, Tree.literals, spelling, TokenKind.piece, TokenKind.isLiteral]
  | loop hcondition _ _ ih =>
    simp [hcondition.literals, ih, Tree.literals, spelling, TokenKind.piece, TokenKind.isLiteral]
  | output harguments =>
    simp [Infers.literals_arguments harguments, Tree.literals, spelling, TokenKind.piece,
      TokenKind.isLiteral]
  | cons _ _ _ ihFirst ihOthers =>
    simp [ihFirst, ihOthers, Tree.literals, spelling, statementsSpelling, TokenKind.piece,
      TokenKind.isLiteral]

/-- The tokens of a source are those of its tree and the end. -/
theorem pieces_of_ofSource {concurrent : Bool} {budget : Nat} {source : String}
    (h : ofSource concurrent budget source = .ok tree) :
    (tokenize source).map Token.piece = tree.spelling ++ [(.endOfFile, "end of file")] := by
  rw [ofSource_eq] at h
  obtain ⟨cursor, hread⟩ := ofTokens_ok_iff.1 h
  obtain ⟨hspans, hat, hkind⟩ :=
    spans_of_readFrom (fun token => isSpelled_of_mem_tokenize) hread
  have hlast : (tokenize source)[tree.spelling.length]? = some cursor.token :=
    hat.token_eq (by rw [hkind]; simp)
  -- Only the last token is an end of file, so the tokens of the tree are all but this one.
  have hbefore : (tokenize source).take tree.spelling.length =
      scanLines 1 (Text.splitLines source.toList) := by
    obtain ⟨hlt, -⟩ := List.getElem?_eq_some_iff.1 hlast
    rw [tokenize, List.length_append, List.length_singleton] at hlt
    refine List.take_left' (Nat.le_antisymm (Nat.le_of_not_lt fun hshort => ?_) (by omega))
    rw [tokenize, List.getElem?_append_left hshort] at hlast
    exact kind_ne_endOfFile_of_mem_scanLines (List.mem_of_getElem? hlast) hkind
  have htake := hspans.stands.take
  rw [List.drop_zero, hbefore] at htake
  rw [← htake, tokenize, List.map_append]
  rfl

/-- The literals of a source are those of its tree. -/
theorem literals_of_ofSource {concurrent : Bool} {budget : Nat} {source : String}
    (h : ofSource concurrent budget source = .ok tree) :
    tree.literals =
      ((tokenize source).map Token.piece).filter fun piece => piece.1.isLiteral := by
  rw [pieces_of_ofSource h, List.filter_append, literals]
  exact (List.append_nil _).symm

end Tree

end ThreeAddress
