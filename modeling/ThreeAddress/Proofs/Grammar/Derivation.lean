import ThreeAddress.Grammar.Phrase

/-!
# Trees as derivations

The grammar as a predicate on trees, and the text of a tree. `Tree.Derives` says which trees are
derivations of a phrase, `Tree.spelling` gives the tokens that a tree stands for, and
`Tree.nodesAt` tells at which of these tokens each of its nodes begins. The reader of a phrase is
compared with the three of them.

A spelling carries no lines, so two trees that differ in lines only (`Tree.unlined`) have the same
spelling.
-/

namespace ThreeAddress

/-! ## Tokens without lines -/

/-- A token without its line: its kind and its text. -/
abbrev Piece := TokenKind × String

/-- The kind and the text of a token. -/
def Token.piece (token : Token) : Piece := (token.kind, token.lexeme)

namespace TokenKind

/-- The piece of a kind that has one spelling. -/
def piece (kind : TokenKind) : Piece := (kind, String.ofList (kind.spelling?.getD []))

/-- The operator, bracket or separator that a text spells, `invalid` if it spells none. -/
def ofSpelling (text : String) : TokenKind :=
  (operators.find? fun kind => kind.spelling? == some text.toList).getD .invalid

end TokenKind

/-- A token of a kind with one spelling is written that way. -/
def Token.IsSpelled (token : Token) : Prop :=
  ∀ spelling, token.kind.spelling? = some spelling → token.lexeme = String.ofList spelling

/-- The kind that a text spells has this text as its spelling. -/
theorem TokenKind.spelling?_ofSpelling {text : String}
    (h : TokenKind.ofSpelling text ≠ .invalid) :
    (TokenKind.ofSpelling text).spelling? = some text.toList := by
  unfold ofSpelling at h ⊢
  cases hfind : operators.find? fun kind => kind.spelling? == some text.toList with
  | none => simp [hfind] at h
  | some found =>
    have hfound := List.find?_some hfind
    simpa using hfound

/-- A text is the spelling of the kind that it spells. -/
theorem TokenKind.eq_of_ofSpelling {text : String} {kind : TokenKind}
    (h : TokenKind.ofSpelling text = kind) (hkind : kind ≠ .invalid) :
    text = String.ofList (kind.spelling?.getD []) := by
  have hspelling := TokenKind.spelling?_ofSpelling (h ▸ hkind)
  rw [← h, hspelling, Option.getD_some, String.ofList_toList]

/-- The relational operators. -/
theorem TokenKind.mem_of_isRelational {operator : String}
    (h : (TokenKind.ofSpelling operator).isRelational = true) :
    operator ∈ ["==", "!=", "<", ">", "<=", ">="] := by
  generalize hkind : TokenKind.ofSpelling operator = kind at h
  rw [TokenKind.eq_of_ofSpelling hkind (by rintro rfl; cases h)]
  cases kind <;> first | decide | cases h

/-! ## Derivations -/

namespace Level

/-- The texts of the operators of a level. -/
def operators : Level → List String
  | or => ["||"]
  | and => ["&&"]
  | sum => ["+", "-"]
  | product => ["*", "/", "%"]

/-- The operators of a level are the texts of its kinds. -/
theorem mem_operators {level : Level} {operator : String}
    (h : level.holds (TokenKind.ofSpelling operator) = true) : operator ∈ level.operators := by
  generalize hkind : TokenKind.ofSpelling operator = kind at h
  rw [TokenKind.eq_of_ofSpelling hkind (by rintro rfl; cases level <;> cases h)]
  cases level <;> cases kind <;> first | decide | cases h

/-- The phrase that is a row of operations of the level. -/
def row : Level → Phrase
  | or => .relation
  | and => .conjunction
  | sum => .sum
  | product => .product

/-- The phrase that stands between the operators of the level. -/
def part : Level → Phrase
  | or => .conjunction
  | and => .negatable
  | sum => .product
  | product => .factor

end Level

namespace Tree

/-- An operation whose operator is of one of the given kinds. -/
def IsOperation (holds : TokenKind → Bool) : Tree → Prop
  | operation operator _ _ => holds (TokenKind.ofSpelling operator) = true
  | _ => False

/-- The right operand of an operation. -/
def operand : Tree → Tree
  | operation _ operand _ => operand
  | tree => tree

/-- The trees that the grammar gives a phrase. A row of one operand is that operand, so a chain
has at least one operation. -/
inductive Derives : Phrase → Tree → Prop where
  | program {statements : List Tree} {line : Line} :
      (∀ statement ∈ statements, Derives .statement statement) →
      Derives .program (.block statements line)
  | block {body : Tree} : Derives .program body → Derives .block body
  | assignment {name : String} {value : Tree} {line : Line} :
      Derives .relation value → Derives .statement (.assignment name value line)
  | letFixed {name : String} {value : Tree} {line : Line} :
      Derives .relation value → Derives .statement (.letFixed name value line)
  | letUnset {name : String} {line : Line} : Derives .statement (.letMutable name .absent line)
  | letMutable {name : String} {value : Tree} {line : Line} :
      Derives .relation value → Derives .statement (.letMutable name value line)
  | ifElse {condition body tail : Tree} {line : Line} :
      Derives .relation condition → Derives .block body → Derives .elsePart tail →
      Derives .statement (.ifElse condition body tail line)
  | loop {condition body : Tree} {line : Line} :
      Derives .relation condition → Derives .block body →
      Derives .statement (.loop condition body line)
  | output {format : String} {arguments : List Tree} {line : Line} :
      (∀ argument ∈ arguments, Derives .relation argument) →
      Derives .statement (.output format arguments line)
  | noElse : Derives .elsePart .absent
  | elseIf {condition body tail : Tree} {line : Line} :
      Derives .relation condition → Derives .block body → Derives .elsePart tail →
      Derives .elsePart (.elseIf condition body tail line)
  | otherwise {body : Tree} {line : Line} :
      Derives .block body → Derives .elsePart (.otherwise body line)
  | single {phrase : Phrase} {level : Level} {tree : Tree} : phrase = level.row →
      Derives level.part tree → Derives phrase tree
  | chain {phrase : Phrase} {level : Level} {first : Tree} {operations : List Tree} {line : Line} :
      phrase = level.row → Derives level.part first → operations ≠ [] →
      (∀ operation ∈ operations, operation.IsOperation level.holds) →
      (∀ operation ∈ operations, Derives level.part operation.operand) →
      Derives phrase (.chain level first operations line)
  | plain {sum : Tree} : Derives .sum sum → Derives .negatable sum
  | comparison {left operation : Tree} {line : Line} :
      Derives .sum left → operation.IsOperation TokenKind.isRelational →
      Derives .sum operation.operand → Derives .negatable (.comparison left operation line)
  | negation {operand : Tree} {line : Line} :
      Derives .relation operand → Derives .negatable (.negation operand line)
  | var {name : String} {line : Line} : Derives .factor (.var name line)
  | literal {kind : TokenKind} {lexeme : String} {line : Line} :
      kind.isLiteral = true → Derives .factor (.literal kind lexeme line)
  | input {line : Line} : Derives .factor (.input line)
  | group {inner : Tree} {line : Line} :
      Derives .relation inner → Derives .factor (.group inner line)
  | minus {operand : Tree} {line : Line} :
      Derives .factor operand → Derives .factor (.minus operand line)

/-! ## Spellings -/

/-- The sign in front of the first value of a declaration, which may be missing. -/
def initialSign : Tree → List Piece
  | absent => []
  | _ => [TokenKind.assign.piece]

mutual
/-- The tokens of a tree. -/
def spelling : Tree → List Piece
  | absent | bare _ => []
  | block statements _ => statementsSpelling statements
  | assignment name value _ => (.ident, name) :: TokenKind.assign.piece :: spelling value
  | letFixed name value _ =>
    TokenKind.kwLet.piece :: (.ident, name) :: TokenKind.assign.piece :: spelling value
  | letMutable name value _ =>
    TokenKind.kwLet.piece :: TokenKind.kwMut.piece :: (.ident, name) ::
      (initialSign value ++ spelling value)
  | ifElse condition body tail _ =>
    TokenKind.kwIf.piece :: (spelling condition ++ TokenKind.lbrace.piece ::
      (spelling body ++ TokenKind.rbrace.piece :: spelling tail))
  | elseIf condition body tail _ =>
    TokenKind.kwElse.piece :: TokenKind.kwIf.piece :: (spelling condition ++
      TokenKind.lbrace.piece :: (spelling body ++ TokenKind.rbrace.piece :: spelling tail))
  | otherwise body _ =>
    TokenKind.kwElse.piece :: TokenKind.lbrace.piece ::
      (spelling body ++ [TokenKind.rbrace.piece])
  | loop condition body _ =>
    TokenKind.kwWhile.piece :: (spelling condition ++ TokenKind.lbrace.piece ::
      (spelling body ++ [TokenKind.rbrace.piece]))
  | output format arguments _ =>
    TokenKind.kwOutput.piece :: (.stringLit, format) :: argumentsSpelling arguments
  | operation operator operand _ =>
    (TokenKind.ofSpelling operator, operator) :: spelling operand
  | chain _ first operations _ => spelling first ++ operationsSpelling operations
  | comparison left relation _ => spelling left ++ spelling relation
  | negation operand _ =>
    TokenKind.not.piece :: TokenKind.lparen.piece ::
      (spelling operand ++ [TokenKind.rparen.piece])
  | var name _ => [(.ident, name)]
  | literal kind lexeme _ => [(kind, lexeme)]
  | input _ => [TokenKind.kwInput.piece]
  | group inner _ => TokenKind.lparen.piece :: (spelling inner ++ [TokenKind.rparen.piece])
  | minus operand _ => TokenKind.minus.piece :: spelling operand

/-- The tokens of statements, each closed by a semicolon. -/
def statementsSpelling : List Tree → List Piece
  | [] => []
  | statement :: statements =>
    spelling statement ++ TokenKind.semicolon.piece :: statementsSpelling statements

/-- The tokens of arguments, each after a comma. -/
def argumentsSpelling : List Tree → List Piece
  | [] => []
  | argument :: arguments =>
    TokenKind.comma.piece :: (spelling argument ++ argumentsSpelling arguments)

/-- The tokens of operations, one after the other. -/
def operationsSpelling : List Tree → List Piece
  | [] => []
  | first :: others => spelling first ++ operationsSpelling others
end

/-- The tokens of operations and more operations. -/
theorem operationsSpelling_append (operations others : List Tree) :
    operationsSpelling (operations ++ others) =
      operationsSpelling operations ++ operationsSpelling others := by
  induction operations with
  | nil => rfl
  | cons operation operations ih =>
    rw [List.cons_append, operationsSpelling, operationsSpelling, ih, List.append_assoc]

/-! ## Parts of a tree -/

/-- The trees that a tree is put together from. -/
def parts : Tree → List Tree
  | absent | bare _ | var .. | literal .. | input _ => []
  | block statements _ => statements
  | assignment _ value _ | letFixed _ value _ | letMutable _ value _ => [value]
  | ifElse condition body tail _ | elseIf condition body tail _ => [condition, body, tail]
  | otherwise body _ => [body]
  | loop condition body _ => [condition, body]
  | output _ arguments _ => arguments
  | operation _ operand _ | negation operand _ | minus operand _ => [operand]
  | chain _ first operations _ => first :: operations
  | comparison left relation _ => [left, relation]
  | group inner _ => [inner]

/-- The tokens of a statement are among those of the statements. -/
theorem statement_sublist {statements : List Tree} :
    ∀ statement ∈ statements, statement.spelling.Sublist (statementsSpelling statements) := by
  induction statements with
  | nil => nofun
  | cons first others ih =>
    rw [statementsSpelling, List.forall_mem_cons]
    refine ⟨List.sublist_append_left _ _, fun statement hmem => ?_⟩
    exact .trans (.cons _ (ih statement hmem)) (List.sublist_append_right _ _)

/-- The tokens of an argument are among those of the arguments. -/
theorem argument_sublist {arguments : List Tree} :
    ∀ argument ∈ arguments, argument.spelling.Sublist (argumentsSpelling arguments) := by
  induction arguments with
  | nil => nofun
  | cons first others ih =>
    rw [argumentsSpelling, List.forall_mem_cons]
    refine ⟨.cons _ (List.sublist_append_left _ _), fun argument hmem => .cons _ ?_⟩
    exact .trans (ih argument hmem) (List.sublist_append_right _ _)

/-- There is a token in front of every argument. -/
theorem length_le_argumentsSpelling (arguments : List Tree) :
    arguments.length ≤ (argumentsSpelling arguments).length := by
  induction arguments with
  | nil => exact Nat.le_refl _
  | cons first others ih =>
    rw [argumentsSpelling, List.length_cons, List.length_cons, List.length_append]
    omega

/-- The tokens of an operation are among those of the operations. -/
theorem operation_sublist {operations : List Tree} :
    ∀ operation ∈ operations, operation.spelling.Sublist (operationsSpelling operations) := by
  induction operations with
  | nil => nofun
  | cons first others ih =>
    rw [operationsSpelling, List.forall_mem_cons]
    refine ⟨List.sublist_append_left _ _, fun operation hmem => ?_⟩
    exact .trans (ih operation hmem) (List.sublist_append_right _ _)

/-- The tokens of a part are among those of the tree. -/
theorem spelling_sublist {tree : Tree} :
    ∀ part ∈ tree.parts, part.spelling.Sublist tree.spelling := by
  cases tree with
  | absent | bare | var | literal | input => nofun
  | block => exact statement_sublist
  | output => exact fun argument hmem => .cons _ (.cons _ (argument_sublist argument hmem))
  | chain _ first operations =>
    rw [parts, spelling, List.forall_mem_cons]
    refine ⟨List.sublist_append_left _ _, fun operation hmem => ?_⟩
    exact .trans (operation_sublist operation hmem) (List.sublist_append_right _ _)
  | assignment | operation | minus | comparison | group => simp [parts, spelling]
  | letFixed | letMutable | ifElse | elseIf | otherwise | loop | negation =>
    grind [parts, spelling]

/-- The tokens of the statements behind the first are among those of all. -/
theorem block_sublist (statement : Tree) (statements : List Tree) (line : Line) :
    (block statements line).spelling.Sublist (block (statement :: statements) line).spelling := by
  rw [spelling, spelling, statementsSpelling]
  exact .trans (List.sublist_cons_self _ _) (List.sublist_append_right _ _)

/-- The tokens of a chain are among those of a longer one. -/
theorem chain_sublist (level : Level) (first : Tree) (operations others : List Tree)
    (line : Line) : (chain level first operations line).spelling.Sublist
      (chain level first (operations ++ others) line).spelling := by
  rw [spelling, spelling, operationsSpelling_append, ← List.append_assoc]
  exact List.sublist_append_left _ _

/-! ## Where the nodes of a tree begin -/

mutual
/-- The nodes of a tree whose spelling begins at a position, every node with the position at
which its own spelling begins. -/
def nodesAt : Nat → Tree → List (Nat × Tree)
  | _, absent => []
  | start, bare line => [(start, bare line)]
  | start, block statements line =>
    (start, block statements line) :: statementNodesAt start statements
  | start, assignment name value line =>
    (start, assignment name value line) :: nodesAt (start + 2) value
  | start, letFixed name value line =>
    (start, letFixed name value line) :: nodesAt (start + 3) value
  | start, letMutable name value line =>
    (start, letMutable name value line) :: nodesAt (start + 4) value
  | start, ifElse condition body tail line =>
    (start, ifElse condition body tail line) :: (nodesAt (start + 1) condition ++
      nodesAt (start + condition.spelling.length + 2) body ++
      nodesAt (start + condition.spelling.length + body.spelling.length + 3) tail)
  | start, elseIf condition body tail line =>
    (start, elseIf condition body tail line) :: (nodesAt (start + 2) condition ++
      nodesAt (start + condition.spelling.length + 3) body ++
      nodesAt (start + condition.spelling.length + body.spelling.length + 4) tail)
  | start, otherwise body line => (start, otherwise body line) :: nodesAt (start + 2) body
  | start, loop condition body line =>
    (start, loop condition body line) :: (nodesAt (start + 1) condition ++
      nodesAt (start + condition.spelling.length + 2) body)
  | start, output format arguments line =>
    (start, output format arguments line) :: argumentNodesAt (start + 2) arguments
  | start, operation operator operand line =>
    (start, operation operator operand line) :: nodesAt (start + 1) operand
  | start, chain level first operations line =>
    (start, chain level first operations line) ::
      (nodesAt start first ++ operationNodesAt (start + first.spelling.length) operations)
  | start, comparison left relation line =>
    (start, comparison left relation line) ::
      (nodesAt start left ++ nodesAt (start + left.spelling.length) relation)
  | start, negation operand line => (start, negation operand line) :: nodesAt (start + 2) operand
  | start, var name line => [(start, var name line)]
  | start, literal kind lexeme line => [(start, literal kind lexeme line)]
  | start, input line => [(start, input line)]
  | start, group inner line => (start, group inner line) :: nodesAt (start + 1) inner
  | start, minus operand line => (start, minus operand line) :: nodesAt (start + 1) operand

/-- The nodes of statements, each of which is followed by a semicolon. -/
def statementNodesAt : Nat → List Tree → List (Nat × Tree)
  | _, [] => []
  | start, statement :: statements =>
    nodesAt start statement ++ statementNodesAt (start + statement.spelling.length + 1) statements

/-- The nodes of arguments, each of which stands behind a comma. -/
def argumentNodesAt : Nat → List Tree → List (Nat × Tree)
  | _, [] => []
  | start, argument :: arguments =>
    nodesAt (start + 1) argument ++
      argumentNodesAt (start + argument.spelling.length + 1) arguments

/-- The nodes of operations. -/
def operationNodesAt : Nat → List Tree → List (Nat × Tree)
  | _, [] => []
  | start, first :: others =>
    nodesAt start first ++ operationNodesAt (start + first.spelling.length) others
end

/-! ## Trees without lines -/

mutual
/-- The tree with every line set to zero. -/
def unlined : Tree → Tree
  | absent => absent
  | bare _ => bare 0
  | block statements _ => block (unlinedAll statements) 0
  | assignment name value _ => assignment name (unlined value) 0
  | letFixed name value _ => letFixed name (unlined value) 0
  | letMutable name value _ => letMutable name (unlined value) 0
  | ifElse condition body tail _ => ifElse (unlined condition) (unlined body) (unlined tail) 0
  | elseIf condition body tail _ => elseIf (unlined condition) (unlined body) (unlined tail) 0
  | otherwise body _ => otherwise (unlined body) 0
  | loop condition body _ => loop (unlined condition) (unlined body) 0
  | output format arguments _ => output format (unlinedAll arguments) 0
  | operation operator operand _ => operation operator (unlined operand) 0
  | chain level first operations _ => chain level (unlined first) (unlinedAll operations) 0
  | comparison left relation _ => comparison (unlined left) (unlined relation) 0
  | negation operand _ => negation (unlined operand) 0
  | var name _ => var name 0
  | literal kind lexeme _ => literal kind lexeme 0
  | input _ => input 0
  | group inner _ => group (unlined inner) 0
  | minus operand _ => minus (unlined operand) 0

/-- The trees with every line set to zero. -/
def unlinedAll : List Tree → List Tree
  | [] => []
  | tree :: trees => unlined tree :: unlinedAll trees
end

mutual
/-- A spelling carries no lines. -/
theorem spelling_unlined : ∀ tree : Tree, tree.unlined.spelling = tree.spelling
  | absent | bare _ | var .. | literal .. | input _ => rfl
  | block statements _ => by
    rw [unlined, spelling, statementsSpelling_unlined statements, spelling]
  | assignment _ value _ | letFixed _ value _ => by
    rw [unlined, spelling, spelling_unlined value, spelling]
  | letMutable _ value _ => by
    have hsign : initialSign value.unlined = initialSign value := by cases value <;> rfl
    rw [unlined, spelling, hsign, spelling_unlined value, spelling]
  | ifElse condition body tail _ | elseIf condition body tail _ => by
    rw [unlined, spelling, spelling_unlined condition, spelling_unlined body,
      spelling_unlined tail, spelling]
  | otherwise body _ => by rw [unlined, spelling, spelling_unlined body, spelling]
  | loop condition body _ => by
    rw [unlined, spelling, spelling_unlined condition, spelling_unlined body, spelling]
  | output _ arguments _ => by
    rw [unlined, spelling, argumentsSpelling_unlined arguments, spelling]
  | chain _ first operations _ => by
    rw [unlined, spelling, spelling_unlined first, operationsSpelling_unlined operations, spelling]
  | comparison left relation _ => by
    rw [unlined, spelling, spelling_unlined left, spelling_unlined relation, spelling]
  | operation _ operand _ | negation operand _ | group operand _ | minus operand _ => by
    rw [unlined, spelling, spelling_unlined operand, spelling]

/-- The spelling of statements carries no lines. -/
theorem statementsSpelling_unlined : ∀ statements : List Tree,
    statementsSpelling (unlinedAll statements) = statementsSpelling statements
  | [] => rfl
  | statement :: statements => by
    rw [unlinedAll, statementsSpelling, spelling_unlined statement,
      statementsSpelling_unlined statements, statementsSpelling]

/-- The spelling of arguments carries no lines. -/
theorem argumentsSpelling_unlined : ∀ arguments : List Tree,
    argumentsSpelling (unlinedAll arguments) = argumentsSpelling arguments
  | [] => rfl
  | argument :: arguments => by
    rw [unlinedAll, argumentsSpelling, spelling_unlined argument,
      argumentsSpelling_unlined arguments, argumentsSpelling]

/-- The spelling of operations carries no lines. -/
theorem operationsSpelling_unlined : ∀ operations : List Tree,
    operationsSpelling (unlinedAll operations) = operationsSpelling operations
  | [] => rfl
  | first :: others => by
    rw [unlinedAll, operationsSpelling, spelling_unlined first,
      operationsSpelling_unlined others, operationsSpelling]
end

/-! ## Inversion -/

/-- Only the part after a conditional may be missing. -/
theorem Derives.ne_absent {phrase : Phrase} {tree : Tree} (h : tree.Derives phrase)
    (hphrase : phrase ≠ .elsePart) : tree ≠ .absent := by
  induction h with
  | noElse => exact absurd rfl hphrase
  | block _ ih => exact ih (by simp)
  | @single _ level _ hrow _ ih => exact ih (by cases level <;> nofun)
  | plain _ ih => exact ih (by simp)
  | _ => simp

/-- A row is its only part, or a chain of at least one operation. -/
theorem Derives.row_inv {level : Level} {tree : Tree} (h : tree.Derives level.row) :
    tree.Derives level.part ∨
      ∃ first operations line, tree = .chain level first operations line ∧
        first.Derives level.part ∧ operations ≠ [] ∧
        (∀ operation ∈ operations, operation.IsOperation level.holds) ∧
        ∀ operation ∈ operations, operation.operand.Derives level.part := by
  have hinj : ∀ level' : Level, level.row = level'.row → level = level' := by
    intro level'
    cases level <;> cases level' <;> first | exact fun _ => rfl | exact fun h => by cases h
  generalize hphrase : level.row = phrase at h
  cases h with
  | single hrow hpart =>
    cases hinj _ (hphrase.trans hrow)
    exact .inl hpart
  | @chain _ level' first operations line hrow hfirst hne hholds hoperands =>
    cases hinj _ (hphrase.trans hrow)
    exact .inr ⟨first, operations, line, rfl, hfirst, hne, hholds, hoperands⟩
  | _ => cases level <;> cases hphrase

/-- A program is a block of statements. -/
theorem Derives.program_inv {tree : Tree} (h : tree.Derives .program) :
    ∃ statements line, tree = .block statements line ∧
      ∀ statement ∈ statements, statement.Derives .statement := by
  cases h with
  | program hstatements => exact ⟨_, _, rfl, hstatements⟩
  | @single _ level => cases level <;> contradiction
  | @chain _ level => cases level <;> contradiction

/-- What stands between braces is a program. -/
theorem Derives.block_inv {tree : Tree} (h : tree.Derives .block) : tree.Derives .program := by
  cases h with
  | block hprogram => exact hprogram
  | @single _ level => cases level <;> contradiction
  | @chain _ level => cases level <;> contradiction

/-- A value that is there has a sign in front of it. -/
theorem initialSign_of_ne_absent {value : Tree} (h : value ≠ .absent) :
    initialSign value = [TokenKind.assign.piece] := by
  cases value <;> first | rfl | exact absurd rfl h

/-- An operation is an operator and its operand. -/
theorem IsOperation.eq {holds : TokenKind → Bool} {tree : Tree} (h : tree.IsOperation holds) :
    ∃ operator operand line, tree = .operation operator operand line ∧
      holds (TokenKind.ofSpelling operator) = true := by
  cases tree <;> simp only [IsOperation] at h
  exact ⟨_, _, _, rfl, h⟩

/-- The tokens that a sum may begin with. -/
theorem Derives.head_of_sum {phrase : Phrase} {tree : Tree} (h : tree.Derives phrase)
    (hphrase : phrase = .sum ∨ phrase = .product ∨ phrase = .factor) :
    ∃ piece pieces, tree.spelling = piece :: pieces ∧ piece.1 ≠ .not := by
  induction h with
  | @single _ level _ hrow _ ih =>
    subst hrow
    refine ih ?_
    cases level <;> simp [Level.row, Level.part] at hphrase ⊢
  | @chain _ level first operations line hrow _ _ _ _ ih _ =>
    subst hrow
    obtain ⟨piece, pieces, hspelling, hne⟩ := ih (by
      cases level <;> simp [Level.row, Level.part] at hphrase ⊢)
    exact ⟨piece, _, by rw [spelling, hspelling, List.cons_append], hne⟩
  | var => exact ⟨_, _, rfl, by simp⟩
  | literal hkind =>
    refine ⟨_, _, rfl, ?_⟩
    rintro rfl
    cases hkind
  | input | group | minus => exact ⟨_, _, rfl, by decide⟩
  | _ => simp at hphrase

/-- The tokens that a statement may begin with. -/
theorem Derives.head_of_statement {tree : Tree} (h : tree.Derives .statement) :
    ∃ piece pieces, tree.spelling = piece :: pieces ∧
      piece.1 ∈ [.ident, .kwLet, .kwIf, .kwWhile, .kwOutput] := by
  cases h with
  | single hrow => rename_i level _; cases level <;> cases hrow
  | chain hrow => rename_i level _ _ _ _ _ _ _; cases level <;> cases hrow
  | _ => exact ⟨_, _, rfl, by simp [TokenKind.piece]⟩

end Tree

end ThreeAddress
