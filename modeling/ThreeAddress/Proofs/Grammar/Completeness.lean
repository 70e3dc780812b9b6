import ThreeAddress.Proofs.Grammar.Position

/-!
# What the reader does not refuse

The tokens of a derivation are read back as that derivation, up to lines, unless the budget ends
(`Phrase.read_completes`). One token ahead is enough because a token that may follow a phrase
(`Phrase.follows`) never continues it. How large a budget is enough is bounded by the number of
tokens (`Phrase.need`).
-/

namespace ThreeAddress

open Sequence

variable {tokens : List Token} {position stop : Nat}

/-! ## Which tokens may follow a phrase -/

/-- The tokens that may stand behind a relation: it is closed by a semicolon or a parenthesis,
followed by an argument, or by the block that it is the condition of. -/
def TokenKind.endsRelation : TokenKind → Bool
  | semicolon | comma | rparen | lbrace => true
  | _ => false

/-- Whether a token of the kind may stand behind the phrase. -/
def Phrase.follows : Phrase → TokenKind → Bool
  | program, kind => kind = .endOfFile || kind = .rbrace
  | statement, kind | elsePart, kind => kind = .semicolon
  | block, _ => true
  | relation, kind => kind.endsRelation
  | conjunction, kind => kind.endsRelation || Level.or.holds kind
  | negatable, kind => kind.endsRelation || Level.or.holds kind || Level.and.holds kind
  | sum, kind =>
    kind.endsRelation || Level.or.holds kind || Level.and.holds kind || kind.isRelational
  | product, kind =>
    kind.endsRelation || Level.or.holds kind || Level.and.holds kind || kind.isRelational ||
      Level.sum.holds kind
  | factor, kind =>
    kind.endsRelation || Level.or.holds kind || Level.and.holds kind || kind.isRelational ||
      Level.sum.holds kind || Level.product.holds kind

namespace Level

/-- What follows a row follows its last part. -/
theorem part_follows_of_row (level : Level) {kind : TokenKind}
    (h : level.row.follows kind = true) : level.part.follows kind = true := by
  cases level <;> cases kind <;> first | rfl | cases h

/-- The operators of a level follow its parts. -/
theorem part_follows_of_holds (level : Level) {kind : TokenKind}
    (h : level.holds kind = true) : level.part.follows kind = true := by
  cases level <;> cases kind <;> first | rfl | cases h

/-- The operators of a level do not follow its rows. -/
theorem not_holds_of_row_follows (level : Level) {kind : TokenKind}
    (h : level.row.follows kind = true) : level.holds kind = false := by
  cases level <;> cases kind <;> first | rfl | cases h

end Level

namespace Phrase

variable {kind : TokenKind}

/-- What follows a comparison follows its operands. -/
theorem sum_follows_of_negatable (h : negatable.follows kind = true) :
    sum.follows kind = true := by
  cases kind <;> first | rfl | cases h

/-- A relational operator follows a sum. -/
theorem sum_follows_of_isRelational (h : kind.isRelational = true) :
    sum.follows kind = true := by
  cases kind <;> first | rfl | cases h

/-- No relational operator follows a comparison. -/
theorem not_relational_of_negatable (h : negatable.follows kind = true) :
    kind.isRelational = false := by
  cases kind <;> first | rfl | cases h

end Phrase

/-! ## How large a budget is enough -/

/-- How many phrases may begin at one token before one of them takes a token. -/
def Phrase.rank : Phrase → Nat
  | factor => 1
  | product => 2
  | sum => 3
  | negatable => 4
  | conjunction => 5
  | relation => 6
  | statement | elsePart => 7
  | program => 8
  | block => 9

/-- A budget that is enough for a tree as a phrase. -/
def Phrase.need (phrase : Phrase) (tree : Tree) : Nat := 10 * tree.spelling.length + phrase.rank

/-- The rank of a part is one less than that of its row. -/
theorem Level.rank_row (level : Level) : level.row.rank = level.part.rank + 1 := by
  cases level <;> rfl

/-- Ranks are not zero. -/
theorem Phrase.rank_pos (phrase : Phrase) : 0 < phrase.rank := by
  cases phrase <;> decide

/-- Ranks are below ten. -/
theorem Phrase.rank_lt (phrase : Phrase) : phrase.rank < 10 := by
  cases phrase <;> decide

/-- A part of a tree that has fewer tokens needs less. -/
theorem Phrase.need_lt {part whole : Tree} (phrase phrase' : Phrase)
    (h : part.spelling.length < whole.spelling.length) :
    phrase.need part < phrase'.need whole := by
  have := phrase.rank_lt
  unfold need
  omega

/-! ## Readers that do not refuse -/

namespace Reader

variable {Value Other : Type} {deep : Prop} {cursor : Cursor}

/-- The reader has a value of the wanted kind and the cursor ends at the position, or the budget
is used up, which happens only if the nesting is deep. -/
def Yields (tokens : List Token) (deep : Prop) (reader : Reader Value) (cursor : Cursor)
    (stop : Nat) (wanted : Value → Prop) : Prop :=
  (∃ value after, reader cursor = .ok value after ∧ after.At tokens stop ∧ wanted value) ∨
    (deep ∧ ∃ lexeme line after, reader cursor = .error (.tooDeep lexeme line) after)

namespace Yields

variable {reader : Reader Value} {wanted wanted' : Value → Prop}

/-- A plain value. -/
theorem pure {value : Value} (hat : cursor.At tokens stop) (h : wanted value) :
    Yields tokens deep (Pure.pure value) cursor stop wanted :=
  .inl ⟨value, cursor, rfl, hat, h⟩

/-- A reader and what follows it. -/
theorem bind {middle : Nat} {next : Value → Reader Other} {wantedNext : Other → Prop}
    (h : Yields tokens deep reader cursor middle wanted)
    (hnext : ∀ value after, after.At tokens middle → wanted value →
      Yields tokens deep (next value) after stop wantedNext) :
    Yields tokens deep (reader >>= next) cursor stop wantedNext := by
  rcases h with ⟨value, after, hrun, hat, hwanted⟩ | ⟨hdeep, lexeme, line, after, hrun⟩
  · rcases hnext value after hat hwanted with
      ⟨result, last, hlast, hatLast, hresult⟩ | ⟨hdeep, lexeme, line, last, hlast⟩
    · exact .inl ⟨result, last, bind_ok.2 ⟨value, after, hrun, hlast⟩, hatLast, hresult⟩
    · exact .inr ⟨hdeep, lexeme, line, last, bind_error.2 (.inr ⟨value, after, hrun, hlast⟩)⟩
  · exact .inr ⟨hdeep, lexeme, line, after, bind_error.2 (.inl hrun)⟩

/-- Looking at the token, and what follows. -/
theorem current {next : Token → Reader Other} {wantedNext : Other → Prop}
    (h : Yields tokens deep (next cursor.token) cursor stop wantedNext) :
    Yields tokens deep (Reader.current >>= next) cursor stop wantedNext := h

/-- Looking at the tokens left, and what follows. -/
theorem remaining {next : List Token → Reader Other} {wantedNext : Other → Prop}
    (hat : cursor.At tokens position)
    (h : Yields tokens deep (next (tokens.drop position)) cursor stop wantedNext) :
    Yields tokens deep (Reader.remaining >>= next) cursor stop wantedNext := by
  rw [← hat.pending] at h
  exact h

/-- Weaker demands. -/
theorem mono {deep' : Prop} (h : Yields tokens deep reader cursor stop wanted)
    (hdeep : deep → deep') (hwanted : ∀ value, wanted value → wanted' value) :
    Yields tokens deep' reader cursor stop wanted' := by
  rcases h with ⟨value, after, hrun, hat, hvalue⟩ | ⟨h, hrun⟩
  · exact .inl ⟨value, after, hrun, hat, hwanted value hvalue⟩
  · exact .inr ⟨hdeep h, hrun⟩

end Yields

/-- Among valid tokens an advance takes the token at the position. -/
theorem advance_yields (hvalid : ∀ token ∈ tokens, token.kind ≠ .invalid)
    (hat : cursor.At tokens position) {token : Token} (htoken : tokens[position]? = some token) :
    Yields tokens deep advance cursor (position + 1) fun _ => True := by
  have htoken' := hat.token_of_getElem? htoken
  have hkind : cursor.token.kind ≠ .invalid :=
    htoken' ▸ hvalid token (List.mem_of_getElem? htoken)
  have hnext : ∃ after, advance cursor = .ok () after := by
    unfold advance
    cases hunread : cursor.unread with
    | nil => exact ⟨_, rfl⟩
    | cons next unread =>
      have hmem : next ∈ tokens := by
        refine List.mem_of_mem_drop (i := position) ?_
        rw [← hat.pending, hunread]
        simp
      exact ⟨_, if_neg (hvalid next hmem)⟩
  obtain ⟨after, hafter⟩ := hnext
  exact .inl ⟨(), after, hafter, hat.advance_ok hkind hafter, trivial⟩

/-- A token whose piece stands at the position. -/
theorem token_of_piece (hat : cursor.At tokens position) {piece : Piece}
    (h : (tokens[position]?).map Token.piece = some piece) :
    tokens[position]? = some cursor.token ∧ cursor.token.kind = piece.1 ∧
      cursor.token.lexeme = piece.2 := by
  obtain ⟨token, htoken, rfl⟩ := Option.map_eq_some_iff.1 h
  rw [hat.token_of_getElem? htoken]
  exact ⟨htoken, rfl, rfl⟩

/-- A token of a kind with one spelling that stands at the position. -/
theorem token_of_kind (hat : cursor.At tokens position) {kind : TokenKind}
    (h : (tokens[position]?).map Token.piece = some kind.piece) :
    tokens[position]? = some cursor.token ∧ cursor.token.kind = kind := by
  obtain ⟨htoken, hkind, -⟩ := token_of_piece hat h
  exact ⟨htoken, hkind⟩

/-- An expected token that stands at the position is taken. -/
theorem expect_yields (hvalid : ∀ token ∈ tokens, token.kind ≠ .invalid)
    (hat : cursor.At tokens position) {kind : TokenKind} {lexeme : String} (what : Expectation)
    (h : (tokens[position]?).map Token.piece = some (kind, lexeme)) :
    Yields tokens deep (expect kind what) cursor (position + 1)
      fun token => token.lexeme = lexeme := by
  obtain ⟨htoken, hkind, hlexeme⟩ := token_of_piece hat h
  unfold expect
  refine Yields.current ?_
  rw [if_pos hkind]
  exact (advance_yields hvalid hat htoken).bind fun _ after hafter _ =>
    .pure hafter hlexeme

/-- A reader of a phrase under a budget: it reads every derivation of the phrase that is followed
by a token that may follow. -/
def Completes (tokens : List Token) (phrase : Phrase) (budget : Nat) (reader : Reader Tree) :
    Prop :=
  ∀ tree position cursor next, tree.Derives phrase → cursor.At tokens position →
    Stands tokens position tree.spelling →
    tokens[position + tree.spelling.length]? = some next → phrase.follows next.kind = true →
    Yields tokens (budget < phrase.need tree) reader cursor (position + tree.spelling.length)
      fun result => result.unlined = tree.unlined

/-! ## Rows -/

/-- The token behind the first part of a row: an operator of the level, or what follows the
row. -/
theorem operations_head {level : Level} {operations : List Tree} {next : Token}
    (hoperations : ∀ operation ∈ operations, operation.IsOperation level.holds)
    (hstands : Stands tokens position (Tree.operationsSpelling operations))
    (hnext : tokens[position + (Tree.operationsSpelling operations).length]? = some next)
    (hfollows : level.row.follows next.kind = true) :
    ∃ token, tokens[position]? = some token ∧ level.part.follows token.kind = true := by
  cases operations with
  | nil => exact ⟨next, hnext, level.part_follows_of_row hfollows⟩
  | cons operation operations =>
    obtain ⟨operator, operand, line, rfl, hholds⟩ := (hoperations operation (by simp)).eq
    rw [Tree.operationsSpelling, Tree.spelling, List.cons_append, stands_cons] at hstands
    obtain ⟨token, htoken, hpiece⟩ := Option.map_eq_some_iff.1 hstands.1
    have hkind : token.kind = TokenKind.ofSpelling operator := congrArg Prod.fst hpiece
    exact ⟨token, htoken, level.part_follows_of_holds (hkind ▸ hholds)⟩

/-- There are no more operations than tokens. -/
theorem operations_length {holds : TokenKind → Bool} {operations : List Tree}
    (h : ∀ operation ∈ operations, operation.IsOperation holds) :
    operations.length ≤ (Tree.operationsSpelling operations).length := by
  induction operations with
  | nil => simp
  | cons operation operations ih =>
    obtain ⟨operator, operand, line, rfl, -⟩ := (h operation (by simp)).eq
    have hrest := ih fun other hother => h other (List.mem_cons_of_mem _ hother)
    simp only [Tree.operationsSpelling, Tree.spelling, List.length_append, List.length_cons]
    omega

/-- The operations of a row. -/
theorem operations_yields (hvalid : ∀ token ∈ tokens, token.kind ≠ .invalid) {level : Level}
    {budget : Nat} {part : Reader Tree} (hpart : Completes tokens level.part budget part)
    {deep : Prop} {next : Token} (hfollows : level.row.follows next.kind = true)
    (operations : List Tree) :
    ∀ (bound : List Token) {position : Nat} {cursor : Cursor},
      operations.length ≤ bound.length →
      (∀ operation ∈ operations, operation.IsOperation level.holds) →
      (∀ operation ∈ operations, operation.operand.Derives level.part) →
      (∀ operation ∈ operations, budget < level.part.need operation.operand → deep) →
      cursor.At tokens position → Stands tokens position (Tree.operationsSpelling operations) →
      tokens[position + (Tree.operationsSpelling operations).length]? = some next →
      Yields tokens deep (Reader.operations level part bound) cursor
        (position + (Tree.operationsSpelling operations).length)
        fun results => Tree.unlinedAll results = Tree.unlinedAll operations := by
  induction operations with
  | nil =>
    intro bound position cursor _ _ _ _ hat _ hnext
    have hstop : cursor.token = next := hat.token_of_getElem? hnext
    cases bound with
    | nil => exact .pure hat rfl
    | cons _ bound =>
      refine Yields.current ?_
      rw [hstop, if_neg (by rw [level.not_holds_of_row_follows hfollows]; simp)]
      exact .pure hat rfl
  | cons operation operations ih =>
    intro bound position cursor hbound hoperations hderives hdeep hat hstands hnext
    obtain ⟨operator, operand, line, rfl, hholds⟩ := (hoperations operation (by simp)).eq
    have hoperations' := fun other hother => hoperations other (List.mem_cons_of_mem _ hother)
    obtain ⟨_, bound, rfl⟩ : ∃ token tail, bound = token :: tail := by
      cases bound with
      | nil => simp at hbound
      | cons token bound => exact ⟨token, bound, rfl⟩
    rw [Tree.operationsSpelling, Tree.spelling, List.cons_append, stands_cons,
      stands_append] at hstands
    obtain ⟨hoperator, hoperand, hrest⟩ := hstands
    obtain ⟨htoken, hkind, hlexeme⟩ := token_of_piece hat hoperator
    have hlength : position + (Tree.operationsSpelling
        (Tree.operation operator operand line :: operations)).length =
        position + 1 + operand.spelling.length + (Tree.operationsSpelling operations).length := by
      simp only [Tree.operationsSpelling, Tree.spelling, List.length_append, List.length_cons]
      omega
    rw [hlength] at hnext ⊢
    obtain ⟨behind, hbehind, hbehindKind⟩ := operations_head hoperations' hrest hnext hfollows
    refine Yields.current ?_
    rw [if_pos (hkind ▸ hholds)]
    refine (advance_yields hvalid hat htoken).bind fun _ c₁ hat₁ _ => ?_
    have hright := hpart operand _ _ behind (hderives _ (.head _)) hat₁ hoperand hbehind hbehindKind
    refine (hright.mono (hdeep _ (.head _)) fun _ h => h).bind fun right c₂ hat₂ hrightEq => ?_
    have hothers := ih bound (by simpa using hbound) hoperations'
      (fun other hother => hderives other (List.mem_cons_of_mem _ hother))
      (fun other hother => hdeep other (List.mem_cons_of_mem _ hother)) hat₂ hrest hnext
    refine hothers.bind fun others c₃ hat₃ hothersEq => ?_
    refine .pure hat₃ ?_
    rw [Tree.unlinedAll, Tree.unlinedAll, hothersEq, Tree.unlined, Tree.unlined, hrightEq, hlexeme]

/-- An operand has fewer tokens than the operations it belongs to. -/
theorem operand_length {holds : TokenKind → Bool} {operations : List Tree} {operation : Tree}
    (hmem : operation ∈ operations) (h : operation.IsOperation holds) :
    operation.operand.spelling.length < (Tree.operationsSpelling operations).length := by
  obtain ⟨operator, operand, line, rfl, -⟩ := h.eq
  induction operations with
  | nil => cases hmem
  | cons other operations ih =>
    rw [Tree.operationsSpelling, List.length_append]
    cases hmem with
    | head =>
      simp only [Tree.operand, Tree.spelling, List.length_cons]
      omega
    | tail _ hmem =>
      have := ih hmem
      omega

/-- A first operand and operations; without operations it is the operand alone. -/
theorem row_yields (hvalid : ∀ token ∈ tokens, token.kind ≠ .invalid) {level : Level}
    {budget : Nat} {part : Reader Tree} (hpart : Completes tokens level.part budget part)
    (deep : Prop) {first : Tree} (operations : List Tree) {next : Token}
    (hfirst : first.Derives level.part) (hfirstDeep : budget < level.part.need first → deep)
    (hoperations : ∀ operation ∈ operations, operation.IsOperation level.holds)
    (hoperands : ∀ operation ∈ operations, operation.operand.Derives level.part)
    (hoperandsDeep : ∀ operation ∈ operations, budget < level.part.need operation.operand → deep)
    (hat : cursor.At tokens position)
    (hstands : Stands tokens position (first.spelling ++ Tree.operationsSpelling operations))
    (hnext : tokens[position +
      (first.spelling ++ Tree.operationsSpelling operations).length]? = some next)
    (hfollows : level.row.follows next.kind = true) :
    Yields tokens deep (row level part) cursor
      (position + (first.spelling ++ Tree.operationsSpelling operations).length)
      fun result => result.unlined = if operations = [] then first.unlined
        else .chain level first.unlined (Tree.unlinedAll operations) 0 := by
  obtain ⟨hstands₁, hstands₂⟩ := stands_append.1 hstands
  rw [List.length_append, ← Nat.add_assoc] at hnext ⊢
  obtain ⟨behind, hbehind, hbehindKind⟩ := operations_head hoperations hstands₂ hnext hfollows
  refine Yields.current ?_
  have hread := hpart first _ _ behind hfirst hat hstands₁ hbehind hbehindKind
  refine (hread.mono hfirstDeep fun _ h => h).bind fun left c₁ hat₁ hleft => ?_
  refine Yields.remaining hat₁ ?_
  have hbound : operations.length ≤ (tokens.drop (position + first.spelling.length)).length := by
    have h₁ := operations_length hoperations
    have h₂ := congrArg List.length hstands₂.take
    simp only [List.length_map, List.length_take] at h₂
    omega
  refine (operations_yields hvalid hpart hfollows operations _ hbound hoperations hoperands
    hoperandsDeep hat₁ hstands₂ hnext).bind fun others c₂ hat₂ hothers => ?_
  cases operations with
  | nil =>
    cases others with
    | nil => exact .pure hat₂ hleft
    | cons => simp [Tree.unlinedAll] at hothers
  | cons operation operations =>
    cases others with
    | nil => simp [Tree.unlinedAll] at hothers
    | cons other others =>
      refine .pure hat₂ ?_
      rw [Tree.unlined, hleft, hothers, if_neg (by simp)]

/-- A row of operands. -/
theorem row_completes (level : Level) (hvalid : ∀ token ∈ tokens, token.kind ≠ .invalid)
    {budget : Nat} {part : Reader Tree} (hpart : Completes tokens level.part budget part) :
    Completes tokens level.row (budget + 1) (row level part) := by
  intro tree position cursor next hderives hat hstands hnext hfollows
  have hrank := level.rank_row
  rcases hderives.row_inv with hsingle |
    ⟨first, operations, line, rfl, hfirst, hne, hholds, hoperands⟩
  · have hnil : tree.spelling ++ Tree.operationsSpelling [] = tree.spelling := by
      simp [Tree.operationsSpelling]
    have hyields := row_yields hvalid hpart (budget + 1 < level.row.need tree) [] hsingle
      (by unfold Phrase.need; omega) (by simp) (by simp) (by simp) hat (by rwa [hnil])
      (by rwa [hnil]) hfollows
    rw [hnil] at hyields
    exact hyields.mono id fun _ h => h
  · have hlength := operations_length hholds
    have hpos := List.length_pos_iff.2 hne
    have hrank' := level.part.rank_lt
    have hyields := row_yields hvalid hpart
      (budget + 1 < level.row.need (.chain level first operations line)) operations hfirst
      (by
        unfold Phrase.need
        rw [Tree.spelling, List.length_append]
        omega) hholds hoperands
      (by
        intro operation hmem
        have := operand_length hmem (hholds operation hmem)
        unfold Phrase.need
        rw [Tree.spelling, List.length_append]
        omega) hat hstands hnext hfollows
    rw [if_neg hne] at hyields
    exact hyields

/-! ## Programs and blocks -/

/-- A statement has fewer tokens than the statements it belongs to. -/
theorem statement_length {statements : List Tree} {statement : Tree}
    (hmem : statement ∈ statements) :
    statement.spelling.length < (Tree.statementsSpelling statements).length := by
  induction statements with
  | nil => cases hmem
  | cons first statements ih =>
    rw [Tree.statementsSpelling, List.length_append, List.length_cons]
    cases hmem with
    | head => omega
    | tail _ hmem =>
      have := ih hmem
      omega

/-- There are no more statements than tokens. -/
theorem statements_length (statements : List Tree) :
    statements.length ≤ (Tree.statementsSpelling statements).length := by
  induction statements with
  | nil => simp
  | cons statement statements ih =>
    simp only [Tree.statementsSpelling, List.length_append, List.length_cons]
    omega

/-- The statements of a program. -/
theorem statements_yields (hvalid : ∀ token ∈ tokens, token.kind ≠ .invalid) {budget : Nat}
    {statement : Reader Tree} (hstatement : Completes tokens .statement budget statement)
    {deep : Prop} {next : Token} (hfollows : Phrase.program.follows next.kind = true)
    (trees : List Tree) :
    ∀ (bound : List Token) {position : Nat} {cursor : Cursor},
      trees.length ≤ bound.length → (∀ tree ∈ trees, tree.Derives .statement) →
      (∀ tree ∈ trees, budget < Phrase.statement.need tree → deep) →
      cursor.At tokens position → Stands tokens position (Tree.statementsSpelling trees) →
      tokens[position + (Tree.statementsSpelling trees).length]? = some next →
      Yields tokens deep (Reader.statements statement bound) cursor
        (position + (Tree.statementsSpelling trees).length)
        fun results => Tree.unlinedAll results = Tree.unlinedAll trees := by
  induction trees with
  | nil =>
    intro bound position cursor _ _ _ hat _ hnext
    have hstop : cursor.token = next := hat.token_of_getElem? hnext
    cases bound with
    | nil => exact .pure hat rfl
    | cons _ bound =>
      refine Yields.current ?_
      rw [hstop]
      have hkind : next.kind = .endOfFile ∨ next.kind = .rbrace := by
        simpa [Phrase.follows] using hfollows
      rcases hkind with hkind | hkind <;> rw [hkind] <;> exact .pure hat rfl
  | cons tree trees ih =>
    intro bound position cursor hbound hderives hdeep hat hstands hnext
    obtain ⟨_, bound, rfl⟩ : ∃ token tail, bound = token :: tail := by
      cases bound with
      | nil => simp at hbound
      | cons token bound => exact ⟨token, bound, rfl⟩
    have htree := hderives tree (.head _)
    rw [Tree.statementsSpelling, stands_append, stands_cons] at hstands
    obtain ⟨hfirst, hsemicolon, hrest⟩ := hstands
    obtain ⟨behind, hbehind, hbehindPiece⟩ := Option.map_eq_some_iff.1 hsemicolon
    have hlength : position + (Tree.statementsSpelling (tree :: trees)).length =
        position + tree.spelling.length + 1 + (Tree.statementsSpelling trees).length := by
      simp only [Tree.statementsSpelling, List.length_append, List.length_cons]
      omega
    rw [hlength] at hnext ⊢
    have hread := hstatement tree _ _ behind htree hat hfirst hbehind (by
      rw [show behind.kind = .semicolon from congrArg Prod.fst hbehindPiece]; rfl)
    have hround : Yields tokens deep (do
        let first ← statement
        let _ ← expect .semicolon .semicolon
        let others ← Reader.statements statement bound
        return first :: others) cursor
        (position + tree.spelling.length + 1 + (Tree.statementsSpelling trees).length)
        fun results => Tree.unlinedAll results = Tree.unlinedAll (tree :: trees) := by
      refine (hread.mono (hdeep _ (.head _)) fun _ h => h).bind fun first c₁ hat₁ hfirstEq => ?_
      refine (expect_yields hvalid hat₁ .semicolon hsemicolon).bind fun _ c₂ hat₂ _ => ?_
      have hothers := ih bound (by simpa using hbound)
        (fun other hother => hderives other (List.mem_cons_of_mem _ hother))
        (fun other hother => hdeep other (List.mem_cons_of_mem _ hother)) hat₂ hrest hnext
      refine hothers.bind fun others c₃ hat₃ hothersEq => .pure hat₃ ?_
      rw [Tree.unlinedAll, Tree.unlinedAll, hfirstEq, hothersEq]
    -- the first token is one of the five that a statement begins with
    obtain ⟨piece, pieces, hspelling, hkinds⟩ := htree.head_of_statement
    rw [hspelling, stands_cons] at hfirst
    obtain ⟨-, hkind, -⟩ := token_of_piece hat hfirst.1
    refine Yields.current ?_
    rw [hkind]
    simp only [List.mem_cons, List.not_mem_nil, or_false] at hkinds
    rcases hkinds with hpiece | hpiece | hpiece | hpiece | hpiece <;> rw [hpiece] <;> exact hround

/-- A program. -/
theorem program_completes (hvalid : ∀ token ∈ tokens, token.kind ≠ .invalid) {budget : Nat}
    {statement : Reader Tree} (hstatement : Completes tokens .statement budget statement) :
    Completes tokens .program (budget + 1) (program statement) := by
  intro tree position cursor next hderives hat hstands hnext hfollows
  obtain ⟨trees, line, rfl, htrees⟩ : ∃ trees line, tree = .block trees line ∧
      ∀ tree ∈ trees, tree.Derives .statement := hderives.program_inv
  rw [Tree.spelling] at hstands hnext ⊢
  refine Yields.current (Yields.remaining hat ?_)
  have hbound : trees.length ≤ (tokens.drop position).length := by
    have h₁ := statements_length trees
    have h₂ := congrArg List.length hstands.take
    simp only [List.length_map, List.length_take] at h₂
    omega
  refine (statements_yields hvalid hstatement hfollows trees _ hbound htrees ?_ hat hstands
    hnext).bind fun items c₁ hat₁ hitems => ?_
  · intro tree hmem hdeep
    have hlt : Phrase.statement.need tree < Phrase.program.need (.block trees line) :=
      Phrase.need_lt _ _ (by rw [Tree.spelling]; exact statement_length hmem)
    omega
  · have hstop : c₁.token = next := hat₁.token_of_getElem? hnext
    have hkind : next.kind = .endOfFile ∨ next.kind = .rbrace := by
      simpa [Phrase.follows] using hfollows
    refine Yields.current ?_
    rw [hstop]
    have hresult : (Tree.block items cursor.token.line).unlined =
        (Tree.block trees line).unlined := by
      rw [Tree.unlined, Tree.unlined, hitems]
    rcases hkind with hkind | hkind <;> rw [hkind] <;> exact .pure hat₁ hresult

/-- A reader of a block under a budget: it reads every block that stands between braces. -/
def CompletesBlock (tokens : List Token) (budget : Nat) (reader : Reader Tree) : Prop :=
  ∀ tree position cursor, tree.Derives .block → cursor.At tokens position →
    (tokens[position]?).map Token.piece = some TokenKind.lbrace.piece →
    Stands tokens (position + 1) tree.spelling →
    (tokens[position + 1 + tree.spelling.length]?).map Token.piece =
      some TokenKind.rbrace.piece →
    Yields tokens (budget < Phrase.block.need tree) reader cursor
      (position + 1 + tree.spelling.length + 1) fun result => result.unlined = tree.unlined

/-- A program between braces. -/
theorem block_completes (hvalid : ∀ token ∈ tokens, token.kind ≠ .invalid) {budget : Nat}
    {program : Reader Tree} (hprogram : Completes tokens .program budget program) :
    CompletesBlock tokens (budget + 1) (block program) := by
  intro tree position cursor hderives hat hopen hstands hclose
  obtain ⟨behind, hbehind, hpiece⟩ := Option.map_eq_some_iff.1 hclose
  refine (expect_yields hvalid hat .openBrace hopen).bind fun _ c₁ hat₁ _ => ?_
  have hread := hprogram tree _ _ behind hderives.block_inv hat₁ hstands hbehind (by
    rw [show behind.kind = .rbrace from congrArg Prod.fst hpiece]; rfl)
  refine (hread.mono ?_ fun _ h => h).bind fun body c₂ hat₂ hbody => ?_
  · simp only [Phrase.need, Phrase.rank]
    omega
  · exact (expect_yields hvalid hat₂ .closeBrace hclose).bind fun _ c₃ hat₃ _ => .pure hat₃ hbody

/-! ## Statements -/

section Statements

variable {budget : Nat} {relation block tail : Reader Tree} {next : Token}

/-- An assignment. -/
theorem assignment_yields (hvalid : ∀ token ∈ tokens, token.kind ≠ .invalid)
    (hrelation : Completes tokens .relation budget relation) {name : String} {value : Tree}
    {line : Line} (hvalue : value.Derives .relation) (hat : cursor.At tokens position)
    (hstands : Stands tokens position (Tree.assignment name value line).spelling)
    (hnext : tokens[position + (Tree.assignment name value line).spelling.length]? = some next)
    (hfollows : next.kind = .semicolon) :
    Yields tokens (budget + 1 < Phrase.statement.need (.assignment name value line))
      (assignment relation) cursor (position + (Tree.assignment name value line).spelling.length)
      fun result => result.unlined = (Tree.assignment name value line).unlined := by
  rw [Tree.spelling, stands_cons, stands_cons] at hstands
  obtain ⟨hname, hsign, hstands⟩ := hstands
  obtain ⟨htoken, -, hlexeme⟩ := token_of_piece hat hname
  have hlength : position + (Tree.assignment name value line).spelling.length =
      position + 1 + 1 + value.spelling.length := by
    simp only [Tree.spelling, List.length_cons]
    omega
  have hneed : Phrase.relation.need value < Phrase.statement.need (.assignment name value line) :=
    Phrase.need_lt _ _ (by simp only [Tree.spelling, List.length_cons]; omega)
  rw [hlength] at hnext ⊢
  refine Yields.current ?_
  refine (advance_yields hvalid hat htoken).bind fun _ c₁ hat₁ _ => ?_
  refine (expect_yields hvalid hat₁ .equals hsign).bind fun _ c₂ hat₂ _ => ?_
  have hread := hrelation value _ _ next hvalue hat₂ hstands hnext (by rw [hfollows]; rfl)
  refine (hread.mono (by omega) fun _ h => h).bind fun result c₃ hat₃ hresult => ?_
  refine .pure hat₃ ?_
  rw [Tree.unlined, Tree.unlined, hresult, hlexeme]

/-- What follows `mut` in a declaration with a first value. -/
theorem mutableRest_yields (hvalid : ∀ token ∈ tokens, token.kind ≠ .invalid)
    (hrelation : Completes tokens .relation budget relation) {deep : Prop} {name : String}
    {value : Tree} (line : Line) (hvalue : value.Derives .relation)
    (hdeep : budget < Phrase.relation.need value → deep) (hat : cursor.At tokens position)
    (hname : (tokens[position]?).map Token.piece = some (.ident, name))
    (hsign : (tokens[position + 1]?).map Token.piece = some TokenKind.assign.piece)
    (hstands : Stands tokens (position + 1 + 1) value.spelling)
    (hnext : tokens[position + 1 + 1 + value.spelling.length]? = some next)
    (hfollows : next.kind = .semicolon) :
    Yields tokens deep (mutableRest relation line) cursor
      (position + 1 + 1 + value.spelling.length)
      fun result => result.unlined = (Tree.letMutable name value line).unlined := by
  refine (expect_yields hvalid hat .variableName hname).bind fun _ c₁ hat₁ hlexeme => ?_
  obtain ⟨htoken, hkind⟩ := token_of_kind hat₁ hsign
  refine Yields.current ?_
  rw [hkind]
  refine (advance_yields hvalid hat₁ htoken).bind fun _ c₂ hat₂ _ => ?_
  have hread := hrelation value _ _ next hvalue hat₂ hstands hnext (by rw [hfollows]; rfl)
  refine (hread.mono hdeep fun _ h => h).bind fun result c₃ hat₃ hresult => .pure hat₃ ?_
  rw [Tree.unlined, Tree.unlined, hresult, hlexeme]

/-- What follows `mut` in a declaration without a value. -/
theorem mutableRest_unset_yields (hvalid : ∀ token ∈ tokens, token.kind ≠ .invalid) {deep : Prop}
    {name : String} (line : Line) (hat : cursor.At tokens position)
    (hname : (tokens[position]?).map Token.piece = some (.ident, name))
    (hnext : tokens[position + 1]? = some next) (hfollows : next.kind = .semicolon) :
    Yields tokens deep (mutableRest relation line) cursor (position + 1)
      fun result => result.unlined = (Tree.letMutable name .absent line).unlined := by
  refine (expect_yields hvalid hat .variableName hname).bind fun _ c₁ hat₁ hlexeme => ?_
  refine Yields.current ?_
  rw [hat₁.token_of_getElem? hnext, hfollows]
  refine .pure hat₁ ?_
  simp only [Tree.unlined, hlexeme]

/-- What follows `let` in a declaration that fixes its value. -/
theorem letFixed_yields (hvalid : ∀ token ∈ tokens, token.kind ≠ .invalid)
    (hrelation : Completes tokens .relation budget relation) {name : String} {value : Tree}
    {line : Line} (hvalue : value.Derives .relation) (hat : cursor.At tokens position)
    (hstands : Stands tokens position (Tree.letFixed name value line).spelling)
    (hnext : tokens[position + (Tree.letFixed name value line).spelling.length]? = some next)
    (hfollows : next.kind = .semicolon) :
    Yields tokens (budget + 1 < Phrase.statement.need (.letFixed name value line))
      (declaration relation) cursor (position + (Tree.letFixed name value line).spelling.length)
      fun result => result.unlined = (Tree.letFixed name value line).unlined := by
  rw [Tree.spelling, stands_cons, stands_cons, stands_cons] at hstands
  obtain ⟨hlet, hname, hsign, hstands⟩ := hstands
  obtain ⟨hletToken, -⟩ := token_of_kind hat hlet
  have hlength : position + (Tree.letFixed name value line).spelling.length =
      position + 1 + 1 + 1 + value.spelling.length := by
    simp only [Tree.spelling, List.length_cons]
    omega
  have hneed : Phrase.relation.need value < Phrase.statement.need (.letFixed name value line) :=
    Phrase.need_lt _ _ (by simp only [Tree.spelling, List.length_cons]; omega)
  rw [hlength] at hnext ⊢
  refine Yields.current ?_
  refine (advance_yields hvalid hat hletToken).bind fun _ c₁ hat₁ _ => ?_
  obtain ⟨hnameToken, hkind, hlexeme⟩ := token_of_piece hat₁ hname
  refine Yields.current ?_
  rw [hkind]
  refine (advance_yields hvalid hat₁ hnameToken).bind fun _ c₂ hat₂ _ => ?_
  refine (expect_yields hvalid hat₂ .equals hsign).bind fun _ c₃ hat₃ _ => ?_
  have hread := hrelation value _ _ next hvalue hat₃ hstands hnext (by rw [hfollows]; rfl)
  refine (hread.mono (by omega) fun _ h => h).bind fun result c₄ hat₄ hresult => ?_
  refine .pure hat₄ ?_
  rw [Tree.unlined, Tree.unlined, hresult, hlexeme]

/-- What follows `let` in a declaration that allows assignments. -/
theorem letMutable_yields (hvalid : ∀ token ∈ tokens, token.kind ≠ .invalid)
    (hrelation : Completes tokens .relation budget relation) {name : String} {value : Tree}
    {line : Line} (hvalue : value = .absent ∨ value.Derives .relation)
    (hat : cursor.At tokens position)
    (hstands : Stands tokens position (Tree.letMutable name value line).spelling)
    (hnext : tokens[position + (Tree.letMutable name value line).spelling.length]? = some next)
    (hfollows : next.kind = .semicolon) :
    Yields tokens (budget + 1 < Phrase.statement.need (.letMutable name value line))
      (declaration relation) cursor
      (position + (Tree.letMutable name value line).spelling.length)
      fun result => result.unlined = (Tree.letMutable name value line).unlined := by
  rw [Tree.spelling, stands_cons, stands_cons, stands_cons] at hstands
  obtain ⟨hlet, hmut, hname, hstands⟩ := hstands
  obtain ⟨hletToken, -⟩ := token_of_kind hat hlet
  refine Yields.current ?_
  refine (advance_yields hvalid hat hletToken).bind fun _ c₁ hat₁ _ => ?_
  obtain ⟨hmutToken, hkind⟩ := token_of_kind hat₁ hmut
  refine Yields.current ?_
  rw [hkind]
  refine (advance_yields hvalid hat₁ hmutToken).bind fun _ c₂ hat₂ _ => ?_
  rcases hvalue with rfl | hvalue
  · exact mutableRest_unset_yields hvalid _ hat₂ hname hnext hfollows
  · have hinitial : Tree.initialSign value = [TokenKind.assign.piece] :=
      Tree.initialSign_of_ne_absent (hvalue.ne_absent (by simp))
    rw [hinitial, stands_append, stands_cons] at hstands
    obtain ⟨⟨hsign, -⟩, hstands⟩ := hstands
    have hlength : position + (Tree.letMutable name value line).spelling.length =
        position + 1 + 1 + 1 + 1 + value.spelling.length := by
      simp only [Tree.spelling, hinitial, List.length_cons, List.length_append, List.length_nil]
      omega
    have hneed : Phrase.relation.need value < Phrase.statement.need (.letMutable name value line) :=
      Phrase.need_lt _ _ (by
        simp only [Tree.spelling, List.length_cons, List.length_append]
        omega)
    rw [hlength] at hnext ⊢
    exact mutableRest_yields hvalid hrelation _ hvalue (by omega) hat₂ hname hsign
      hstands hnext hfollows

/-- A brace and what follows it, split behind the brace. -/
theorem append_rbrace {condition body rest : List Piece} :
    condition ++ TokenKind.lbrace.piece :: (body ++ TokenKind.rbrace.piece :: rest) =
      (condition ++ TokenKind.lbrace.piece :: (body ++ [TokenKind.rbrace.piece])) ++ rest := by
  simp

/-- A condition and a block, which begin behind a keyword of what they belong to. -/
theorem guarded_yields (hrelation : Completes tokens .relation budget relation)
    (hblock : CompletesBlock tokens budget block) {deep : Prop} {condition body : Tree}
    (hcondition : condition.Derives .relation) (hbody : body.Derives .block)
    (hconditionDeep : Phrase.relation.need condition > budget → deep)
    (hbodyDeep : Phrase.block.need body > budget → deep) (hat : cursor.At tokens position)
    (hstands : Stands tokens position (condition.spelling ++ TokenKind.lbrace.piece ::
      (body.spelling ++ [TokenKind.rbrace.piece])))
    {Value : Type} {wanted : Value → Prop} {next : Tree → Tree → Reader Value}
    (hrest : ∀ condition' body' after,
      after.At tokens (position + condition.spelling.length + 1 + body.spelling.length + 1) →
      condition'.unlined = condition.unlined → body'.unlined = body.unlined →
      Yields tokens deep (next condition' body') after stop wanted) :
    Yields tokens deep (do
      let condition ← relation
      let body ← block
      next condition body) cursor stop wanted := by
  rw [stands_append, stands_cons, stands_append, stands_cons] at hstands
  obtain ⟨hstands₁, hopen, hstands₂, hclose, -⟩ := hstands
  obtain ⟨behind, hbehind, hpiece⟩ := Option.map_eq_some_iff.1 hopen
  have hread₁ := hrelation condition _ _ behind hcondition hat hstands₁ hbehind (by
    rw [show behind.kind = .lbrace from congrArg Prod.fst hpiece]; rfl)
  refine (hread₁.mono hconditionDeep fun _ h => h).bind fun condition' c₁ hat₁ hcondition' => ?_
  have hread₂ := hblock body _ _ hbody hat₁ hopen hstands₂ hclose
  refine (hread₂.mono hbodyDeep fun _ h => h).bind fun body' c₂ hat₂ hbody' => ?_
  exact hrest condition' body' c₂ hat₂ hcondition' hbody'

/-- A loop. -/
theorem loop_yields (hvalid : ∀ token ∈ tokens, token.kind ≠ .invalid)
    (hrelation : Completes tokens .relation budget relation)
    (hblock : CompletesBlock tokens budget block) {condition body : Tree} {line : Line}
    (hcondition : condition.Derives .relation) (hbody : body.Derives .block)
    (hat : cursor.At tokens position)
    (hstands : Stands tokens position (Tree.loop condition body line).spelling) :
    Yields tokens (budget + 1 < Phrase.statement.need (.loop condition body line))
      (loop relation block) cursor
      (position + (Tree.loop condition body line).spelling.length)
      fun result => result.unlined = (Tree.loop condition body line).unlined := by
  have hlength : position + (Tree.loop condition body line).spelling.length =
      position + 1 + condition.spelling.length + 1 + body.spelling.length + 1 := by
    simp only [Tree.spelling, List.length_cons, List.length_append, List.length_nil]
    omega
  have hneed₁ : Phrase.relation.need condition <
      Phrase.statement.need (.loop condition body line) := Phrase.need_lt _ _ (by omega)
  have hneed₂ : Phrase.block.need body < Phrase.statement.need (.loop condition body line) :=
    Phrase.need_lt _ _ (by omega)
  rw [Tree.spelling, stands_cons] at hstands
  obtain ⟨hwhile, hstands⟩ := hstands
  obtain ⟨htoken, -⟩ := token_of_kind hat hwhile
  rw [hlength]
  refine Yields.current ?_
  refine (advance_yields hvalid hat htoken).bind fun _ c₁ hat₁ _ => ?_
  refine guarded_yields hrelation hblock hcondition hbody (by omega)
    (by omega) hat₁ hstands fun condition' body' c₂ hat₂ heq₁ heq₂ => ?_
  refine .pure hat₂ ?_
  rw [Tree.unlined, Tree.unlined, heq₁, heq₂]

/-- A conditional. -/
theorem conditional_yields (hvalid : ∀ token ∈ tokens, token.kind ≠ .invalid)
    (hrelation : Completes tokens .relation budget relation)
    (hblock : CompletesBlock tokens budget block) (htail : Completes tokens .elsePart budget tail)
    {condition body rest : Tree} {line : Line} (hcondition : condition.Derives .relation)
    (hbody : body.Derives .block) (hrest : rest.Derives .elsePart)
    (hat : cursor.At tokens position)
    (hstands : Stands tokens position (Tree.ifElse condition body rest line).spelling)
    (hnext : tokens[position + (Tree.ifElse condition body rest line).spelling.length]? =
      some next)
    (hfollows : next.kind = .semicolon) :
    Yields tokens (budget + 1 < Phrase.statement.need (.ifElse condition body rest line))
      (conditional relation block tail) cursor
      (position + (Tree.ifElse condition body rest line).spelling.length)
      fun result => result.unlined = (Tree.ifElse condition body rest line).unlined := by
  have hlength : position + (Tree.ifElse condition body rest line).spelling.length =
      position + 1 + condition.spelling.length + 1 + body.spelling.length + 1 +
        rest.spelling.length := by
    simp only [Tree.spelling, List.length_cons, List.length_append]
    omega
  have hneed₁ : Phrase.relation.need condition <
      Phrase.statement.need (.ifElse condition body rest line) := Phrase.need_lt _ _ (by omega)
  have hneed₂ : Phrase.block.need body <
      Phrase.statement.need (.ifElse condition body rest line) := Phrase.need_lt _ _ (by omega)
  have hneed₃ : Phrase.elsePart.need rest <
      Phrase.statement.need (.ifElse condition body rest line) := Phrase.need_lt _ _ (by omega)
  rw [Tree.spelling, stands_cons, append_rbrace, stands_append] at hstands
  obtain ⟨hif, hstands, hstandsRest⟩ := hstands
  obtain ⟨htoken, -⟩ := token_of_kind hat hif
  rw [hlength] at hnext ⊢
  refine Yields.current ?_
  refine (advance_yields hvalid hat htoken).bind fun _ c₁ hat₁ _ => ?_
  refine guarded_yields hrelation hblock hcondition hbody (by omega)
    (by omega) hat₁ hstands fun condition' body' c₂ hat₂ heq₁ heq₂ => ?_
  have hread := htail rest _ _ next hrest hat₂ (hstandsRest.move (by
    simp only [List.length_cons, List.length_append, List.length_nil]; omega)) hnext
    (by rw [hfollows]; rfl)
  refine (hread.mono (by omega) fun _ h => h).bind
    fun rest' c₃ hat₃ heq₃ => .pure hat₃ ?_
  rw [Tree.unlined, Tree.unlined, heq₁, heq₂, heq₃]

/-- What follows the body of a conditional. -/
theorem elsePart_completes (hvalid : ∀ token ∈ tokens, token.kind ≠ .invalid)
    (hrelation : Completes tokens .relation budget relation)
    (hblock : CompletesBlock tokens budget block)
    (htail : Completes tokens .elsePart budget tail) :
    Completes tokens .elsePart (budget + 1) (elsePart relation block tail) := by
  intro tree position cursor next hderives hat hstands hnext hfollows
  have hfollows' : next.kind = .semicolon := by simpa [Phrase.follows] using hfollows
  cases hderives with
  | noElse =>
    have hstop : cursor.token = next := hat.token_of_getElem? hnext
    refine Yields.current ?_
    rw [hstop, if_neg (by rw [hfollows']; simp)]
    exact .pure hat rfl
  | @elseIf condition body rest line hcondition hbody hrest =>
    have hlength : position + (Tree.elseIf condition body rest line).spelling.length =
        position + 1 + 1 + condition.spelling.length + 1 + body.spelling.length + 1 +
          rest.spelling.length := by
      simp only [Tree.spelling, List.length_cons, List.length_append]
      omega
    have hneed₁ : Phrase.relation.need condition <
        Phrase.elsePart.need (.elseIf condition body rest line) := Phrase.need_lt _ _ (by omega)
    have hneed₂ : Phrase.block.need body <
        Phrase.elsePart.need (.elseIf condition body rest line) := Phrase.need_lt _ _ (by omega)
    have hneed₃ : Phrase.elsePart.need rest <
        Phrase.elsePart.need (.elseIf condition body rest line) := Phrase.need_lt _ _ (by omega)
    rw [Tree.spelling, stands_cons, stands_cons, append_rbrace, stands_append] at hstands
    obtain ⟨helse, hif, hstands, hstandsRest⟩ := hstands
    obtain ⟨helseToken, helseKind⟩ := token_of_kind hat helse
    rw [hlength] at hnext ⊢
    refine Yields.current ?_
    rw [if_pos helseKind]
    refine (advance_yields hvalid hat helseToken).bind fun _ c₁ hat₁ _ => ?_
    obtain ⟨hifToken, hifKind⟩ := token_of_kind hat₁ hif
    refine Yields.current ?_
    rw [hifKind]
    refine (advance_yields hvalid hat₁ hifToken).bind fun _ c₂ hat₂ _ => ?_
    refine guarded_yields hrelation hblock hcondition hbody (by omega) (by omega) hat₂ hstands
      fun condition' body' c₃ hat₃ heq₁ heq₂ => ?_
    have hread := htail rest _ _ next hrest hat₃ (hstandsRest.move (by
      simp only [List.length_cons, List.length_append, List.length_nil]; omega)) hnext
      (by rw [hfollows']; rfl)
    refine (hread.mono (by omega) fun _ h => h).bind fun rest' c₄ hat₄ heq₃ => .pure hat₄ ?_
    rw [Tree.unlined, Tree.unlined, heq₁, heq₂, heq₃]
  | @otherwise body line hbody =>
    have hlength : position + (Tree.otherwise body line).spelling.length =
        position + 1 + 1 + body.spelling.length + 1 := by
      simp only [Tree.spelling, List.length_cons, List.length_append, List.length_nil]
      omega
    have hneed : Phrase.block.need body < Phrase.elsePart.need (.otherwise body line) :=
      Phrase.need_lt _ _ (by omega)
    rw [Tree.spelling, stands_cons, stands_cons, stands_append, stands_cons] at hstands
    obtain ⟨helse, hopen, hstands, hclose, -⟩ := hstands
    obtain ⟨helseToken, helseKind⟩ := token_of_kind hat helse
    rw [hlength]
    refine Yields.current ?_
    rw [if_pos helseKind]
    refine (advance_yields hvalid hat helseToken).bind fun _ c₁ hat₁ _ => ?_
    obtain ⟨-, hopenKind, -⟩ := token_of_piece hat₁ hopen
    refine Yields.current ?_
    rw [hopenKind]
    have hread := hblock body _ _ hbody hat₁ hopen hstands hclose
    refine (hread.mono (by omega) fun _ h => h).bind fun body' c₂ hat₂ heq => .pure hat₂ ?_
    rw [Tree.unlined, Tree.unlined, heq]
  | @single _ level => cases level <;> contradiction
  | @chain _ level => cases level <;> contradiction

/-- The token behind an argument: the comma of the next one, or what follows the statement. -/
theorem arguments_head {trees : List Tree}
    (hstands : Stands tokens position (Tree.argumentsSpelling trees))
    (hnext : tokens[position + (Tree.argumentsSpelling trees).length]? = some next)
    (hfollows : next.kind = .semicolon) :
    ∃ token, tokens[position]? = some token ∧ token.kind.endsRelation = true := by
  cases trees with
  | nil => exact ⟨next, hnext, by rw [hfollows]; rfl⟩
  | cons tree trees =>
    rw [Tree.argumentsSpelling, stands_cons] at hstands
    obtain ⟨token, htoken, hpiece⟩ := Option.map_eq_some_iff.1 hstands.1
    exact ⟨token, htoken, by rw [show token.kind = .comma from congrArg Prod.fst hpiece]; rfl⟩

/-- An argument has fewer tokens than the arguments it belongs to. -/
theorem argument_length {arguments : List Tree} {argument : Tree} (hmem : argument ∈ arguments) :
    argument.spelling.length < (Tree.argumentsSpelling arguments).length := by
  induction arguments with
  | nil => cases hmem
  | cons first arguments ih =>
    rw [Tree.argumentsSpelling, List.length_cons, List.length_append]
    cases hmem with
    | head => omega
    | tail _ hmem =>
      have := ih hmem
      omega

/-- The arguments of a print. -/
theorem arguments_yields (hvalid : ∀ token ∈ tokens, token.kind ≠ .invalid)
    (hrelation : Completes tokens .relation budget relation) {deep : Prop}
    (hfollows : next.kind = .semicolon) (trees : List Tree) :
    ∀ (bound : List Token) {position : Nat} {cursor : Cursor},
      trees.length ≤ bound.length → (∀ tree ∈ trees, tree.Derives .relation) →
      (∀ tree ∈ trees, budget < Phrase.relation.need tree → deep) →
      cursor.At tokens position → Stands tokens position (Tree.argumentsSpelling trees) →
      tokens[position + (Tree.argumentsSpelling trees).length]? = some next →
      Yields tokens deep (arguments relation bound) cursor
        (position + (Tree.argumentsSpelling trees).length)
        fun results => Tree.unlinedAll results = Tree.unlinedAll trees := by
  induction trees with
  | nil =>
    intro bound position cursor _ _ _ hat _ hnext
    have hstop : cursor.token = next := hat.token_of_getElem? hnext
    cases bound with
    | nil => exact .pure hat rfl
    | cons _ bound =>
      refine Yields.current ?_
      rw [hstop, if_neg (by rw [hfollows]; simp)]
      exact .pure hat rfl
  | cons tree trees ih =>
    intro bound position cursor hbound hderives hdeep hat hstands hnext
    obtain ⟨_, bound, rfl⟩ : ∃ token tail, bound = token :: tail := by
      cases bound with
      | nil => simp at hbound
      | cons token bound => exact ⟨token, bound, rfl⟩
    rw [Tree.argumentsSpelling, stands_cons, stands_append] at hstands
    obtain ⟨hcomma, hfirst, hrest⟩ := hstands
    obtain ⟨htoken, hkind⟩ := token_of_kind hat hcomma
    have hlength : position + (Tree.argumentsSpelling (tree :: trees)).length =
        position + 1 + tree.spelling.length + (Tree.argumentsSpelling trees).length := by
      simp only [Tree.argumentsSpelling, List.length_append, List.length_cons]
      omega
    rw [hlength] at hnext ⊢
    obtain ⟨behind, hbehind, hbehindKind⟩ := arguments_head hrest hnext hfollows
    refine Yields.current ?_
    rw [if_pos hkind]
    refine (advance_yields hvalid hat htoken).bind fun _ c₁ hat₁ _ => ?_
    have hread := hrelation tree _ _ behind (hderives tree (.head _)) hat₁ hfirst hbehind
      hbehindKind
    refine (hread.mono (hdeep _ (.head _)) fun _ h => h).bind fun first c₂ hat₂ hfirstEq => ?_
    have hothers := ih bound (by simpa using hbound)
      (fun other hother => hderives other (List.mem_cons_of_mem _ hother))
      (fun other hother => hdeep other (List.mem_cons_of_mem _ hother)) hat₂ hrest hnext
    refine hothers.bind fun others c₃ hat₃ hothersEq => .pure hat₃ ?_
    rw [Tree.unlinedAll, Tree.unlinedAll, hfirstEq, hothersEq]

/-- A print. -/
theorem output_yields (hvalid : ∀ token ∈ tokens, token.kind ≠ .invalid)
    (hrelation : Completes tokens .relation budget relation) {format : String}
    {trees : List Tree} {line : Line} (htrees : ∀ tree ∈ trees, tree.Derives .relation)
    (hat : cursor.At tokens position)
    (hstands : Stands tokens position (Tree.output format trees line).spelling)
    (hnext : tokens[position + (Tree.output format trees line).spelling.length]? = some next)
    (hfollows : next.kind = .semicolon) :
    Yields tokens (budget + 1 < Phrase.statement.need (.output format trees line)) (output relation)
      cursor (position + (Tree.output format trees line).spelling.length)
      fun result => result.unlined = (Tree.output format trees line).unlined := by
  have hlength : position + (Tree.output format trees line).spelling.length =
      position + 1 + 1 + (Tree.argumentsSpelling trees).length := by
    simp only [Tree.spelling, List.length_cons]
    omega
  have hneed (tree : Tree) (hmem : tree ∈ trees) :
      Phrase.relation.need tree < Phrase.statement.need (.output format trees line) := by
    have := argument_length hmem
    exact Phrase.need_lt _ _ (by omega)
  rw [Tree.spelling, stands_cons, stands_cons] at hstands
  obtain ⟨houtput, hformat, hstands⟩ := hstands
  obtain ⟨htoken, -⟩ := token_of_kind hat houtput
  rw [hlength] at hnext ⊢
  refine Yields.current ?_
  refine (advance_yields hvalid hat htoken).bind fun _ c₁ hat₁ _ => ?_
  refine (expect_yields hvalid hat₁ .stringLiteral hformat).bind fun _ c₂ hat₂ hlexeme => ?_
  refine Yields.remaining hat₂ ?_
  have hbound : trees.length ≤ (tokens.drop (position + 1 + 1)).length := by
    have h₁ := Tree.length_le_argumentsSpelling trees
    have h₂ := congrArg List.length hstands.take
    simp only [List.length_map, List.length_take] at h₂
    omega
  refine (arguments_yields hvalid hrelation hfollows trees _ hbound htrees
    (fun tree hmem _ => by have := hneed tree hmem; omega) hat₂ hstands hnext).bind
    fun items c₃ hat₃ hitems => .pure hat₃ ?_
  rw [Tree.unlined, Tree.unlined, hlexeme, hitems]

/-- A statement of any form: its first token tells which. -/
theorem statement_completes (hvalid : ∀ token ∈ tokens, token.kind ≠ .invalid)
    (hrelation : Completes tokens .relation budget relation)
    (hblock : CompletesBlock tokens budget block)
    (htail : Completes tokens .elsePart budget tail) :
    Completes tokens .statement (budget + 1) (statement relation block tail) := by
  intro tree position cursor next hderives hat hstands hnext hfollows
  have hfollows' : next.kind = .semicolon := by simpa [Phrase.follows] using hfollows
  cases hderives with
  | @assignment name value line hvalue =>
    obtain ⟨-, hkind, -⟩ := token_of_piece hat (stands_cons.1 hstands).1
    refine Yields.current ?_
    rw [hkind]
    exact assignment_yields hvalid hrelation hvalue hat hstands hnext hfollows'
  | @letFixed name value line hvalue =>
    obtain ⟨-, hkind⟩ := token_of_kind hat (stands_cons.1 hstands).1
    refine Yields.current ?_
    rw [hkind]
    exact letFixed_yields hvalid hrelation hvalue hat hstands hnext hfollows'
  | @letUnset name line =>
    obtain ⟨-, hkind⟩ := token_of_kind hat (stands_cons.1 hstands).1
    refine Yields.current ?_
    rw [hkind]
    exact letMutable_yields hvalid hrelation (.inl rfl) hat hstands hnext hfollows'
  | @letMutable name value line hvalue =>
    obtain ⟨-, hkind⟩ := token_of_kind hat (stands_cons.1 hstands).1
    refine Yields.current ?_
    rw [hkind]
    exact letMutable_yields hvalid hrelation (.inr hvalue) hat hstands hnext hfollows'
  | @ifElse condition body rest line hcondition hbody hrest =>
    obtain ⟨-, hkind⟩ := token_of_kind hat (stands_cons.1 hstands).1
    refine Yields.current ?_
    rw [hkind]
    exact conditional_yields hvalid hrelation hblock htail hcondition hbody hrest hat hstands hnext
      hfollows'
  | @loop condition body line hcondition hbody =>
    obtain ⟨-, hkind⟩ := token_of_kind hat (stands_cons.1 hstands).1
    refine Yields.current ?_
    rw [hkind]
    exact loop_yields hvalid hrelation hblock hcondition hbody hat hstands
  | @output format trees line htrees =>
    obtain ⟨-, hkind⟩ := token_of_kind hat (stands_cons.1 hstands).1
    refine Yields.current ?_
    rw [hkind]
    exact output_yields hvalid hrelation htrees hat hstands hnext hfollows'
  | @single _ level => cases level <;> contradiction
  | @chain _ level => cases level <;> contradiction

/-! ## Expressions -/

/-- A negation, or a sum that is or is not compared with another. -/
theorem negatable_completes (hvalid : ∀ token ∈ tokens, token.kind ≠ .invalid) {sum : Reader Tree}
    (hrelation : Completes tokens .relation budget relation)
    (hsum : Completes tokens .sum budget sum) :
    Completes tokens .negatable (budget + 1) (negatable relation sum) := by
  intro tree position cursor next hderives hat hstands hnext hfollows
  cases hderives with
  | @negation operand line hoperand =>
    have hlength : position + (Tree.negation operand line).spelling.length =
        position + 1 + 1 + operand.spelling.length + 1 := by
      simp only [Tree.spelling, List.length_cons, List.length_append, List.length_nil]
      omega
    have hneed : Phrase.relation.need operand < Phrase.negatable.need (.negation operand line) :=
      Phrase.need_lt _ _ (by omega)
    rw [Tree.spelling, stands_cons, stands_cons, stands_append, stands_cons] at hstands
    obtain ⟨hnot, hopen, hstands, hclose, -⟩ := hstands
    obtain ⟨htoken, hkind⟩ := token_of_kind hat hnot
    obtain ⟨behind, hbehind, hpiece⟩ := Option.map_eq_some_iff.1 hclose
    rw [hlength]
    refine Yields.current ?_
    rw [if_pos hkind]
    refine (advance_yields hvalid hat htoken).bind fun _ c₁ hat₁ _ => ?_
    refine (expect_yields hvalid hat₁ .openParen hopen).bind fun _ c₂ hat₂ _ => ?_
    have hread := hrelation operand _ _ behind hoperand hat₂ hstands hbehind (by
      rw [show behind.kind = .rparen from congrArg Prod.fst hpiece]; rfl)
    refine (hread.mono (by omega) fun _ h => h).bind fun inner c₃ hat₃ hinner => ?_
    refine (expect_yields hvalid hat₃ .closeParen hclose).bind fun _ c₄ hat₄ _ => .pure hat₄ ?_
    rw [Tree.unlined, Tree.unlined, hinner]
  | plain htree =>
    have hhead : cursor.token.kind ≠ .not := by
      obtain ⟨piece, pieces, hspelling, hne⟩ := htree.head_of_sum (.inl rfl)
      rw [hspelling, stands_cons] at hstands
      obtain ⟨-, hkind, -⟩ := token_of_piece hat hstands.1
      exact hkind ▸ hne
    refine Yields.current ?_
    rw [if_neg hhead]
    have hread := hsum tree _ _ next htree hat hstands hnext
      (Phrase.sum_follows_of_negatable hfollows)
    refine (hread.mono (by simp only [Phrase.need, Phrase.rank]; omega) fun _ h => h).bind
      fun left c₁ hat₁ hleft => ?_
    refine Yields.current ?_
    rw [hat₁.token_of_getElem? hnext, Phrase.not_relational_of_negatable hfollows]
    exact .pure hat₁ hleft
  | @comparison left operation line hleft hoperation hright =>
    obtain ⟨operator, right, operatorLine, rfl, hrelational⟩ := hoperation.eq
    have hlength : position +
        (Tree.comparison left (.operation operator right operatorLine) line).spelling.length =
        position + left.spelling.length + 1 + right.spelling.length := by
      simp only [Tree.spelling, List.length_cons, List.length_append]
      omega
    have hneed₁ : Phrase.sum.need left < Phrase.negatable.need
        (.comparison left (.operation operator right operatorLine) line) :=
      Phrase.need_lt _ _ (by omega)
    have hneed₂ : Phrase.sum.need right < Phrase.negatable.need
        (.comparison left (.operation operator right operatorLine) line) := by
      obtain ⟨piece, pieces, hspelling, -⟩ := hleft.head_of_sum (.inl rfl)
      have hpos := congrArg List.length hspelling
      rw [List.length_cons] at hpos
      exact Phrase.need_lt _ _ (by omega)
    rw [Tree.spelling, Tree.spelling, stands_append, stands_cons] at hstands
    obtain ⟨hstands₁, hoperator, hstands₂⟩ := hstands
    obtain ⟨behind, hbehind, hpiece⟩ := Option.map_eq_some_iff.1 hoperator
    have hbehindKind : behind.kind = TokenKind.ofSpelling operator := congrArg Prod.fst hpiece
    have hhead : cursor.token.kind ≠ .not := by
      obtain ⟨piece, pieces, hspelling, hne⟩ := hleft.head_of_sum (.inl rfl)
      rw [hspelling, stands_cons] at hstands₁
      obtain ⟨-, hkind, -⟩ := token_of_piece hat hstands₁.1
      exact hkind ▸ hne
    rw [hlength] at hnext ⊢
    refine Yields.current ?_
    rw [if_neg hhead]
    have hread₁ := hsum left _ _ behind hleft hat hstands₁ hbehind
      (Phrase.sum_follows_of_isRelational (hbehindKind ▸ hrelational))
    refine (hread₁.mono (by omega) fun _ h => h).bind fun left' c₁ hat₁ hleft' => ?_
    obtain ⟨htoken, hkind, hlexeme⟩ := token_of_piece hat₁ hoperator
    refine Yields.current ?_
    rw [if_pos (hkind ▸ hrelational)]
    refine (advance_yields hvalid hat₁ htoken).bind fun _ c₂ hat₂ _ => ?_
    have hread₂ := hsum right _ _ next hright hat₂ hstands₂ hnext
      (Phrase.sum_follows_of_negatable hfollows)
    refine (hread₂.mono (by omega) fun _ h => h).bind fun right' c₃ hat₃ hright' => .pure hat₃ ?_
    simp only [Tree.unlined, hleft', hright', hlexeme]
  | @single _ level => cases level <;> contradiction
  | @chain _ level => cases level <;> contradiction

/-- A factor of one token. -/
theorem atom_yields (hvalid : ∀ token ∈ tokens, token.kind ≠ .invalid) (deep : Prop) (tree : Tree)
    (result : Tree) (hat : cursor.At tokens position) (hlength : tree.spelling.length = 1)
    (htoken : tokens[position]? = some cursor.token) (hresult : result.unlined = tree.unlined) :
    Yields tokens deep (do advance; return result) cursor (position + tree.spelling.length)
      fun result => result.unlined = tree.unlined := by
  rw [hlength]
  exact (advance_yields hvalid hat htoken).bind fun _ c₁ hat₁ _ => .pure hat₁ hresult

/-- A factor of any form: its first token tells which. -/
theorem factor_completes (hvalid : ∀ token ∈ tokens, token.kind ≠ .invalid) {minus : Reader Tree}
    (hrelation : Completes tokens .relation budget relation)
    (hminus : Completes tokens .factor budget minus) :
    Completes tokens .factor (budget + 1) (factor relation minus) := by
  intro tree position cursor next hderives hat hstands hnext hfollows
  cases hderives with
  | @var name line =>
    obtain ⟨htoken, hkind, hlexeme⟩ := token_of_piece hat (stands_cons.1 hstands).1
    refine Yields.current ?_
    rw [hkind]
    exact atom_yields hvalid _ _ _ hat rfl htoken (by simp only [Tree.unlined, hlexeme])
  | @literal kind lexeme line hliteral =>
    obtain ⟨htoken, hkind, hlexeme⟩ := token_of_piece hat (stands_cons.1 hstands).1
    have hatom := atom_yields hvalid (budget + 1 < Phrase.factor.need (.literal kind lexeme line))
      (.literal kind lexeme line)
      (.literal cursor.token.kind cursor.token.lexeme cursor.token.line) hat rfl htoken
      (by simp only [Tree.unlined, hkind, hlexeme])
    refine Yields.current ?_
    rw [hkind] at hatom ⊢
    cases kind <;> first | exact hatom | cases hliteral
  | @input line =>
    obtain ⟨htoken, hkind⟩ := token_of_kind hat (stands_cons.1 hstands).1
    refine Yields.current ?_
    rw [hkind]
    exact atom_yields hvalid _ _ _ hat rfl htoken rfl
  | @group inner line hinner =>
    have hlength : position + (Tree.group inner line).spelling.length =
        position + 1 + inner.spelling.length + 1 := by
      simp only [Tree.spelling, List.length_cons, List.length_append, List.length_nil]
      omega
    have hneed : Phrase.relation.need inner < Phrase.factor.need (.group inner line) :=
      Phrase.need_lt _ _ (by omega)
    rw [Tree.spelling, stands_cons, stands_append, stands_cons] at hstands
    obtain ⟨hopen, hstands, hclose, -⟩ := hstands
    obtain ⟨htoken, hkind⟩ := token_of_kind hat hopen
    obtain ⟨behind, hbehind, hpiece⟩ := Option.map_eq_some_iff.1 hclose
    rw [hlength]
    refine Yields.current ?_
    rw [hkind]
    refine (advance_yields hvalid hat htoken).bind fun _ c₁ hat₁ _ => ?_
    have hread := hrelation inner _ _ behind hinner hat₁ hstands hbehind (by
      rw [show behind.kind = .rparen from congrArg Prod.fst hpiece]; rfl)
    refine (hread.mono (by omega) fun _ h => h).bind fun inner' c₂ hat₂ hinner' => ?_
    refine (expect_yields hvalid hat₂ .closeParen hclose).bind fun _ c₃ hat₃ _ => .pure hat₃ ?_
    rw [Tree.unlined, Tree.unlined, hinner']
  | @minus operand line hoperand =>
    have hlength : position + (Tree.minus operand line).spelling.length =
        position + 1 + operand.spelling.length := by
      simp only [Tree.spelling, List.length_cons]
      omega
    have hneed : Phrase.factor.need operand < Phrase.factor.need (.minus operand line) :=
      Phrase.need_lt _ _ (by omega)
    rw [Tree.spelling, stands_cons] at hstands
    obtain ⟨hsign, hstands⟩ := hstands
    obtain ⟨htoken, hkind⟩ := token_of_kind hat hsign
    rw [hlength] at hnext ⊢
    refine Yields.current ?_
    rw [hkind]
    refine (advance_yields hvalid hat htoken).bind fun _ c₁ hat₁ _ => ?_
    have hread := hminus operand _ _ next hoperand hat₁ hstands hnext hfollows
    refine (hread.mono (by omega) fun _ h => h).bind fun operand' c₂ hat₂ heq => .pure hat₂ ?_
    rw [Tree.unlined, Tree.unlined, heq]
  | @single _ level => cases level <;> contradiction
  | @chain _ level => cases level <;> contradiction

end Statements

end Reader

/-! ## All phrases -/

/-- What it is to read every derivation of a phrase: one of a block stands between braces. -/
def Phrase.IsReadWholly (tokens : List Token) (budget : Nat) : Phrase → Reader Tree → Prop
  | .block, reader => reader.CompletesBlock tokens budget
  | phrase, reader => reader.Completes tokens phrase budget

/-- Without a budget every phrase is too deep. -/
theorem Reader.failTooDeep_yields {deep : Prop} {cursor : Cursor} {wanted : Tree → Prop}
    (hdeep : deep) : Yields tokens deep failTooDeep cursor stop wanted :=
  .inr ⟨hdeep, cursor.token.lexeme, cursor.token.line, cursor, rfl⟩

/-- Every derivation of a phrase is read, unless it needs more than the budget. -/
theorem Phrase.read_completes (hvalid : ∀ token ∈ tokens, token.kind ≠ .invalid) (budget : Nat) :
    ∀ phrase : Phrase, phrase.IsReadWholly tokens budget (phrase.read budget) := by
  induction budget with
  | zero =>
    intro phrase
    have hneed (tree : Tree) : 0 < phrase.need tree := by
      cases phrase <;> simp only [need, rank] <;> omega
    cases phrase
    case block => exact fun tree _ _ _ _ _ _ _ => Reader.failTooDeep_yields (hneed tree)
    all_goals exact fun tree _ _ _ _ _ _ _ _ => Reader.failTooDeep_yields (hneed tree)
  | succ budget ih =>
    intro phrase
    cases phrase with
    | program => exact Reader.program_completes hvalid (ih .statement)
    | statement =>
      exact Reader.statement_completes hvalid (ih .relation) (ih .block) (ih .elsePart)
    | elsePart =>
      exact Reader.elsePart_completes hvalid (ih .relation) (ih .block) (ih .elsePart)
    | block => exact Reader.block_completes hvalid (ih .program)
    | relation => exact Reader.row_completes .or hvalid (ih .conjunction)
    | conjunction => exact Reader.row_completes .and hvalid (ih .negatable)
    | negatable => exact Reader.negatable_completes hvalid (ih .relation) (ih .sum)
    | sum => exact Reader.row_completes .sum hvalid (ih .product)
    | product => exact Reader.row_completes .product hvalid (ih .factor)
    | factor => exact Reader.factor_completes hvalid (ih .relation) (ih .factor)

end ThreeAddress
