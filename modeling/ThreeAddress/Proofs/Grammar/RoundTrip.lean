import ThreeAddress.Proofs.Grammar.Completeness
import ThreeAddress.Proofs.Grammar.Soundness

/-!
# Reading and spelling are inverse

What is read has the spelling of the tokens passed over, and the spelling of a derivation is read
back as this derivation, up to lines (`Tree.readFrom_spelling`). So the tokens that are accepted
are those of the grammar, and no two trees of the grammar have the same tokens.
-/

namespace ThreeAddress

open Sequence

variable {tokens : List Token}

namespace Tree

/-! ## The nodes of a tree stand where they are said to -/

mutual
/-- Every node of a tree stands at its place. -/
theorem stands_of_mem_nodesAt : ∀ (tree : Tree) (start : Nat), Stands tokens start tree.spelling →
    ∀ place ∈ tree.nodesAt start, Stands tokens place.1 place.2.spelling
  | absent, start, _ => by simp [nodesAt]
  | bare line, start, h | var _ line, start, h | literal _ _ line, start, h
  | input line, start, h => by
    intro place hplace
    rw [nodesAt, List.mem_singleton] at hplace
    exact hplace ▸ h
  | block statements line, start, h => by
    intro place hplace
    rw [nodesAt] at hplace
    rcases List.mem_cons.1 hplace with rfl | hplace
    · exact h
    · rw [spelling] at h
      exact stands_of_mem_statementNodesAt statements start h place hplace
  | assignment name value line, start, h => by
    intro place hplace
    rw [nodesAt] at hplace
    rcases List.mem_cons.1 hplace with rfl | hplace
    · exact h
    · rw [spelling] at h
      exact stands_of_mem_nodesAt value (start + 2) h.2.2 place hplace
  | letFixed name value line, start, h => by
    intro place hplace
    rw [nodesAt] at hplace
    rcases List.mem_cons.1 hplace with rfl | hplace
    · exact h
    · rw [spelling] at h
      exact stands_of_mem_nodesAt value (start + 3) h.2.2.2 place hplace
  | letMutable name value line, start, h => by
    intro place hplace
    rw [nodesAt] at hplace
    rcases List.mem_cons.1 hplace with rfl | hplace
    · exact h
    · rw [spelling] at h
      by_cases hvalue : value = absent
      · simp [hvalue, nodesAt] at hplace
      · rw [initialSign_of_ne_absent hvalue] at h
        exact stands_of_mem_nodesAt value (start + 4) h.2.2.2.2 place hplace
  | ifElse condition body tail line, start, h => by
    intro place hplace
    simp only [nodesAt, List.mem_cons, List.mem_append] at hplace
    rcases hplace with rfl | (hplace | hplace) | hplace
    · exact h
    all_goals simp only [spelling, stands_cons, stands_append] at h
    · exact stands_of_mem_nodesAt condition _ h.2.1 place hplace
    · exact stands_of_mem_nodesAt body _ (h.2.2.2.1.move (by omega)) place hplace
    · exact stands_of_mem_nodesAt tail _ (h.2.2.2.2.2.move (by omega)) place hplace
  | elseIf condition body tail line, start, h => by
    intro place hplace
    simp only [nodesAt, List.mem_cons, List.mem_append] at hplace
    rcases hplace with rfl | (hplace | hplace) | hplace
    · exact h
    all_goals simp only [spelling, stands_cons, stands_append] at h
    · exact stands_of_mem_nodesAt condition _ h.2.2.1 place hplace
    · exact stands_of_mem_nodesAt body _ (h.2.2.2.2.1.move (by omega)) place hplace
    · exact stands_of_mem_nodesAt tail _ (h.2.2.2.2.2.2.move (by omega)) place hplace
  | otherwise body line, start, h => by
    intro place hplace
    rw [nodesAt] at hplace
    rcases List.mem_cons.1 hplace with rfl | hplace
    · exact h
    · simp only [spelling, stands_cons, stands_append] at h
      exact stands_of_mem_nodesAt body _ h.2.2.1 place hplace
  | loop condition body line, start, h => by
    intro place hplace
    simp only [nodesAt, List.mem_cons, List.mem_append] at hplace
    rcases hplace with rfl | hplace | hplace
    · exact h
    all_goals simp only [spelling, stands_cons, stands_append] at h
    · exact stands_of_mem_nodesAt condition _ h.2.1 place hplace
    · exact stands_of_mem_nodesAt body _ (h.2.2.2.1.move (by omega)) place hplace
  | output format arguments line, start, h => by
    intro place hplace
    rw [nodesAt] at hplace
    rcases List.mem_cons.1 hplace with rfl | hplace
    · exact h
    · rw [spelling] at h
      exact stands_of_mem_argumentNodesAt arguments (start + 2) h.2.2 place hplace
  | operation operator operand line, start, h => by
    intro place hplace
    rw [nodesAt] at hplace
    rcases List.mem_cons.1 hplace with rfl | hplace
    · exact h
    · rw [spelling] at h
      exact stands_of_mem_nodesAt operand (start + 1) h.2 place hplace
  | chain level first operations line, start, h => by
    intro place hplace
    simp only [nodesAt, List.mem_cons, List.mem_append] at hplace
    rcases hplace with rfl | hplace | hplace
    · exact h
    all_goals rw [spelling, stands_append] at h
    · exact stands_of_mem_nodesAt first start h.1 place hplace
    · exact stands_of_mem_operationNodesAt operations _ h.2 place hplace
  | comparison left relation line, start, h => by
    intro place hplace
    simp only [nodesAt, List.mem_cons, List.mem_append] at hplace
    rcases hplace with rfl | hplace | hplace
    · exact h
    all_goals rw [spelling, stands_append] at h
    · exact stands_of_mem_nodesAt left start h.1 place hplace
    · exact stands_of_mem_nodesAt relation _ h.2 place hplace
  | negation operand line, start, h => by
    intro place hplace
    rw [nodesAt] at hplace
    rcases List.mem_cons.1 hplace with rfl | hplace
    · exact h
    · simp only [spelling, stands_cons, stands_append] at h
      exact stands_of_mem_nodesAt operand _ h.2.2.1 place hplace
  | group inner line, start, h => by
    intro place hplace
    rw [nodesAt] at hplace
    rcases List.mem_cons.1 hplace with rfl | hplace
    · exact h
    · simp only [spelling, stands_cons, stands_append] at h
      exact stands_of_mem_nodesAt inner _ h.2.1 place hplace
  | minus operand line, start, h => by
    intro place hplace
    rw [nodesAt] at hplace
    rcases List.mem_cons.1 hplace with rfl | hplace
    · exact h
    · rw [spelling] at h
      exact stands_of_mem_nodesAt operand (start + 1) h.2 place hplace

/-- Every node of statements stands at its place. -/
theorem stands_of_mem_statementNodesAt : ∀ (statements : List Tree) (start : Nat),
    Stands tokens start (statementsSpelling statements) →
    ∀ place ∈ statementNodesAt start statements, Stands tokens place.1 place.2.spelling
  | [], _, _ => by simp [statementNodesAt]
  | statement :: statements, start, h => by
    intro place hplace
    rw [statementsSpelling, stands_append, stands_cons] at h
    rw [statementNodesAt] at hplace
    rcases List.mem_append.1 hplace with hplace | hplace
    · exact stands_of_mem_nodesAt statement start h.1 place hplace
    · exact stands_of_mem_statementNodesAt statements _ h.2.2 place hplace

/-- Every node of arguments stands at its place. -/
theorem stands_of_mem_argumentNodesAt : ∀ (arguments : List Tree) (start : Nat),
    Stands tokens start (argumentsSpelling arguments) →
    ∀ place ∈ argumentNodesAt start arguments, Stands tokens place.1 place.2.spelling
  | [], _, _ => by simp [argumentNodesAt]
  | argument :: arguments, start, h => by
    intro place hplace
    rw [argumentsSpelling, stands_cons, stands_append] at h
    rw [argumentNodesAt] at hplace
    rcases List.mem_append.1 hplace with hplace | hplace
    · exact stands_of_mem_nodesAt argument _ h.2.1 place hplace
    · exact stands_of_mem_argumentNodesAt arguments _ (h.2.2.move (by omega)) place hplace

/-- Every node of operations stands at its place. -/
theorem stands_of_mem_operationNodesAt : ∀ (operations : List Tree) (start : Nat),
    Stands tokens start (operationsSpelling operations) →
    ∀ place ∈ operationNodesAt start operations, Stands tokens place.1 place.2.spelling
  | [], _, _ => by simp [operationNodesAt]
  | first :: others, start, h => by
    intro place hplace
    rw [operationsSpelling, stands_append] at h
    rw [operationNodesAt] at hplace
    rcases List.mem_append.1 hplace with hplace | hplace
    · exact stands_of_mem_nodesAt first start h.1 place hplace
    · exact stands_of_mem_operationNodesAt others _ h.2 place hplace
end

/-! ## The pieces of a derivation -/

/-- The pieces of statements are semicolons and the pieces of each. -/
theorem forall_mem_statementsSpelling {holds : Piece → Prop} {statements : List Tree}
    (hsemicolon : holds TokenKind.semicolon.piece)
    (h : ∀ statement ∈ statements, ∀ piece ∈ statement.spelling, holds piece) :
    ∀ piece ∈ statementsSpelling statements, holds piece := by
  induction statements with
  | nil => simp [statementsSpelling]
  | cons statement statements ih =>
    obtain ⟨hfirst, hothers⟩ := List.forall_mem_cons.1 h
    simp only [statementsSpelling, List.forall_mem_append, List.forall_mem_cons]
    exact ⟨hfirst, hsemicolon, ih hothers⟩

/-- The pieces of arguments are commas and the pieces of each. -/
theorem forall_mem_argumentsSpelling {holds : Piece → Prop} {arguments : List Tree}
    (hcomma : holds TokenKind.comma.piece)
    (h : ∀ argument ∈ arguments, ∀ piece ∈ argument.spelling, holds piece) :
    ∀ piece ∈ argumentsSpelling arguments, holds piece := by
  induction arguments with
  | nil => simp [argumentsSpelling]
  | cons argument arguments ih =>
    obtain ⟨hfirst, hothers⟩ := List.forall_mem_cons.1 h
    simp only [argumentsSpelling, List.forall_mem_append, List.forall_mem_cons]
    exact ⟨hcomma, hfirst, ih hothers⟩

/-- The pieces of operations are the pieces of each. -/
theorem forall_mem_operationsSpelling {holds : Piece → Prop} {operations : List Tree}
    (h : ∀ operation ∈ operations, ∀ piece ∈ operation.spelling, holds piece) :
    ∀ piece ∈ operationsSpelling operations, holds piece := by
  induction operations with
  | nil => simp [operationsSpelling]
  | cons operation operations ih =>
    obtain ⟨hfirst, hothers⟩ := List.forall_mem_cons.1 h
    simp only [operationsSpelling, List.forall_mem_append]
    exact ⟨hfirst, ih hothers⟩

/-- The tokens of an operation are valid and end no file if those of its operand do not. -/
theorem IsOperation.proper {holds : TokenKind → Bool} {operation : Tree}
    (h : operation.IsOperation holds) (hinvalid : holds .invalid = false)
    (hend : holds .endOfFile = false)
    (hoperand : ∀ piece ∈ operation.operand.spelling,
      piece.1 ≠ .invalid ∧ piece.1 ≠ .endOfFile) :
    ∀ piece ∈ operation.spelling, piece.1 ≠ .invalid ∧ piece.1 ≠ .endOfFile := by
  obtain ⟨operator, operand, line, rfl, hoperator⟩ := h.eq
  rw [spelling, List.forall_mem_cons]
  have hne {kind : TokenKind} (hkind : holds kind = false) :
      TokenKind.ofSpelling operator ≠ kind := by
    rintro rfl
    rw [hkind] at hoperator
    cases hoperator
  exact ⟨⟨hne hinvalid, hne hend⟩, hoperand⟩

/-- The tokens of a derivation are valid, and none of them ends the file. -/
theorem Derives.proper {phrase : Phrase} {tree : Tree} (h : tree.Derives phrase) :
    ∀ piece ∈ tree.spelling, piece.1 ≠ .invalid ∧ piece.1 ≠ .endOfFile := by
  have hnil : ∀ piece ∈ ([] : List Piece), piece.1 ≠ .invalid ∧ piece.1 ≠ .endOfFile := by simp
  induction h with
  | program _ ih => exact forall_mem_statementsSpelling ⟨nofun, nofun⟩ ih
  | block _ ih | plain _ ih | single _ _ ih => exact ih
  | assignment _ ih =>
    simp only [spelling, List.forall_mem_cons]
    exact ⟨⟨nofun, nofun⟩, ⟨nofun, nofun⟩, ih⟩
  | letFixed _ ih =>
    simp only [spelling, List.forall_mem_cons]
    exact ⟨⟨nofun, nofun⟩, ⟨nofun, nofun⟩, ⟨nofun, nofun⟩, ih⟩
  | letUnset =>
    simp only [spelling, initialSign, List.forall_mem_cons]
    exact ⟨⟨nofun, nofun⟩, ⟨nofun, nofun⟩, ⟨nofun, nofun⟩, hnil⟩
  | letMutable hvalue ih =>
    rw [spelling, initialSign_of_ne_absent (hvalue.ne_absent (by simp))]
    simp only [List.forall_mem_cons, List.forall_mem_append]
    exact ⟨⟨nofun, nofun⟩, ⟨nofun, nofun⟩, ⟨nofun, nofun⟩, ⟨⟨nofun, nofun⟩, hnil⟩, ih⟩
  | ifElse _ _ _ ihCondition ihBody ihTail =>
    simp only [spelling, List.forall_mem_cons, List.forall_mem_append]
    exact ⟨⟨nofun, nofun⟩, ihCondition, ⟨nofun, nofun⟩, ihBody, ⟨nofun, nofun⟩, ihTail⟩
  | elseIf _ _ _ ihCondition ihBody ihTail =>
    simp only [spelling, List.forall_mem_cons, List.forall_mem_append]
    exact ⟨⟨nofun, nofun⟩, ⟨nofun, nofun⟩, ihCondition, ⟨nofun, nofun⟩, ihBody, ⟨nofun, nofun⟩,
      ihTail⟩
  | otherwise _ ih =>
    simp only [spelling, List.forall_mem_cons, List.forall_mem_append]
    exact ⟨⟨nofun, nofun⟩, ⟨nofun, nofun⟩, ih, ⟨nofun, nofun⟩, hnil⟩
  | loop _ _ ihCondition ihBody =>
    simp only [spelling, List.forall_mem_cons, List.forall_mem_append]
    exact ⟨⟨nofun, nofun⟩, ihCondition, ⟨nofun, nofun⟩, ihBody, ⟨nofun, nofun⟩, hnil⟩
  | output _ ih =>
    simp only [spelling, List.forall_mem_cons]
    exact ⟨⟨nofun, nofun⟩, ⟨nofun, nofun⟩, forall_mem_argumentsSpelling ⟨nofun, nofun⟩ ih⟩
  | noElse => exact hnil
  | @chain _ level first operations line _ _ _ hholds _ ihFirst ihOperands =>
    rw [spelling, List.forall_mem_append]
    refine ⟨ihFirst, forall_mem_operationsSpelling fun operation hmem => ?_⟩
    exact (hholds operation hmem).proper (by cases level <;> rfl) (by cases level <;> rfl)
      (ihOperands operation hmem)
  | comparison _ hholds _ ihLeft ihRight =>
    rw [spelling, List.forall_mem_append]
    exact ⟨ihLeft, hholds.proper rfl rfl ihRight⟩
  | negation _ ih =>
    simp only [spelling, List.forall_mem_cons, List.forall_mem_append]
    exact ⟨⟨nofun, nofun⟩, ⟨nofun, nofun⟩, ih, ⟨nofun, nofun⟩, hnil⟩
  | var =>
    simp only [spelling, List.forall_mem_cons]
    exact ⟨⟨nofun, nofun⟩, hnil⟩
  | literal hliteral =>
    simp only [spelling, List.forall_mem_cons]
    refine ⟨⟨?_, ?_⟩, hnil⟩ <;> rintro rfl <;> cases hliteral
  | input =>
    simp only [spelling, List.forall_mem_cons]
    exact ⟨⟨nofun, nofun⟩, hnil⟩
  | group _ ih =>
    simp only [spelling, List.forall_mem_cons, List.forall_mem_append]
    exact ⟨⟨nofun, nofun⟩, ih, ⟨nofun, nofun⟩, hnil⟩
  | minus _ ih =>
    simp only [spelling, List.forall_mem_cons]
    exact ⟨⟨nofun, nofun⟩, ih⟩

/-! ## Whole programs -/

/-- The tokens of a derivation and an end token are read as this derivation, unless it needs more
than the budget. -/
theorem Derives.readFrom {tree : Tree} (h : tree.Derives .program) (budget : Nat)
    {read : List Token} (hread : read.map Token.piece = tree.spelling) {last : Token}
    (hlast : last.kind = .endOfFile) :
    (∃ result cursor, Tree.readFrom budget (read ++ [last]) = .ok result cursor ∧
      result.unlined = tree.unlined) ∨
    (budget < Phrase.program.need tree ∧ ∃ lexeme line cursor,
      Tree.readFrom budget (read ++ [last]) = .error (.tooDeep lexeme line) cursor) := by
  have hvalid : ∀ token ∈ read ++ [last], token.kind ≠ .invalid := by
    intro token hmem
    rcases List.mem_append.1 hmem with hmem | hmem
    · exact (h.proper token.piece (hread ▸ List.mem_map_of_mem hmem)).1
    · rw [List.mem_singleton.1 hmem, hlast]
      simp
  have hlength : read.length = tree.spelling.length := by rw [← hread, List.length_map]
  have hstands : Stands (read ++ [last]) 0 tree.spelling := hread ▸ stands_map_piece read [last]
  have hnext : (read ++ [last])[0 + tree.spelling.length]? = some last := by
    rw [Nat.zero_add, ← hlength, List.getElem?_append_right (Nat.le_refl _), Nat.sub_self]
    rfl
  obtain ⟨start, hstart⟩ : ∃ start, Reader.advance (Cursor.start (read ++ [last])) =
      .ok () start := by
    unfold Reader.advance
    cases htokens : read ++ [last] with
    | nil => exact ⟨_, rfl⟩
    | cons token tokens => exact ⟨_, if_neg (hvalid token (htokens ▸ .head _))⟩
  have hprogram := Phrase.read_completes hvalid budget .program tree 0 start last h
    (Cursor.at_start hstart) hstands hnext (by rw [hlast]; rfl)
  rcases hprogram with ⟨result, cursor, hrun, hat, hresult⟩ | ⟨hdeep, lexeme, line, cursor, hrun⟩
  · refine .inl ⟨result, cursor, ?_, hresult⟩
    have hkind : cursor.token.kind = .endOfFile := by
      rw [hat.token_of_getElem? hnext, hlast]
    refine bind_ok.2 ⟨(), start, hstart, bind_ok.2 ⟨result, cursor, hrun, ?_⟩⟩
    refine bind_ok.2 ⟨cursor.token, cursor, Reader.current_ok.2 ⟨rfl, rfl⟩, ?_⟩
    rw [hkind]
    exact pure_ok.2 ⟨rfl, rfl⟩
  · refine .inr ⟨hdeep, lexeme, line, cursor, ?_⟩
    exact bind_error.2 (.inr ⟨(), start, hstart, bind_error.2 (.inl hrun)⟩)

/-- Trees of the grammar with the same tokens are equal up to lines. -/
theorem Derives.unlined_eq {tree other : Tree} (h : tree.Derives .program)
    (hother : other.Derives .program) (hspelling : tree.spelling = other.spelling) :
    tree.unlined = other.unlined := by
  let read := tree.spelling.map fun piece => (⟨piece.1, piece.2, 1⟩ : Token)
  have hread : read.map Token.piece = tree.spelling := by
    rw [List.map_map]
    exact List.map_id' _
  have hneed : Phrase.program.need tree = Phrase.program.need other := by
    rw [Phrase.need, Phrase.need, hspelling]
  have hlast : (⟨.endOfFile, "", 1⟩ : Token).kind = .endOfFile := rfl
  have hfirst := h.readFrom (Phrase.program.need tree) hread hlast
  have hsecond := hother.readFrom (Phrase.program.need tree) (hread.trans hspelling) hlast
  rcases hfirst with ⟨result, cursor, hrun, hresult⟩ | ⟨hdeep, -⟩
  · rcases hsecond with ⟨result', cursor', hrun', hresult'⟩ | ⟨hdeep, -⟩
    · rw [hrun] at hrun'
      cases hrun'
      rw [← hresult, hresult']
    · omega
  · omega

/-- Reading and spelling are inverse.

A tree that has been read is a derivation, its spelling is that of the tokens up to the end token
on which the reader stops, and every node has the line of the token at which its own spelling
begins (of the token that follows, if it has none). A derivation is read back from its spelling
and an end token, up to lines, unless it needs more than the budget. And a derivation is the only
one with its spelling. -/
theorem readFrom_spelling (budget : Nat) :
    (∀ (tokens : List Token) (tree : Tree) (cursor : Cursor),
      (∀ token ∈ tokens, token.IsSpelled) → Tree.readFrom budget tokens = .ok tree cursor →
      tree.Derives .program ∧
      ∃ read last, tokens = read ++ last :: cursor.unread ∧ cursor.reads = read.length + 1 ∧
        read.map Token.piece = tree.spelling ∧ last.kind = .endOfFile ∧
        ∀ place ∈ tree.nodesAt 0,
          ((tokens.drop place.1).take place.2.spelling.length).map Token.piece =
            place.2.spelling ∧
          (tokens[place.1]?).map Token.line = some place.2.line) ∧
    (∀ (tree : Tree) (read : List Token) (last : Token), tree.Derives .program →
      read.map Token.piece = tree.spelling → last.kind = .endOfFile →
      (∃ result cursor, Tree.readFrom budget (read ++ [last]) = .ok result cursor ∧
        result.unlined = tree.unlined) ∨
      (budget < Phrase.program.need tree ∧ ∃ lexeme line cursor,
        Tree.readFrom budget (read ++ [last]) = .error (.tooDeep lexeme line) cursor)) ∧
    (∀ tree other : Tree, tree.Derives .program → other.Derives .program →
      tree.spelling = other.spelling → tree.unlined = other.unlined) := by
  refine ⟨?_, ?_, ?_⟩
  · intro tokens tree cursor hspelled hrun
    obtain ⟨hspans, hat, hkind⟩ := Tree.spans_of_readFrom hspelled hrun
    have htoken : tokens[tree.spelling.length]? = some cursor.token :=
      hat.token_eq (by rw [hkind]; simp)
    obtain ⟨hlt, -⟩ := List.getElem?_eq_some_iff.1 htoken
    have hcurrent : cursor.current = some cursor.token := by
      cases hcurrent : cursor.current with
      | none => simp [Cursor.token, hcurrent] at hkind
      | some token => simp [Cursor.token, hcurrent]
    have hpending : tokens.drop tree.spelling.length = cursor.token :: cursor.unread := by
      rw [← hat.pending, hcurrent]
      rfl
    refine ⟨hspans.derives, tokens.take tree.spelling.length, cursor.token, ?_, ?_, ?_, hkind, ?_⟩
    · rw [← hpending, List.take_append_drop]
    · rw [hat.reads, List.length_take, Nat.min_eq_left (Nat.le_of_lt hlt)]
    · exact hspans.stands.take
    · intro place hplace
      exact ⟨(stands_of_mem_nodesAt tree 0 hspans.stands place hplace).take,
        hspans.lines place hplace⟩
  · intro tree read last hderives hread hlast
    exact hderives.readFrom budget hread hlast
  · intro tree other hderives hother hspelling
    exact hderives.unlined_eq hother hspelling

/-- The tokens of an assignment and of no other tree. -/
theorem readFrom_spelling_assignment :
    (∃ read last, read ++ [last] =
        [⟨.ident, "x", 1⟩, ⟨.assign, "=", 1⟩, ⟨.intLit, "1", 2⟩, ⟨.semicolon, ";", 2⟩,
          ⟨.endOfFile, "", 3⟩] ∧
      read.map Token.piece =
        (block [.assignment "x" (.literal .intLit "1" 2) 1] 1).spelling ∧
      ∃ result cursor, Tree.readFrom 12 (read ++ [last]) = .ok result cursor ∧
        result.unlined = block [.assignment "x" (.literal .intLit "1" 0) 0] 0) ∧
    (block [.assignment "x" (.literal .intLit "1" 2) 1] 1).Derives .program ∧
    (block [.assignment "x" (.literal .intLit "1" 2) 1] 1).unlined =
      (block [.assignment "x" (.literal .intLit "1" 7) 7] 7).unlined := by
  have hrun : Tree.readFrom 12 [⟨.ident, "x", 1⟩, ⟨.assign, "=", 1⟩, ⟨.intLit, "1", 2⟩,
      ⟨.semicolon, ";", 2⟩, ⟨.endOfFile, "", 3⟩] =
      .ok (block [.assignment "x" (.literal .intLit "1" 2) 1] 1)
        ⟨some ⟨.endOfFile, "", 3⟩, [], 3, 5⟩ := rfl
  have hspelled : ∀ token ∈ ([⟨.ident, "x", 1⟩, ⟨.assign, "=", 1⟩, ⟨.intLit, "1", 2⟩,
      ⟨.semicolon, ";", 2⟩, ⟨.endOfFile, "", 3⟩] : List Token), token.IsSpelled := by
    simp [Token.IsSpelled, TokenKind.spelling?]
  obtain ⟨hderives, read, last, htokens, -, hread, hlast, -⟩ :=
    (readFrom_spelling 12).1 _ _ _ hspelled hrun
  have hother : (block [.assignment "x" (.literal .intLit "1" 7) 7] 7).Derives .program := by
    refine .program fun statement hmem => ?_
    rw [List.mem_singleton.1 hmem]
    have hproduct : (literal .intLit "1" 7).Derives .product :=
      .single (show _ = Level.product.row from rfl) (.literal rfl)
    have hsum : (literal .intLit "1" 7).Derives .sum :=
      .single (show _ = Level.sum.row from rfl) hproduct
    have hconjunction : (literal .intLit "1" 7).Derives .conjunction :=
      .single (show _ = Level.and.row from rfl) (.plain hsum)
    exact .assignment (.single (show _ = Level.or.row from rfl) hconjunction)
  refine ⟨⟨read, last, htokens.symm, hread, ?_⟩, hderives,
    (readFrom_spelling 12).2.2 _ _ hderives hother rfl⟩
  rcases (readFrom_spelling 12).2.1 _ read last hderives hread hlast with
    hback | ⟨-, _, _, _, herror⟩
  · exact hback
  · rw [← htokens, hrun] at herror
    cases herror

end Tree

end ThreeAddress
