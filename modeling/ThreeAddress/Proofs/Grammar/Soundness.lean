import ThreeAddress.Proofs.Grammar.Position

/-!
# What the reader accepts

A phrase that has been read is a derivation of that phrase, the tokens it stands for are those
passed over, and each of its nodes carries the line of the token it begins with
(`Phrase.read_spans`). The proof is an induction on the budget with one lemma for each rule of
the grammar, which takes the readers of the parts as given.
-/

namespace ThreeAddress

open Sequence

variable {tokens : List Token} {position : Nat}

/-- A tree that was read at a position. -/
structure Tree.Spans (tokens : List Token) (phrase : Phrase) (position : Nat) (tree : Tree) :
    Prop where
  derives : tree.Derives phrase
  stands : Stands tokens position tree.spelling
  lines : ∀ place ∈ tree.nodesAt position,
    (tokens[place.1]?).map Token.line = some place.2.line

/-- A reader of a phrase: its trees span the tokens from where it begins to where it ends. -/
def Reader.Reads (tokens : List Token) (phrase : Phrase) (reader : Reader Tree) : Prop :=
  ∀ position cursor tree after, cursor.At tokens position → reader cursor = .ok tree after →
    tree.Spans tokens phrase position ∧ after.At tokens (position + tree.spelling.length)

/-- The piece of a token of a kind with one spelling. -/
theorem piece_at (hspelled : ∀ token ∈ tokens, token.IsSpelled) {token : Token}
    (htoken : tokens[position]? = some token) {kind : TokenKind} {spelling : List Char}
    (hspelling : kind.spelling? = some spelling) (hkind : token.kind = kind) :
    (tokens[position]?).map Token.piece = some kind.piece := by
  have hmem : token ∈ tokens := List.mem_of_getElem? htoken
  rw [htoken, Option.map_some, (hspelled token hmem).piece_eq hspelling hkind]

/-- The piece of an operator tells its kind by its text. -/
theorem operator_at (hspelled : ∀ token ∈ tokens, token.IsSpelled) {token : Token}
    (htoken : tokens[position]? = some token) (hkind : token.kind ∈ TokenKind.operators) :
    (tokens[position]?).map Token.piece =
      some (TokenKind.ofSpelling token.lexeme, token.lexeme) := by
  have hmem : token ∈ tokens := List.mem_of_getElem? htoken
  rw [htoken, Option.map_some, (hspelled token hmem).ofSpelling_lexeme hkind, Token.piece]

/-- A token of a kind with one spelling, at which the cursor stands. -/
theorem Cursor.At.opening (hspelled : ∀ token ∈ tokens, token.IsSpelled) {cursor : Cursor}
    (hat : cursor.At tokens position) {kind : TokenKind} {spelling : List Char}
    (hspelling : kind.spelling? = some spelling) (hkind : cursor.token.kind = kind) :
    tokens[position]? = some cursor.token ∧
      (tokens[position]?).map Token.piece = some kind.piece := by
  have hvalid : cursor.token.kind ≠ .invalid := by
    intro hinvalid
    rw [← hkind, hinvalid] at hspelling
    cases hspelling
  have htoken := hat.token_eq hvalid
  exact ⟨htoken, piece_at hspelled htoken hspelling hkind⟩

/-- The same position, written differently. -/
theorem Cursor.At.move {cursor : Cursor} {position' : Nat} (h : cursor.At tokens position)
    (heq : position = position') : cursor.At tokens position' := heq ▸ h

namespace Tree

/-- A tree that is there is the first of its nodes. -/
theorem mem_nodesAt_self {tree : Tree} (h : tree ≠ .absent) :
    (position, tree) ∈ tree.nodesAt position := by
  cases tree <;> simp [nodesAt] at h ⊢

namespace Spans

variable {phrase : Phrase} {tree : Tree}

/-- A tree that is there begins at a token. -/
theorem exists_token (h : tree.Spans tokens phrase position) (htree : tree ≠ .absent) :
    ∃ token, tokens[position]? = some token := by
  have hline := h.lines _ (mem_nodesAt_self htree)
  obtain ⟨token, htoken, -⟩ := Option.map_eq_some_iff.1 hline
  exact ⟨token, htoken⟩

/-- The tokens of a tree, at its position written differently. -/
theorem stands_of (h : tree.Spans tokens phrase position) {position' : Nat}
    (heq : position' = position) : Stands tokens position' tree.spelling := heq ▸ h.stands

/-- The lines of a tree, at its position written differently. -/
theorem lines_of (h : tree.Spans tokens phrase position) {position' : Nat}
    (heq : position' = position) : ∀ place ∈ tree.nodesAt position',
      (tokens[place.1]?).map Token.line = some place.2.line := heq ▸ h.lines

end Spans

end Tree

namespace Reader

variable {cursor after : Cursor}

/-! ## Rows -/

/-- The operations of a row. -/
theorem operations_ok (hspelled : ∀ token ∈ tokens, token.IsSpelled) {level : Level}
    {part : Reader Tree} (hpart : part.Reads tokens level.part) :
    ∀ (bound : List Token) {position : Nat} {cursor after : Cursor} {trees : List Tree},
      cursor.At tokens position → operations level part bound cursor = .ok trees after →
        (∀ tree ∈ trees, tree.IsOperation level.holds) ∧
        (∀ tree ∈ trees, tree.operand.Derives level.part) ∧
        Stands tokens position (Tree.operationsSpelling trees) ∧
        (∀ place ∈ Tree.operationNodesAt position trees,
          (tokens[place.1]?).map Token.line = some place.2.line) ∧
        after.At tokens (position + (Tree.operationsSpelling trees).length) := by
  intro bound
  induction bound with
  | nil =>
    intro position cursor after trees hat h
    simp only [operations, pure_ok] at h
    obtain ⟨rfl, rfl⟩ := h
    exact ⟨by simp, by simp, by simp [Tree.operationsSpelling], by simp [Tree.operationNodesAt],
      by simpa [Tree.operationsSpelling] using hat⟩
  | cons _ bound ih =>
    intro position cursor after trees hat h
    simp only [operations, bind_ok, current_ok] at h
    obtain ⟨_, _, ⟨rfl, rfl⟩, h⟩ := h
    split at h
    · next hholds =>
      have hoperator := Level.operator_of_holds hholds
      have hvalid : cursor.token.kind ≠ .invalid := by
        intro hinvalid
        rw [hinvalid] at hoperator
        exact absurd hoperator (by simp [TokenKind.operators])
      have htoken := hat.token_eq hvalid
      have hmem : cursor.token ∈ tokens := List.mem_of_getElem? htoken
      simp only [bind_ok, pure_ok] at h
      obtain ⟨_, c₁, hadvance, right, c₂, hright, others, c₃, hothers, rfl, rfl⟩ := h
      obtain ⟨hspans, hat₂⟩ := hpart _ _ _ _ (hat.advance_ok hvalid hadvance) hright
      obtain ⟨hoperations, hderives, hstands, hlines, hat₃⟩ := ih hat₂ hothers
      have hlength : position + ((Tree.operation cursor.token.lexeme right
          cursor.token.line).spelling).length = position + 1 + right.spelling.length := by
        simp only [Tree.spelling, List.length_cons]
        omega
      refine ⟨?_, ?_, ?_, ?_, ?_⟩
      · rintro tree (_ | ⟨_, htree⟩)
        · rw [Tree.IsOperation, (hspelled _ hmem).ofSpelling_lexeme hoperator]
          exact hholds
        · exact hoperations tree htree
      · rintro tree (_ | ⟨_, htree⟩)
        · exact hspans.derives
        · exact hderives tree htree
      · rw [Tree.operationsSpelling, stands_append, hlength]
        exact ⟨⟨operator_at hspelled htoken hoperator, hspans.stands⟩, hstands⟩
      · rw [Tree.operationNodesAt, hlength]
        intro place hplace
        rcases List.mem_append.1 hplace with hfirst | hothers
        · rcases List.mem_cons.1 hfirst with rfl | hright
          · rw [htoken]; rfl
          · exact hspans.lines place hright
        · exact hlines place hothers
      · rw [Tree.operationsSpelling, List.length_append, ← Nat.add_assoc, hlength]
        exact hat₃
    · simp only [pure_ok] at h
      obtain ⟨rfl, rfl⟩ := h
      exact ⟨by simp, by simp, by simp [Tree.operationsSpelling],
        by simp [Tree.operationNodesAt], by simpa [Tree.operationsSpelling] using hat⟩

/-- A row of operands. -/
theorem row_reads (level : Level) (hspelled : ∀ token ∈ tokens, token.IsSpelled)
    {part : Reader Tree} (hpart : part.Reads tokens level.part) :
    (row level part).Reads tokens level.row := by
  intro position cursor tree after hat h
  simp only [row, bind_ok, current_ok, remaining_ok] at h
  obtain ⟨_, _, ⟨rfl, rfl⟩, first, c₁, hfirst, _, _, ⟨rfl, rfl⟩, trees, c₂, htrees, h⟩ := h
  obtain ⟨hspans, hat₁⟩ := hpart _ _ _ _ hat hfirst
  obtain ⟨hoperations, hderives, hstands, hlines, hat₂⟩ :=
    operations_ok hspelled hpart _ hat₁ htrees
  cases trees with
  | nil =>
    simp only [pure_ok] at h
    obtain ⟨rfl, rfl⟩ := h
    exact ⟨⟨.single rfl hspans.derives, hspans.stands, hspans.lines⟩,
      by simpa [Tree.operationsSpelling] using hat₂⟩
  | cons operation operations =>
    simp only [pure_ok] at h
    obtain ⟨rfl, rfl⟩ := h
    have hpresent : first ≠ .absent :=
      hspans.derives.ne_absent (by cases level <;> decide)
    obtain ⟨token, htoken⟩ := hspans.exists_token hpresent
    have htoken' := hat.token_of_getElem? htoken
    refine ⟨⟨.chain rfl hspans.derives (by simp) hoperations hderives, ?_, ?_⟩, ?_⟩
    · rw [Tree.spelling, stands_append]
      exact ⟨hspans.stands, hstands⟩
    · intro place hplace
      rw [Tree.nodesAt] at hplace
      rcases List.mem_cons.1 hplace with rfl | hplace
      · rw [htoken, htoken']; rfl
      · rcases List.mem_append.1 hplace with hfirst | hothers
        · exact hspans.lines place hfirst
        · exact hlines place hothers
    · exact hat₂.move (by rw [Tree.spelling, List.length_append, Nat.add_assoc])

/-! ## Programs and blocks -/

/-- The statements of a program. -/
theorem statements_ok (hspelled : ∀ token ∈ tokens, token.IsSpelled) {statement : Reader Tree}
    (hstatement : statement.Reads tokens .statement) :
    ∀ (bound : List Token) {position : Nat} {cursor after : Cursor} {trees : List Tree},
      cursor.At tokens position → statements statement bound cursor = .ok trees after →
        (∀ tree ∈ trees, tree.Derives .statement) ∧
        Stands tokens position (Tree.statementsSpelling trees) ∧
        (∀ place ∈ Tree.statementNodesAt position trees,
          (tokens[place.1]?).map Token.line = some place.2.line) ∧
        after.At tokens (position + (Tree.statementsSpelling trees).length) := by
  intro bound
  induction bound with
  | nil =>
    intro position cursor after trees hat h
    simp only [statements, pure_ok] at h
    obtain ⟨rfl, rfl⟩ := h
    exact ⟨by simp, by simp [Tree.statementsSpelling], by simp [Tree.statementNodesAt],
      by simpa [Tree.statementsSpelling] using hat⟩
  | cons _ bound ih =>
    intro position cursor after trees hat h
    simp only [statements, bind_ok, current_ok] at h
    obtain ⟨_, _, ⟨rfl, rfl⟩, h⟩ := h
    generalize cursor.token.kind = kind at h
    split at h
    case h_6 =>
      simp only [pure_ok] at h
      obtain ⟨rfl, rfl⟩ := h
      exact ⟨by simp, by simp [Tree.statementsSpelling], by simp [Tree.statementNodesAt],
        by simpa [Tree.statementsSpelling] using hat⟩
    all_goals
      simp only [bind_ok, pure_ok] at h
      obtain ⟨first, c₁, hfirst, _, c₂, hsemicolon, others, c₃, hothers, rfl, rfl⟩ := h
      obtain ⟨hspans, hat₁⟩ := hstatement _ _ _ _ hat hfirst
      obtain ⟨hkind, htoken, hat₂⟩ := expect_ok hat₁ (by simp) hsemicolon
      obtain ⟨hderives, hstands, hlines, hat₃⟩ := ih hat₂ hothers
      refine ⟨?_, ?_, ?_, ?_⟩
      · rintro tree (_ | ⟨_, htree⟩)
        · exact hspans.derives
        · exact hderives tree htree
      · rw [Tree.statementsSpelling, stands_append, stands_cons]
        exact ⟨hspans.stands, piece_at hspelled htoken rfl hkind, hstands⟩
      · intro place hplace
        rw [Tree.statementNodesAt] at hplace
        rcases List.mem_append.1 hplace with hfirst | hothers
        · exact hspans.lines place hfirst
        · exact hlines place hothers
      · refine hat₃.move ?_
        rw [Tree.statementsSpelling, List.length_append, List.length_cons]
        omega

/-- A program: its line is that of its first token, or of the token that ends it. -/
theorem program_reads (hspelled : ∀ token ∈ tokens, token.IsSpelled) {statement : Reader Tree}
    (hstatement : statement.Reads tokens .statement) :
    (program statement).Reads tokens .program := by
  intro position cursor tree after hat h
  simp only [program, bind_ok, current_ok, remaining_ok] at h
  obtain ⟨_, _, ⟨rfl, rfl⟩, _, _, ⟨rfl, rfl⟩, trees, c₁, htrees, _, _, ⟨rfl, rfl⟩, h⟩ := h
  obtain ⟨hderives, hstands, hlines, hat₁⟩ := statements_ok hspelled hstatement _ hat htrees
  have hend : (c₁.token.kind = .endOfFile ∨ c₁.token.kind = .rbrace) ∧
      tree = .block trees cursor.token.line ∧ after = c₁ := by
    generalize c₁.token.kind = kind at h ⊢
    split at h
    · obtain ⟨rfl, rfl⟩ := pure_ok.1 h
      exact ⟨.inl rfl, rfl, rfl⟩
    · obtain ⟨rfl, rfl⟩ := pure_ok.1 h
      exact ⟨.inr rfl, rfl, rfl⟩
    · exact (failExpecting_ok.1 h).elim
  obtain ⟨hkind, rfl, rfl⟩ := hend
  have hvalid : after.token.kind ≠ .invalid := by
    rcases hkind with hkind | hkind <;> rw [hkind] <;> decide
  -- the first token is that of the first statement, or the one that ends the program
  have hfirst : ∃ token, tokens[position]? = some token := by
    cases trees with
    | nil => exact ⟨_, hat₁.token_eq hvalid⟩
    | cons statement trees =>
      have hpresent := (hderives statement (by simp)).ne_absent (by simp)
      have hline := hlines (position, statement) (by
        rw [Tree.statementNodesAt]
        exact List.mem_append_left _ (Tree.mem_nodesAt_self hpresent))
      obtain ⟨token, htoken, -⟩ := Option.map_eq_some_iff.1 hline
      exact ⟨token, htoken⟩
  obtain ⟨token, htoken⟩ := hfirst
  refine ⟨⟨.program hderives, hstands, ?_⟩, hat₁⟩
  intro place hplace
  rw [Tree.nodesAt] at hplace
  rcases List.mem_cons.1 hplace with rfl | hplace
  · rw [htoken, ← hat.token_of_getElem? htoken]; rfl
  · exact hlines place hplace

/-- A reader of a block: its tree spans the tokens between the braces. -/
def ReadsBlock (tokens : List Token) (block : Reader Tree) : Prop :=
  ∀ position cursor tree after, cursor.At tokens position → block cursor = .ok tree after →
    tree.Spans tokens .block (position + 1) ∧
      (tokens[position]?).map Token.piece = some TokenKind.lbrace.piece ∧
      (tokens[position + 1 + tree.spelling.length]?).map Token.piece =
        some TokenKind.rbrace.piece ∧
      after.At tokens (position + tree.spelling.length + 2)

/-- A program between braces. -/
theorem block_reads (hspelled : ∀ token ∈ tokens, token.IsSpelled) {program : Reader Tree}
    (hprogram : program.Reads tokens .program) : ReadsBlock tokens (block program) := by
  intro position cursor tree after hat h
  simp only [block, bind_ok, pure_ok] at h
  obtain ⟨_, c₁, hopen, body, c₂, hbody, _, c₃, hclose, rfl, rfl⟩ := h
  obtain ⟨hlbrace, hfirst, hat₁⟩ := expect_ok hat (by simp) hopen
  obtain ⟨hspans, hat₂⟩ := hprogram _ _ _ _ hat₁ hbody
  obtain ⟨hrbrace, hlast, hat₃⟩ := expect_ok hat₂ (by simp) hclose
  exact ⟨⟨.block hspans.derives, hspans.stands, hspans.lines⟩,
    piece_at hspelled hfirst rfl hlbrace, piece_at hspelled hlast rfl hrbrace,
    hat₃.move (by omega)⟩

/-! ## Statements -/

/-- An assignment. -/
theorem assignment_ok (hspelled : ∀ token ∈ tokens, token.IsSpelled) {relation : Reader Tree}
    (hrelation : relation.Reads tokens .relation) {tree : Tree} (hat : cursor.At tokens position)
    (hkind : cursor.token.kind = .ident) (h : assignment relation cursor = .ok tree after) :
    tree.Spans tokens .statement position ∧
      after.At tokens (position + tree.spelling.length) := by
  simp only [assignment, bind_ok, current_ok, pure_ok] at h
  obtain ⟨_, _, ⟨rfl, rfl⟩, _, c₁, hadvance, _, c₂, hequals, value, c₃, hvalue, rfl, rfl⟩ := h
  have hvalid : cursor.token.kind ≠ .invalid := by rw [hkind]; decide
  have hname := hat.token_eq hvalid
  obtain ⟨hassign, hsign, hat₂⟩ :=
    expect_ok (hat.advance_ok hvalid hadvance) (by simp) hequals
  obtain ⟨hspans, hat₃⟩ := hrelation _ _ _ _ hat₂ hvalue
  refine ⟨⟨.assignment hspans.derives, ?_, ?_⟩, ?_⟩
  · rw [Tree.spelling, stands_cons, stands_cons]
    refine ⟨?_, piece_at hspelled hsign rfl hassign, hspans.stands⟩
    rw [hname, Option.map_some, Token.piece, hkind]
  · intro place hplace
    rw [Tree.nodesAt] at hplace
    rcases List.mem_cons.1 hplace with rfl | hplace
    · rw [hname]; rfl
    · exact hspans.lines place hplace
  · refine hat₃.move ?_
    simp only [Tree.spelling, List.length_cons]
    omega

/-- What follows `mut` in a declaration that begins two tokens earlier. -/
theorem mutableRest_ok (hspelled : ∀ token ∈ tokens, token.IsSpelled) {relation : Reader Tree}
    (hrelation : relation.Reads tokens .relation) {tree : Tree} {opening : Token}
    (hopening : tokens[position]? = some opening)
    (hlet : (tokens[position]?).map Token.piece = some TokenKind.kwLet.piece)
    (hmut : (tokens[position + 1]?).map Token.piece = some TokenKind.kwMut.piece)
    (hat : cursor.At tokens (position + 2))
    (h : mutableRest relation opening.line cursor = .ok tree after) :
    tree.Spans tokens .statement position ∧
      after.At tokens (position + tree.spelling.length) := by
  simp only [mutableRest, bind_ok, current_ok] at h
  obtain ⟨name, c₁, hname, _, _, ⟨rfl, rfl⟩, h⟩ := h
  obtain ⟨hident, hnameAt, hat₁⟩ := expect_ok hat (by simp) hname
  have hnamePiece : (tokens[position + 2]?).map Token.piece = some (.ident, name.lexeme) := by
    rw [hnameAt, Option.map_some, Token.piece, hident]
  have hopeningLine : (tokens[position]?).map Token.line = some opening.line := by
    rw [hopening]; rfl
  generalize hkind : c₁.token.kind = kind at h
  split at h
  · simp only [bind_ok, pure_ok] at h
    obtain ⟨_, c₂, hadvance, value, c₃, hvalue, rfl, rfl⟩ := h
    have hvalid : c₁.token.kind ≠ .invalid := by rw [hkind]; decide
    obtain ⟨-, hsign⟩ := hat₁.opening hspelled rfl hkind
    obtain ⟨hspans, hat₂⟩ := hrelation _ _ _ _ (hat₁.advance_ok hvalid hadvance) hvalue
    have hinitial :=
      Tree.initialSign_of_ne_absent (hspans.derives.ne_absent (by simp))
    refine ⟨⟨.letMutable hspans.derives, ?_, ?_⟩, ?_⟩
    · rw [Tree.spelling, hinitial]
      exact ⟨hlet, hmut, hnamePiece, hsign, hspans.stands⟩
    · intro place hplace
      rw [Tree.nodesAt] at hplace
      rcases List.mem_cons.1 hplace with rfl | hplace
      · exact hopeningLine
      · exact hspans.lines place hplace
    · refine hat₂.move ?_
      rw [Tree.spelling, hinitial]
      simp only [List.length_cons, List.length_append, List.length_nil]
      omega
  · simp only [pure_ok] at h
    obtain ⟨rfl, rfl⟩ := h
    refine ⟨⟨.letUnset, ⟨hlet, hmut, hnamePiece, trivial⟩, ?_⟩, hat₁⟩
    intro place hplace
    simp only [Tree.nodesAt, List.mem_singleton] at hplace
    subst hplace
    exact hopeningLine
  · exact (failExpecting_ok.1 h).elim

/-- A declaration. -/
theorem declaration_ok (hspelled : ∀ token ∈ tokens, token.IsSpelled) {relation : Reader Tree}
    (hrelation : relation.Reads tokens .relation) {tree : Tree} (hat : cursor.At tokens position)
    (hkind : cursor.token.kind = .kwLet) (h : declaration relation cursor = .ok tree after) :
    tree.Spans tokens .statement position ∧
      after.At tokens (position + tree.spelling.length) := by
  simp only [declaration, bind_ok, current_ok] at h
  obtain ⟨_, _, ⟨rfl, rfl⟩, _, c₁, hadvance, _, _, ⟨rfl, rfl⟩, h⟩ := h
  have hvalid : cursor.token.kind ≠ .invalid := by rw [hkind]; decide
  obtain ⟨hopening, hlet⟩ := hat.opening hspelled rfl hkind
  have hat₁ := hat.advance_ok hvalid hadvance
  generalize hnext : c₁.token.kind = kind at h
  have hvalid₁ (hne : kind ≠ .invalid) : c₁.token.kind ≠ .invalid := hnext ▸ hne
  split at h
  · simp only [bind_ok, pure_ok] at h
    obtain ⟨_, c₂, hadvance₁, _, c₃, hequals, value, c₄, hvalue, rfl, rfl⟩ := h
    have hname := hat₁.token_eq (hvalid₁ (by simp))
    obtain ⟨hassign, hsign, hat₃⟩ :=
      expect_ok (hat₁.advance_ok (hvalid₁ (by simp)) hadvance₁) (by simp) hequals
    obtain ⟨hspans, hat₄⟩ := hrelation _ _ _ _ hat₃ hvalue
    refine ⟨⟨.letFixed hspans.derives, ?_, ?_⟩, ?_⟩
    · refine ⟨hlet, ?_, piece_at hspelled hsign rfl hassign, hspans.stands⟩
      rw [hname, Option.map_some, Token.piece, hnext]
    · intro place hplace
      rw [Tree.nodesAt] at hplace
      rcases List.mem_cons.1 hplace with rfl | hplace
      · rw [hopening]; rfl
      · exact hspans.lines place hplace
    · refine hat₄.move ?_
      simp only [Tree.spelling, List.length_cons]
      omega
  · simp only [bind_ok] at h
    obtain ⟨_, c₂, hadvance₁, h⟩ := h
    obtain ⟨-, hmut⟩ := hat₁.opening hspelled rfl hnext
    exact mutableRest_ok hspelled hrelation hopening hlet hmut
      (hat₁.advance_ok (hvalid₁ (by simp)) hadvance₁) h
  · exact (failExpecting_ok.1 h).elim

/-- A conditional. -/
theorem conditional_ok (hspelled : ∀ token ∈ tokens, token.IsSpelled)
    {relation block tail : Reader Tree} (hrelation : relation.Reads tokens .relation)
    (hblock : ReadsBlock tokens block) (htail : tail.Reads tokens .elsePart) {tree : Tree}
    (hat : cursor.At tokens position) (hkind : cursor.token.kind = .kwIf)
    (h : conditional relation block tail cursor = .ok tree after) :
    tree.Spans tokens .statement position ∧
      after.At tokens (position + tree.spelling.length) := by
  simp only [conditional, bind_ok, current_ok, pure_ok] at h
  obtain ⟨_, _, ⟨rfl, rfl⟩, _, c₁, hadvance, condition, c₂, hcondition, body, c₃, hbody, rest, c₄,
    hrest, rfl, rfl⟩ := h
  have hvalid : cursor.token.kind ≠ .invalid := by rw [hkind]; decide
  obtain ⟨hopening, hif⟩ := hat.opening hspelled rfl hkind
  obtain ⟨hspans₁, hat₂⟩ := hrelation _ _ _ _ (hat.advance_ok hvalid hadvance) hcondition
  obtain ⟨hspans₂, hlbrace, hrbrace, hat₃⟩ := hblock _ _ _ _ hat₂ hbody
  obtain ⟨hspans₃, hat₄⟩ := htail _ _ _ _ hat₃ hrest
  refine ⟨⟨.ifElse hspans₁.derives hspans₂.derives hspans₃.derives, ?_, ?_⟩, ?_⟩
  · simp only [Tree.spelling, stands_cons, stands_append]
    exact ⟨hif, hspans₁.stands, hlbrace, hspans₂.stands, hrbrace, hspans₃.stands_of (by omega)⟩
  · intro place hplace
    simp only [Tree.nodesAt, List.mem_cons, List.mem_append] at hplace
    rcases hplace with rfl | (hplace | hplace) | hplace
    · rw [hopening]; rfl
    · exact hspans₁.lines place hplace
    · exact hspans₂.lines_of (by omega) place hplace
    · exact hspans₃.lines_of (by omega) place hplace
  · refine hat₄.move ?_
    simp only [Tree.spelling, List.length_cons, List.length_append]
    omega

/-- What follows the body of a conditional. -/
theorem elsePart_reads (hspelled : ∀ token ∈ tokens, token.IsSpelled)
    {relation block tail : Reader Tree} (hrelation : relation.Reads tokens .relation)
    (hblock : ReadsBlock tokens block) (htail : tail.Reads tokens .elsePart) :
    (elsePart relation block tail).Reads tokens .elsePart := by
  intro position cursor tree after hat h
  simp only [elsePart, bind_ok, current_ok] at h
  obtain ⟨_, _, ⟨rfl, rfl⟩, h⟩ := h
  split at h
  · next hkind =>
    simp only [bind_ok, current_ok] at h
    obtain ⟨_, c₁, hadvance, _, _, ⟨rfl, rfl⟩, h⟩ := h
    have hvalid : cursor.token.kind ≠ .invalid := by rw [hkind]; decide
    obtain ⟨hopening, helse⟩ := hat.opening hspelled rfl hkind
    have hat₁ := hat.advance_ok hvalid hadvance
    generalize hnext : c₁.token.kind = kind at h
    split at h
    · simp only [bind_ok, pure_ok] at h
      obtain ⟨_, c₂, hadvance₁, condition, c₃, hcondition, body, c₄, hbody, rest, c₅, hrest, rfl,
        rfl⟩ := h
      have hvalid₁ : c₁.token.kind ≠ .invalid := by rw [hnext]; decide
      obtain ⟨-, hif⟩ := hat₁.opening hspelled rfl hnext
      obtain ⟨hspans₁, hat₂⟩ :=
        hrelation _ _ _ _ (hat₁.advance_ok hvalid₁ hadvance₁) hcondition
      obtain ⟨hspans₂, hlbrace, hrbrace, hat₃⟩ := hblock _ _ _ _ hat₂ hbody
      obtain ⟨hspans₃, hat₄⟩ := htail _ _ _ _ hat₃ hrest
      refine ⟨⟨.elseIf hspans₁.derives hspans₂.derives hspans₃.derives, ?_, ?_⟩, ?_⟩
      · simp only [Tree.spelling, stands_cons, stands_append]
        exact ⟨helse, hif, hspans₁.stands, hlbrace, hspans₂.stands, hrbrace,
          hspans₃.stands_of (by omega)⟩
      · intro place hplace
        simp only [Tree.nodesAt, List.mem_cons, List.mem_append] at hplace
        rcases hplace with rfl | (hplace | hplace) | hplace
        · rw [hopening]; rfl
        · exact hspans₁.lines place hplace
        · exact hspans₂.lines_of (by omega) place hplace
        · exact hspans₃.lines_of (by omega) place hplace
      · refine hat₄.move ?_
        simp only [Tree.spelling, List.length_cons, List.length_append]
        omega
    · simp only [bind_ok, pure_ok] at h
      obtain ⟨body, c₂, hbody, rfl, rfl⟩ := h
      obtain ⟨hspans, hlbrace, hrbrace, hat₂⟩ := hblock _ _ _ _ hat₁ hbody
      refine ⟨⟨.otherwise hspans.derives, ?_, ?_⟩, ?_⟩
      · simp only [Tree.spelling, stands_cons, stands_append]
        exact ⟨helse, hlbrace, hspans.stands, hrbrace, trivial⟩
      · intro place hplace
        rw [Tree.nodesAt] at hplace
        rcases List.mem_cons.1 hplace with rfl | hplace
        · rw [hopening]; rfl
        · exact hspans.lines place hplace
      · refine hat₂.move ?_
        simp only [Tree.spelling, List.length_cons, List.length_append, List.length_nil]
        omega
    · exact (failExpecting_ok.1 h).elim
  · simp only [pure_ok] at h
    obtain ⟨rfl, rfl⟩ := h
    exact ⟨⟨.noElse, trivial, by simp [Tree.nodesAt]⟩, by simpa [Tree.spelling] using hat⟩

/-- A loop. -/
theorem loop_ok (hspelled : ∀ token ∈ tokens, token.IsSpelled) {relation block : Reader Tree}
    (hrelation : relation.Reads tokens .relation) (hblock : ReadsBlock tokens block) {tree : Tree}
    (hat : cursor.At tokens position) (hkind : cursor.token.kind = .kwWhile)
    (h : loop relation block cursor = .ok tree after) :
    tree.Spans tokens .statement position ∧
      after.At tokens (position + tree.spelling.length) := by
  simp only [loop, bind_ok, current_ok, pure_ok] at h
  obtain ⟨_, _, ⟨rfl, rfl⟩, _, c₁, hadvance, condition, c₂, hcondition, body, c₃, hbody, rfl,
    rfl⟩ := h
  have hvalid : cursor.token.kind ≠ .invalid := by rw [hkind]; decide
  obtain ⟨hopening, hwhile⟩ := hat.opening hspelled rfl hkind
  obtain ⟨hspans₁, hat₂⟩ := hrelation _ _ _ _ (hat.advance_ok hvalid hadvance) hcondition
  obtain ⟨hspans₂, hlbrace, hrbrace, hat₃⟩ := hblock _ _ _ _ hat₂ hbody
  refine ⟨⟨.loop hspans₁.derives hspans₂.derives, ?_, ?_⟩, ?_⟩
  · simp only [Tree.spelling, stands_cons, stands_append]
    exact ⟨hwhile, hspans₁.stands, hlbrace, hspans₂.stands, hrbrace, trivial⟩
  · intro place hplace
    simp only [Tree.nodesAt, List.mem_cons, List.mem_append] at hplace
    rcases hplace with rfl | hplace | hplace
    · rw [hopening]; rfl
    · exact hspans₁.lines place hplace
    · exact hspans₂.lines_of (by omega) place hplace
  · refine hat₃.move ?_
    simp only [Tree.spelling, List.length_cons, List.length_append, List.length_nil]
    omega

/-- The arguments of a print. -/
theorem arguments_ok (hspelled : ∀ token ∈ tokens, token.IsSpelled) {relation : Reader Tree}
    (hrelation : relation.Reads tokens .relation) :
    ∀ (bound : List Token) {position : Nat} {cursor after : Cursor} {trees : List Tree},
      cursor.At tokens position → arguments relation bound cursor = .ok trees after →
        (∀ tree ∈ trees, tree.Derives .relation) ∧
        Stands tokens position (Tree.argumentsSpelling trees) ∧
        (∀ place ∈ Tree.argumentNodesAt position trees,
          (tokens[place.1]?).map Token.line = some place.2.line) ∧
        after.At tokens (position + (Tree.argumentsSpelling trees).length) := by
  intro bound
  induction bound with
  | nil =>
    intro position cursor after trees hat h
    simp only [arguments, pure_ok] at h
    obtain ⟨rfl, rfl⟩ := h
    exact ⟨by simp, trivial, by simp [Tree.argumentNodesAt],
      by simpa [Tree.argumentsSpelling] using hat⟩
  | cons _ bound ih =>
    intro position cursor after trees hat h
    simp only [arguments, bind_ok, current_ok] at h
    obtain ⟨_, _, ⟨rfl, rfl⟩, h⟩ := h
    split at h
    · next hkind =>
      simp only [bind_ok, pure_ok] at h
      obtain ⟨_, c₁, hadvance, first, c₂, hfirst, others, c₃, hothers, rfl, rfl⟩ := h
      have hvalid : cursor.token.kind ≠ .invalid := by rw [hkind]; decide
      obtain ⟨-, hcomma⟩ := hat.opening hspelled rfl hkind
      obtain ⟨hspans, hat₁⟩ := hrelation _ _ _ _ (hat.advance_ok hvalid hadvance) hfirst
      obtain ⟨hderives, hstands, hlines, hat₂⟩ := ih hat₁ hothers
      have hlength : position + first.spelling.length + 1 =
          position + 1 + first.spelling.length := by omega
      refine ⟨?_, ?_, ?_, ?_⟩
      · rintro tree (_ | ⟨_, htree⟩)
        · exact hspans.derives
        · exact hderives tree htree
      · rw [Tree.argumentsSpelling, stands_cons, stands_append]
        exact ⟨hcomma, hspans.stands, hstands⟩
      · intro place hplace
        rw [Tree.argumentNodesAt, hlength] at hplace
        rcases List.mem_append.1 hplace with hplace | hplace
        · exact hspans.lines place hplace
        · exact hlines place hplace
      · refine hat₂.move ?_
        rw [Tree.argumentsSpelling, List.length_cons, List.length_append]
        omega
    · simp only [pure_ok] at h
      obtain ⟨rfl, rfl⟩ := h
      exact ⟨by simp, trivial, by simp [Tree.argumentNodesAt],
        by simpa [Tree.argumentsSpelling] using hat⟩

/-- A print. -/
theorem output_ok (hspelled : ∀ token ∈ tokens, token.IsSpelled) {relation : Reader Tree}
    (hrelation : relation.Reads tokens .relation) {tree : Tree} (hat : cursor.At tokens position)
    (hkind : cursor.token.kind = .kwOutput) (h : output relation cursor = .ok tree after) :
    tree.Spans tokens .statement position ∧
      after.At tokens (position + tree.spelling.length) := by
  simp only [output, bind_ok, current_ok, remaining_ok, pure_ok] at h
  obtain ⟨_, _, ⟨rfl, rfl⟩, _, c₁, hadvance, format, c₂, hformat, _, _, ⟨rfl, rfl⟩, items, c₃,
    hitems, rfl, rfl⟩ := h
  have hvalid : cursor.token.kind ≠ .invalid := by rw [hkind]; decide
  obtain ⟨hopening, houtput⟩ := hat.opening hspelled rfl hkind
  obtain ⟨hstring, hformatAt, hat₂⟩ :=
    expect_ok (hat.advance_ok hvalid hadvance) (by simp) hformat
  obtain ⟨hderives, hstands, hlines, hat₃⟩ := arguments_ok hspelled hrelation _ hat₂ hitems
  refine ⟨⟨.output hderives, ⟨houtput, ?_, hstands⟩, ?_⟩, ?_⟩
  · rw [hformatAt, Option.map_some, Token.piece, hstring]
  · intro place hplace
    rw [Tree.nodesAt] at hplace
    rcases List.mem_cons.1 hplace with rfl | hplace
    · rw [hopening]; rfl
    · exact hlines place hplace
  · refine hat₃.move ?_
    simp only [Tree.spelling, List.length_cons]
    omega

/-- A statement of any form. -/
theorem statement_reads (hspelled : ∀ token ∈ tokens, token.IsSpelled)
    {relation block tail : Reader Tree} (hrelation : relation.Reads tokens .relation)
    (hblock : ReadsBlock tokens block) (htail : tail.Reads tokens .elsePart) :
    (statement relation block tail).Reads tokens .statement := by
  intro position cursor tree after hat h
  simp only [statement, bind_ok, current_ok] at h
  obtain ⟨_, _, ⟨rfl, rfl⟩, h⟩ := h
  generalize hkind : cursor.token.kind = kind at h
  split at h
  · exact assignment_ok hspelled hrelation hat hkind h
  · exact declaration_ok hspelled hrelation hat hkind h
  · exact conditional_ok hspelled hrelation hblock htail hat hkind h
  · exact loop_ok hspelled hrelation hblock hat hkind h
  · exact output_ok hspelled hrelation hat hkind h
  · exact (failExpecting_ok.1 h).elim

/-! ## Expressions -/

/-- A negation, or a sum that is or is not compared with another. -/
theorem negatable_reads (hspelled : ∀ token ∈ tokens, token.IsSpelled)
    {relation sum : Reader Tree} (hrelation : relation.Reads tokens .relation)
    (hsum : sum.Reads tokens .sum) : (negatable relation sum).Reads tokens .negatable := by
  intro position cursor tree after hat h
  simp only [negatable, bind_ok, current_ok] at h
  obtain ⟨_, _, ⟨rfl, rfl⟩, h⟩ := h
  split at h
  · next hkind =>
    simp only [bind_ok, pure_ok] at h
    obtain ⟨_, c₁, hadvance, _, c₂, hopen, inner, c₃, hinner, _, c₄, hclose, rfl, rfl⟩ := h
    have hvalid : cursor.token.kind ≠ .invalid := by rw [hkind]; decide
    obtain ⟨hopening, hnot⟩ := hat.opening hspelled rfl hkind
    obtain ⟨hlparen, hopenAt, hat₂⟩ :=
      expect_ok (hat.advance_ok hvalid hadvance) (by simp) hopen
    obtain ⟨hspans, hat₃⟩ := hrelation _ _ _ _ hat₂ hinner
    obtain ⟨hrparen, hcloseAt, hat₄⟩ := expect_ok hat₃ (by simp) hclose
    refine ⟨⟨.negation hspans.derives, ?_, ?_⟩, ?_⟩
    · simp only [Tree.spelling, stands_cons, stands_append]
      exact ⟨hnot, piece_at hspelled hopenAt rfl hlparen, hspans.stands,
        piece_at hspelled hcloseAt rfl hrparen, trivial⟩
    · intro place hplace
      rw [Tree.nodesAt] at hplace
      rcases List.mem_cons.1 hplace with rfl | hplace
      · rw [hopening]; rfl
      · exact hspans.lines place hplace
    · refine hat₄.move ?_
      simp only [Tree.spelling, List.length_cons, List.length_append, List.length_nil]
      omega
  · simp only [bind_ok, current_ok] at h
    obtain ⟨left, c₁, hleft, _, _, ⟨rfl, rfl⟩, h⟩ := h
    obtain ⟨hspans₁, hat₁⟩ := hsum _ _ _ _ hat hleft
    split at h
    · next hrelational =>
      simp only [bind_ok, pure_ok] at h
      obtain ⟨_, c₂, hadvance, right, c₃, hright, rfl, rfl⟩ := h
      have hoperator := TokenKind.operator_of_isRelational hrelational
      have hvalid : c₁.token.kind ≠ .invalid := by
        intro hinvalid
        rw [hinvalid] at hoperator
        exact absurd hoperator (by simp [TokenKind.operators])
      have htoken := hat₁.token_eq hvalid
      have hmem : c₁.token ∈ tokens := List.mem_of_getElem? htoken
      obtain ⟨hspans₂, hat₂⟩ := hsum _ _ _ _ (hat₁.advance_ok hvalid hadvance) hright
      obtain ⟨opening, hopening⟩ :=
        hspans₁.exists_token (hspans₁.derives.ne_absent (by simp))
      have hopening' := hat.token_of_getElem? hopening
      refine ⟨⟨.comparison hspans₁.derives ?_ hspans₂.derives, ?_, ?_⟩, ?_⟩
      · rw [Tree.IsOperation, (hspelled _ hmem).ofSpelling_lexeme hoperator]
        exact hrelational
      · simp only [Tree.spelling, stands_cons, stands_append]
        exact ⟨hspans₁.stands, operator_at hspelled htoken hoperator, hspans₂.stands⟩
      · intro place hplace
        simp only [Tree.nodesAt, List.mem_cons, List.mem_append] at hplace
        rcases hplace with rfl | hplace | rfl | hplace
        · rw [hopening, hopening']; rfl
        · exact hspans₁.lines place hplace
        · rw [htoken]; rfl
        · exact hspans₂.lines place hplace
      · refine hat₂.move ?_
        simp only [Tree.spelling, List.length_cons, List.length_append]
        omega
    · simp only [pure_ok] at h
      obtain ⟨rfl, rfl⟩ := h
      exact ⟨⟨.plain hspans₁.derives, hspans₁.stands, hspans₁.lines⟩, hat₁⟩

/-- A factor of one token. -/
theorem atom_spans (hat : cursor.At tokens position) (hvalid : cursor.token.kind ≠ .invalid)
    {value : Unit} (hadvance : advance cursor = .ok value after) {tree : Tree}
    (hderives : tree.Derives .factor) (hspelling : tree.spelling = [cursor.token.piece])
    (hnodes : tree.nodesAt position = [(position, tree)])
    (hline : tree.line = cursor.token.line) :
    tree.Spans tokens .factor position ∧ after.At tokens (position + tree.spelling.length) := by
  have htoken := hat.token_eq hvalid
  refine ⟨⟨hderives, ?_, ?_⟩, ?_⟩
  · rw [hspelling]
    exact ⟨by rw [htoken]; rfl, trivial⟩
  · intro place hplace
    rw [hnodes, List.mem_singleton] at hplace
    subst hplace
    rw [htoken, Option.map_some, hline]
  · rw [hspelling]
    exact hat.advance_ok hvalid hadvance

/-- A factor of any form. -/
theorem factor_reads (hspelled : ∀ token ∈ tokens, token.IsSpelled)
    {relation minus : Reader Tree} (hrelation : relation.Reads tokens .relation)
    (hminus : minus.Reads tokens .factor) : (factor relation minus).Reads tokens .factor := by
  intro position cursor tree after hat h
  simp only [factor, bind_ok, current_ok] at h
  obtain ⟨_, _, ⟨rfl, rfl⟩, h⟩ := h
  generalize hkind : cursor.token.kind = kind at h
  have hvalid (hne : kind ≠ .invalid) : cursor.token.kind ≠ .invalid := hkind ▸ hne
  split at h
  case h_1 =>
    simp only [bind_ok, pure_ok] at h
    obtain ⟨_, c₁, hadvance, rfl, rfl⟩ := h
    exact atom_spans hat (hvalid (by simp)) hadvance .var
      (by rw [Tree.spelling, Token.piece, hkind]) rfl rfl
  case h_7 =>
    simp only [bind_ok, pure_ok] at h
    obtain ⟨_, c₁, hadvance, rfl, rfl⟩ := h
    have hmem := List.mem_of_getElem? (hat.token_eq (hvalid (by simp)))
    exact atom_spans hat (hvalid (by simp)) hadvance .input
      (by rw [Tree.spelling, (hspelled _ hmem).piece_eq rfl hkind]) rfl rfl
  case h_8 =>
    simp only [bind_ok, pure_ok] at h
    obtain ⟨_, c₁, hadvance, inner, c₂, hinner, _, c₃, hclose, rfl, rfl⟩ := h
    obtain ⟨hopening, hlparen⟩ := hat.opening hspelled rfl hkind
    obtain ⟨hspans, hat₂⟩ :=
      hrelation _ _ _ _ (hat.advance_ok (hvalid (by simp)) hadvance) hinner
    obtain ⟨hrparen, hcloseAt, hat₃⟩ := expect_ok hat₂ (by simp) hclose
    refine ⟨⟨.group hspans.derives, ?_, ?_⟩, ?_⟩
    · simp only [Tree.spelling, stands_cons, stands_append]
      exact ⟨hlparen, hspans.stands, piece_at hspelled hcloseAt rfl hrparen, trivial⟩
    · intro place hplace
      rw [Tree.nodesAt] at hplace
      rcases List.mem_cons.1 hplace with rfl | hplace
      · rw [hopening]; rfl
      · exact hspans.lines place hplace
    · refine hat₃.move ?_
      simp only [Tree.spelling, List.length_cons, List.length_append, List.length_nil]
      omega
  case h_9 =>
    simp only [bind_ok, pure_ok] at h
    obtain ⟨_, c₁, hadvance, operand, c₂, hoperand, rfl, rfl⟩ := h
    obtain ⟨hopening, hsign⟩ := hat.opening hspelled rfl hkind
    obtain ⟨hspans, hat₂⟩ :=
      hminus _ _ _ _ (hat.advance_ok (hvalid (by simp)) hadvance) hoperand
    refine ⟨⟨.minus hspans.derives, ?_, ?_⟩, ?_⟩
    · rw [Tree.spelling, stands_cons]
      exact ⟨hsign, hspans.stands⟩
    · intro place hplace
      rw [Tree.nodesAt] at hplace
      rcases List.mem_cons.1 hplace with rfl | hplace
      · rw [hopening]; rfl
      · exact hspans.lines place hplace
    · refine hat₂.move ?_
      simp only [Tree.spelling, List.length_cons]
      omega
  case h_10 => exact (failExpecting_ok.1 h).elim
  all_goals
    simp only [bind_ok, pure_ok] at h
    obtain ⟨_, c₁, hadvance, rfl, rfl⟩ := h
    exact atom_spans hat (hvalid (by simp)) hadvance (.literal rfl)
      (by rw [Tree.spelling, Token.piece, hkind]) rfl rfl

end Reader

/-! ## All phrases -/

/-- What it is to read a phrase: a block spans the tokens between its braces, any other phrase
those from where it begins. -/
def Phrase.IsReadBy (tokens : List Token) : Phrase → Reader Tree → Prop
  | .block, reader => reader.ReadsBlock tokens
  | phrase, reader => reader.Reads tokens phrase

/-- Every phrase is read as a derivation of its tokens. -/
theorem Phrase.read_spans (hspelled : ∀ token ∈ tokens, token.IsSpelled) (budget : Nat) :
    ∀ phrase : Phrase, phrase.IsReadBy tokens (phrase.read budget) := by
  induction budget with
  | zero =>
    intro phrase
    cases phrase <;> exact fun _ _ _ _ _ h => (Reader.failTooDeep_ok.1 h).elim
  | succ budget ih =>
    intro phrase
    cases phrase with
    | program => exact Reader.program_reads hspelled (ih .statement)
    | statement =>
      exact Reader.statement_reads hspelled (ih .relation) (ih .block) (ih .elsePart)
    | elsePart => exact Reader.elsePart_reads hspelled (ih .relation) (ih .block) (ih .elsePart)
    | block => exact Reader.block_reads hspelled (ih .program)
    | relation => exact Reader.row_reads .or hspelled (ih .conjunction)
    | conjunction => exact Reader.row_reads .and hspelled (ih .negatable)
    | negatable => exact Reader.negatable_reads hspelled (ih .relation) (ih .sum)
    | sum => exact Reader.row_reads .sum hspelled (ih .product)
    | product => exact Reader.row_reads .product hspelled (ih .factor)
    | factor => exact Reader.factor_reads hspelled (ih .relation) (ih .factor)

/-- A program that has been read spans the tokens up to the first end token. -/
theorem Tree.spans_of_readFrom (hspelled : ∀ token ∈ tokens, token.IsSpelled) {budget : Nat}
    {tree : Tree} {cursor : Cursor} (h : Tree.readFrom budget tokens = .ok tree cursor) :
    tree.Spans tokens .program 0 ∧ cursor.At tokens tree.spelling.length ∧
      cursor.token.kind = .endOfFile := by
  simp only [readFrom, Reader.whole, bind_ok, Reader.current_ok] at h
  obtain ⟨_, c₁, hadvance, program, c₂, hprogram, _, _, ⟨rfl, rfl⟩, h⟩ := h
  obtain ⟨hspans, hat⟩ :=
    Phrase.read_spans hspelled budget .program _ _ _ _ (Cursor.at_start hadvance) hprogram
  generalize hkind : c₂.token.kind = kind at h
  split at h
  · exact (throw_ok.1 h).elim
  · obtain ⟨rfl, rfl⟩ := pure_ok.1 h
    exact ⟨hspans, hat.move (by omega), hkind⟩
  · exact (Reader.failExpecting_ok.1 h).elim

end ThreeAddress
