import ThreeAddress.Proofs.Check.Drawing
import ThreeAddress.Proofs.Code.Relining
import ThreeAddress.Proofs.Compilation.Tokens
import ThreeAddress.Proofs.Compilation.Stages
import ThreeAddress.Proofs.Grammar.Invariance
import ThreeAddress.Proofs.Token.Recognition

/-!
# Layout does not matter

The line of a token goes into the tree and from there into errors, and nowhere else. So tokens that
differ in their lines only are compiled to the same code with the same table, statistics and
drawing, or they fail with the same error up to its line (`compile_layout`). The tokens of two
sources are of this kind if they have the same texts, however many blanks, line ends and comments
stand between them.

An error of lowering tells its line in words. A program with tokens that are written as the lexer
cuts them has no such error, but an operator with another text has one.
-/

namespace ThreeAddress

open Sequence

/-! ## Outcomes on other lines -/

/-- An error on another line. -/
def CompileError.reline (lines : Line → Line) : CompileError → CompileError
  | grammar error => grammar (error.reline lines)
  | check error => check (error.reline lines)
  | lower error => lower (error.reline lines)
  | emit error => emit error

/-- An outcome on other lines. -/
def relineOutcome (lines : Line → Line) :
    Except CompileError Compilation → Except CompileError Compilation
  | .ok compilation => .ok { compilation with root := compilation.root.reline lines }
  | .error error => .error (error.reline lines)

/-- A report that does not tell its line. -/
def Report.unplaced : Report → Report
  | lexical reason lexeme _ => lexical reason lexeme none
  | grammar reason lexeme _ => grammar reason lexeme none
  | semantic reason _ => semantic reason none
  | internal stage reason => internal stage reason
  | lowering reason => lowering reason
  | emission reason => emission reason
  | other message => other message
  | breakdown cause => breakdown cause

/-- Two compilations that differ in the lines of their trees at most. -/
structure Compilation.IsRelined (compilation other : Compilation) : Prop where
  drawing : other.root.drawing? = compilation.root.drawing?
  table : other.table = compilation.table
  lines : other.lines = compilation.lines
  c : other.c = compilation.c
  statistics : other.statistics = compilation.statistics
  declared : other.declared = compilation.declared
  problems : other.problems = compilation.problems

/-- Two outcomes that differ in lines at most. Where a token is misspelled, the report of an error
of lowering may have another line in its words. -/
def AreRelined (misspelled : Prop) (outcome other : Except CompileError Compilation) : Prop :=
  match outcome, other with
  | .ok compilation, .ok compilation' => compilation.IsRelined compilation'
  | .error error, .error error' => error'.report.unplaced = error.report.unplaced ∨
      misspelled ∧ ∃ reason line line', error.report = LowerError.atNode line reason ∧
        error'.report = LowerError.atNode line' reason
  | _, _ => False

/-! ## The stages -/

section
variable {lines : Line → Line} {budgets : Budgets} {request : Request}

/-- The lines of a checked tree go into the tree and the errors only. -/
theorem compileRoot_reline (root : Node) (table : Table) :
    compileRoot budgets request (root.reline lines) table =
      relineOutcome lines (compileRoot budgets request root table) := by
  unfold compileRoot
  rw [Node.lowerProgram_reline, Lower.relined]
  cases root.lowerProgram budgets.lowering none { table } with
  | error error builder => rfl
  | ok code builder =>
    simp only [compileCode]
    split
    · cases ({ table := builder.table } : Emitter).unit code <;> rfl
    · rfl

/-- The lines of a grammar tree go into the checked tree and the errors only. -/
theorem compileTree_reline (tree : Tree) :
    compileTree budgets request (tree.reline lines) =
      relineOutcome lines (compileTree budgets request tree) := by
  unfold compileTree
  rw [Tree.checkProgram_relined]
  cases tree.checkProgram budgets.checking {} with
  | error error state => rfl
  | ok root state => exact compileRoot_reline root state.table

/-- The lines of tokens go into the checked tree and the errors only. -/
theorem compileTokens_reline (hfirst : lines 1 = 1) (tokens : List Token) :
    compileTokens budgets request (tokens.map (Token.reline lines)) =
      relineOutcome lines (compileTokens budgets request tokens) := by
  unfold compileTokens
  rw [Tree.ofTokens_relined hfirst]
  cases Tree.ofTokens budgets.reading tokens with
  | error error => rfl
  | ok tree => exact compileTree_reline tree

/-- Lowering a program whose tokens are spelled fails because of its depth only. -/
theorem compileTokens_lower_error {tokens : List Token} {error : LowerError}
    (hspelled : ∀ token ∈ tokens, token.IsSpelled)
    (h : compileTokens budgets request tokens = .error (.lower error)) : error = .tooDeep := by
  unfold compileTokens at h
  cases hread : Tree.ofTokens budgets.reading tokens with
  | error error =>
    rw [hread] at h
    cases h
  | ok tree =>
    obtain ⟨statements, line, rfl, hends⟩ :=
      (Tree.derives_of_ofTokens hspelled hread).1.checkProgram_ends budgets.checking .empty
    simp only [hread, compileTree] at h
    rcases hends with ⟨_, state, hrun, items, rfl, hchecks⟩ | ⟨error, state, hrun, -⟩
    · simp only [hrun, compileRoot] at h
      rcases hchecks.lowerProgram_ends ⟨line, .void⟩ budgets.lowering state.table with
        ⟨code, builder, hlower, -⟩ | ⟨_, builder, hlower, rfl⟩
      · simp only [hlower, compileCode] at h
        split at h
        · split at h <;> cases h
        · cases h
      · rw [hlower] at h
        cases h
        rfl
    · rw [hrun] at h
      cases h

end

/-! ## Reports -/

section
variable (lines : Line → Line)

/-- A report about a token but for its line. -/
theorem GrammarError.unplaced_report_reline (error : GrammarError) :
    (error.reline lines).report.unplaced = error.report.unplaced := by
  cases error <;> rfl

/-- A report of the checker but for its line. -/
theorem CheckError.unplaced_report_reline (error : CheckError) :
    (error.reline lines).report.unplaced = error.report.unplaced := by
  cases error with
  | names error line => cases error <;> rfl
  | _ => rfl

/-- The words of an error of lowering at a node, without its line. -/
def LowerError.complaint? : LowerError → Option String
  | noLowering form _ => some ("no TAC lowering for " ++ form)
  | noValue form _ => some (form ++ " produced no value")
  | binaryOperator operator _ => some ("unknown binary operator '" ++ operator ++ "'")
  | unaryOperator operator _ => some ("unknown unary operator '" ++ operator ++ "'")
  | noCondition _ => some "if statement without a condition"
  | missing | noText | notStorable _ | names _ | placedTwice _ | undefinedLabels _ | rootForm _
  | tooDeep => none

/-- An error on another line has the same words. -/
theorem LowerError.complaint?_reline (error : LowerError) :
    (error.reline lines).complaint? = error.complaint? := by
  cases error <;> rfl

/-- An error at a node tells its line in front of its words. -/
theorem LowerError.report_of_complaint? {error : LowerError} {reason : String}
    (h : error.complaint? = some reason) : ∃ line, error.report = atNode line reason := by
  cases error <;> cases h <;> exact ⟨_, rfl⟩

/-- An error that is not at a node has no line. -/
theorem LowerError.reline_of_complaint? {error : LowerError} (h : error.complaint? = none) :
    error.reline lines = error := by
  cases error <;> first | rfl | cases h

variable {lines}

/-- Errors of lowering that are the same up to lines are the same, or they tell different lines in
front of the same words. -/
theorem LowerError.report_of_reline_eq {error error' : LowerError}
    (h : error'.reline lines = error.reline lines) :
    error' = error ∨ ∃ reason line line', error.report = atNode line reason ∧
      error'.report = atNode line' reason := by
  have hsame : error'.complaint? = error.complaint? := by
    rw [← complaint?_reline lines, h, complaint?_reline]
  cases hcomplaint : error.complaint? with
  | none =>
    rw [reline_of_complaint? lines hcomplaint,
      reline_of_complaint? lines (hsame.trans hcomplaint)] at h
    exact .inl h
  | some reason =>
    obtain ⟨line, hreport⟩ := report_of_complaint? hcomplaint
    obtain ⟨line', hreport'⟩ := report_of_complaint? (hsame.trans hcomplaint)
    exact .inr ⟨reason, line, line', hreport, hreport'⟩

end

/-! ## Layout -/

variable {budgets : Budgets} {request : Request}

/-- Outcomes that are the same up to lines. Where no token is misspelled, an error of lowering is
told that there is no budget left, and no line. -/
theorem AreRelined.of_reline_eq {lines : Line → Line} {misspelled : Prop}
    {outcome other : Except CompileError Compilation}
    (h : relineOutcome lines other = relineOutcome lines outcome)
    (hspelled : ¬misspelled → ∀ error, outcome = .error (.lower error) → error = .tooDeep) :
    AreRelined misspelled outcome other := by
  cases outcome with
  | ok compilation =>
    cases other with
    | error error => cases h
    | ok other =>
      have hsame := Except.ok.inj h
      refine ⟨?_, ?_, ?_, ?_, ?_, ?_, ?_⟩
      · rw [← Node.drawing?_reline lines, ← compilation.root.drawing?_reline lines]
        exact congrArg (·.root.drawing?) hsame
      · exact congrArg (·.table) hsame
      · exact congrArg (·.lines) hsame
      · exact congrArg (·.c) hsame
      · exact congrArg (·.statistics) hsame
      · exact congrArg (·.declared) hsame
      · exact congrArg (·.problems) hsame
  | error error =>
    cases other with
    | ok other => cases h
    | error error' =>
      have hsame := Except.error.inj h
      cases error with
      | grammar error =>
        cases error' with
        | grammar error' =>
          refine .inl (((error'.unplaced_report_reline lines).symm.trans ?_).trans
            (error.unplaced_report_reline lines))
          rw [CompileError.grammar.inj hsame]
        | _ => cases hsame
      | check error =>
        cases error' with
        | check error' =>
          refine .inl (((error'.unplaced_report_reline lines).symm.trans ?_).trans
            (error.unplaced_report_reline lines))
          rw [CompileError.check.inj hsame]
        | _ => cases hsame
      | lower error =>
        cases error' with
        | lower error' =>
          have hcause := CompileError.lower.inj hsame
          by_cases hmisspelled : misspelled
          · rcases LowerError.report_of_reline_eq hcause with rfl | hplaced
            · exact .inl rfl
            · exact .inr ⟨hmisspelled, hplaced⟩
          · obtain rfl := hspelled hmisspelled error rfl
            cases error' <;> cases hcause
            exact .inl rfl
        | _ => cases hsame
      | emit error =>
        cases error' <;> cases hsame
        exact .inl rfl

/-- Tokens with the same kinds and texts are the same once all of them stand on the first line. -/
theorem map_reline_of_pieces {tokens others : List Token}
    (h : others.map Token.piece = tokens.map Token.piece) :
    others.map (Token.reline fun _ => 1) = tokens.map (Token.reline fun _ => 1) := by
  have hpiece (tokens : List Token) : tokens.map (Token.reline fun _ => 1) =
      (tokens.map Token.piece).map fun piece => ⟨piece.1, piece.2, 1⟩ := by
    rw [List.map_map]
    rfl
  rw [hpiece, hpiece, h]

/-- The kind of the token is told by its text. -/
def Piece.IsTold (piece : Piece) : Prop := piece.1 = kindOf piece.2.toList

/-- The kinds of the tokens of sources are told by their texts. -/
theorem Piece.isTold_of_mem_tokenize {source : String} {token : Token}
    (h : token ∈ tokenize source) : token.piece.IsTold := kind_of_mem_tokenize h

/-- Tokens whose kinds are told by their texts are equal if their texts are. -/
theorem Piece.eq_of_texts {pieces others : List Piece} (h : ∀ piece ∈ pieces, piece.IsTold)
    (hothers : ∀ piece ∈ others, piece.IsTold)
    (htexts : pieces.map Prod.snd = others.map Prod.snd) : pieces = others := by
  have htold {pieces : List Piece} (h : ∀ piece ∈ pieces, piece.IsTold) :
      pieces = (pieces.map Prod.snd).map fun text => (kindOf text.toList, text) := by
    rw [List.map_map]
    conv_lhs => rw [← List.map_id pieces]
    exact List.map_congr_left fun piece hmem => congrArg (·, piece.2) (h piece hmem)
  rw [htold h, htexts, ← htold hothers]

/-- Tokens of sources have the same kinds if they have the same texts. -/
theorem map_piece_of_lexemes {source other : String}
    (h : (tokenize other).map Token.lexeme = (tokenize source).map Token.lexeme) :
    (tokenize other).map Token.piece = (tokenize source).map Token.piece := by
  refine Piece.eq_of_texts ?_ ?_ ?_
  · exact List.forall_mem_map.2 fun token => Piece.isTold_of_mem_tokenize
  · exact List.forall_mem_map.2 fun token => Piece.isTold_of_mem_tokenize
  · rw [List.map_map, List.map_map]
    exact h

/-- Layout does not matter. Tokens with the same kinds and texts are compiled to the same, or they
fail with the same error, whatever their lines are; only where a token is misspelled can the words
of an error of lowering begin with another line. So sources whose tokens have the same texts are
compiled to the same, or they fail with the same error up to its line. -/
theorem compile_layout (budgets : Budgets) (request : Request) :
    (∀ tokens others : List Token, others.map Token.piece = tokens.map Token.piece →
      AreRelined (∃ token ∈ tokens, ¬token.IsSpelled) (compileTokens budgets request tokens)
        (compileTokens budgets request others)) ∧
    ∀ source other : String,
      (tokenize other).map Token.lexeme = (tokenize source).map Token.lexeme →
        AreRelined False (compile budgets request source).1 (compile budgets request other).1 := by
  have hreline {tokens others : List Token}
      (h : others.map Token.piece = tokens.map Token.piece) :
      relineOutcome (fun _ => 1) (compileTokens budgets request others) =
        relineOutcome (fun _ => 1) (compileTokens budgets request tokens) := by
    rw [← compileTokens_reline rfl, ← compileTokens_reline rfl, map_reline_of_pieces h]
  refine ⟨fun tokens others h => .of_reline_eq (hreline h) fun hnone error herror => ?_,
    fun source other h => ?_⟩
  · refine compileTokens_lower_error (fun token hmem => ?_) herror
    exact Classical.not_not.1 fun hspelled => hnone ⟨token, hmem, hspelled⟩
  · rw [compile_eq, compile_eq]
    refine .of_reline_eq (hreline (map_piece_of_lexemes h)) fun _ error herror => ?_
    exact compileTokens_lower_error (fun token => isSpelled_of_mem_tokenize) herror

/-- A program on one line, and the same program on several with comments between its tokens. The
same tokens with an error are told on other lines. -/
theorem compile_layout_comments :
    let source := "let x = 1 + 2; output \"%d\", x;"
    let other := "let x // the sum\n\t= 1+2\n;output \"%d\"\n  , x; // and no more"
    let tokens (line : Line) : List Token := [⟨.kwLet, "let", 1⟩, ⟨.assign, "=", line⟩]
    (∃ compilation compilation', (compile {} {} source).1 = .ok compilation ∧
      (compile {} {} other).1 = .ok compilation' ∧ compilation.IsRelined compilation' ∧
      compilation.lines = ["t1 = 1 + 2", "x = t1", "param \"%d\"", "param x", "call printf, 2"]) ∧
    ∃ error error', compileTokens {} {} (tokens 1) = .error error ∧
      compileTokens {} {} (tokens 7) = .error error' ∧
      error'.report.unplaced = error.report.unplaced ∧
      error.report = .grammar "variable or 'mut' expected" "=" (some 1) ∧
      error'.report = .grammar "variable or 'mut' expected" "=" (some 7) := by
  intro source other tokens
  have hlayout := compile_layout {} {}
  constructor
  · have hsame := hlayout.2 source other (by decide +kernel)
    obtain ⟨compilation, hcompile, hlines⟩ : ∃ compilation,
        (compile {} {} source).1 = .ok compilation ∧ compilation.lines =
          ["t1 = 1 + 2", "x = t1", "param \"%d\"", "param x", "call printf, 2"] :=
      exists_of_part (·.lines) (by decide +kernel)
    cases hother : (compile {} {} other).1 with
    | error error =>
      rw [hcompile, hother] at hsame
      exact hsame.elim
    | ok compilation' =>
      rw [hcompile, hother] at hsame
      exact ⟨compilation, compilation', hcompile, rfl, hsame, hlines⟩
  · have hsame := hlayout.1 (tokens 1) (tokens 7) (by decide)
    have hspelled : ¬∃ token ∈ tokens 1, ¬token.IsSpelled := by
      simp [tokens, Token.IsSpelled, TokenKind.spelling?]
    have hfirst : compileTokens {} {} (tokens 1) =
        .error (.grammar (.expected .variableOrMut "=" 1)) := rfl
    have hother : compileTokens {} {} (tokens 7) =
        .error (.grammar (.expected .variableOrMut "=" 7)) := rfl
    rw [hfirst, hother] at hsame
    exact ⟨_, _, hfirst, hother, hsame.resolve_right fun h => hspelled h.1, rfl, rfl⟩

/-- An operator with a text that is no operator: the words of the error tell the line. -/
theorem compileTokens_misspelled :
    let tokens (line : Line) : List Token :=
      [⟨.kwLet, "let", line⟩, ⟨.ident, "x", line⟩, ⟨.assign, "=", line⟩, ⟨.intLit, "1", line⟩,
        ⟨.plus, "@", line⟩, ⟨.intLit, "2", line⟩, ⟨.semicolon, ";", line⟩,
        ⟨.endOfFile, "end of file", line⟩]
    let reason? (line : Line) : Option String :=
      match compileTokens {} {} (tokens line) with
      | .error error => error.report.reason?
      | .ok _ => none
    (tokens 2).map Token.piece = (tokens 1).map Token.piece ∧
      reason? 1 = some "Line 1: unknown binary operator '@'" ∧
      reason? 2 = some "Line 2: unknown binary operator '@'" := by
  decide +kernel

end ThreeAddress
