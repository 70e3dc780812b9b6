import ThreeAddress.Proofs.Grammar.ErrorPosition
import ThreeAddress.Proofs.Grammar.Renaming

/-!
# The reader does not look at names and lines

The reader of a phrase does the same on tokens with other names and on other lines, and yields the
same tree with the other names and lines (`Phrase.read_echoes`). There is one lemma for each rule of
the grammar. It follows for whole files: they are read alike up to names (`Tree.ofTokens_renamed`)
and lines (`Tree.ofTokens_relined`), and what has not been asked for does not matter
(`Tree.ofTokens_congr`).
-/

namespace ThreeAddress

open Sequence

/-- An operator is valid, does not end the file and is no name. -/
theorem TokenKind.proper_of_operator {kind : TokenKind} (h : kind ∈ operators) :
    kind ≠ .invalid ∧ kind ≠ .endOfFile ∧ kind ≠ .ident := by
  refine ⟨?_, ?_, ?_⟩ <;> rintro rfl <;> revert h <;> decide

namespace Reader

variable {names : String → String} {lines : Line → Line} {tokens others : List Token}
  {position : Nat}

/-- A reader of trees, and one that does the same from anywhere up to names and lines. -/
def EchoesTree (names : String → String) (lines : Line → Line) (tokens others : List Token)
    (run other : Reader Tree) : Prop :=
  ∀ position, Echoes names lines tokens others (Tree.revise names lines) run other position

section
variable {relation relation' block block' tail tail' part part' : Reader Tree}

/-! ## Rows -/

/-- The operations of a row. -/
theorem echoes_operations (level : Level)
    (hpart : EchoesTree names lines tokens others part part') :
    ∀ (bound bound' : List Token) (position : Nat), tokens.length ≤ position + bound.length →
      others.length ≤ position + bound'.length →
      Echoes names lines tokens others (List.map (Tree.revise names lines))
        (operations level part bound) (operations level part' bound') position := by
  refine Echoes.loop rfl (operations_stop level part) (operations_stop level part') ?_
  intro _ _ bound bound' position hloop
  refine Echoes.current ?_
  rw [Token.kind_revise]
  split
  · next hholds =>
    obtain ⟨hvalid, hend, hname⟩ :=
      TokenKind.proper_of_operator (Level.operator_of_holds hholds)
    refine Echoes.advance_bind rfl hvalid hend ?_
    refine (hpart _).bind fun operand middle _ hmiddle => ?_
    refine (hloop middle (by omega)).bind fun operations _ _ _ => Echoes.pure ?_
    rw [Token.lexeme_revise_of_ne _ _ hname, Token.line_revise]
    rfl
  · exact Echoes.pure rfl

/-- A row of operands. -/
theorem echoes_row (level : Level) (hpart : EchoesTree names lines tokens others part part') :
    EchoesTree names lines tokens others (row level part) (row level part') := by
  intro position
  refine Echoes.current ?_
  rw [Token.line_revise]
  refine (hpart position).bind fun first _ _ _ => ?_
  refine Echoes.remaining fun bound bound' hbound hbound' => ?_
  refine (echoes_operations level hpart bound bound' _ hbound hbound').bind
    fun operations _ _ _ => ?_
  cases operations with
  | nil => exact Echoes.pure rfl
  | cons operation operations =>
    refine Echoes.pure ?_
    rw [← Tree.reviseAll_eq]
    rfl

/-! ## Programs and blocks -/

/-- The statements of a program. -/
theorem echoes_statements (hpart : EchoesTree names lines tokens others part part') :
    ∀ (bound bound' : List Token) (position : Nat), tokens.length ≤ position + bound.length →
      others.length ≤ position + bound'.length →
      Echoes names lines tokens others (List.map (Tree.revise names lines)) (statements part bound)
        (statements part' bound') position := by
  refine Echoes.loop rfl (statements_stop part) (statements_stop part') ?_
  intro _ _ bound bound' position hloop
  -- A statement, its semicolon and the statements behind it.
  have hround : Echoes names lines tokens others (List.map (Tree.revise names lines))
      (do
        let first ← part
        let _ ← expect .semicolon .semicolon
        let others ← statements part bound
        return first :: others)
      (do
        let first ← part'
        let _ ← expect .semicolon .semicolon
        let others ← statements part' bound'
        return first :: others) position := by
    refine (hpart position).bind fun first middle _ hmiddle => ?_
    refine Echoes.expect_bind nofun nofun fun _ _ => ?_
    exact (hloop _ (by omega)).bind fun _ _ _ _ => Echoes.pure rfl
  refine Echoes.current ?_
  rw [Token.kind_revise]
  generalize (Cursor.place tokens position).token.kind = kind
  cases kind with
  | ident | kwLet | kwIf | kwWhile | kwOutput => exact hround
  | _ => exact Echoes.pure rfl

/-- A program. -/
theorem echoes_program (hpart : EchoesTree names lines tokens others part part') :
    EchoesTree names lines tokens others (program part) (program part') := by
  intro position
  refine Echoes.current ?_
  rw [Token.line_revise]
  refine Echoes.remaining fun bound bound' hbound hbound' => ?_
  refine (echoes_statements hpart bound bound' position hbound hbound').bind
    fun statements middle _ _ => ?_
  refine Echoes.current ?_
  rw [Token.kind_revise]
  generalize (Cursor.place tokens _).token.kind = kind
  cases kind with
  | endOfFile | rbrace =>
    refine Echoes.pure ?_
    rw [← Tree.reviseAll_eq]
    rfl
  | _ => exact Echoes.failExpecting

/-- A block. -/
theorem echoes_block (hpart : EchoesTree names lines tokens others part part') :
    EchoesTree names lines tokens others (Reader.block part) (Reader.block part') := by
  intro position
  refine Echoes.expect_bind nofun nofun fun _ _ => ?_
  refine (hpart _).bind fun _ _ _ _ => ?_
  exact Echoes.expect_bind nofun nofun fun _ _ => Echoes.pure rfl

/-! ## Statements -/

/-- An assignment. -/
theorem echoes_assignment (hrelation : EchoesTree names lines tokens others relation relation')
    (hkind : (Cursor.place tokens position).token.kind = .ident) :
    Echoes names lines tokens others (Tree.revise names lines) (assignment relation)
      (assignment relation') position := by
  refine Echoes.current ?_
  rw [Token.line_revise, Token.lexeme_revise _ _ hkind]
  refine Echoes.advance_bind hkind nofun nofun ?_
  refine Echoes.expect_bind nofun nofun fun _ _ => ?_
  exact (hrelation _).bind fun _ _ _ _ => Echoes.pure rfl

/-- What follows `mut`. -/
theorem echoes_mutableRest (hrelation : EchoesTree names lines tokens others relation relation')
    (line : Line) :
    Echoes names lines tokens others (Tree.revise names lines) (mutableRest relation line)
      (mutableRest relation' (lines line)) position := by
  refine Echoes.expect_bind nofun nofun fun name hname => ?_
  rw [Token.lexeme_revise _ _ hname]
  refine Echoes.current ?_
  rw [Token.kind_revise]
  generalize hkind : (Cursor.place tokens _).token.kind = kind
  cases kind with
  | assign =>
    refine Echoes.advance_bind hkind nofun nofun ?_
    exact (hrelation _).bind fun _ _ _ _ => Echoes.pure rfl
  | semicolon => exact Echoes.pure rfl
  | _ => exact Echoes.failExpecting

/-- A declaration. -/
theorem echoes_declaration (hrelation : EchoesTree names lines tokens others relation relation')
    (hkind : (Cursor.place tokens position).token.kind = .kwLet) :
    Echoes names lines tokens others (Tree.revise names lines) (declaration relation)
      (declaration relation') position := by
  refine Echoes.current ?_
  rw [Token.line_revise]
  refine Echoes.advance_bind hkind nofun nofun ?_
  refine Echoes.current ?_
  rw [Token.kind_revise]
  generalize hnext : (Cursor.place tokens _).token.kind = kind
  cases kind with
  | ident =>
    rw [Token.lexeme_revise _ _ hnext]
    refine Echoes.advance_bind hnext nofun nofun ?_
    refine Echoes.expect_bind nofun nofun fun _ _ => ?_
    exact (hrelation _).bind fun _ _ _ _ => Echoes.pure rfl
  | kwMut =>
    refine Echoes.advance_bind hnext nofun nofun ?_
    exact echoes_mutableRest hrelation _
  | _ => exact Echoes.failExpecting

/-- A condition, its body and what follows it. -/
theorem echoes_guarded {image other : Tree → Tree → Tree → Tree}
    (himage : ∀ condition body rest, other (condition.revise names lines)
      (body.revise names lines) (rest.revise names lines) =
        (image condition body rest).revise names lines)
    (hrelation : EchoesTree names lines tokens others relation relation')
    (hblock : EchoesTree names lines tokens others block block')
    (htail : EchoesTree names lines tokens others tail tail') :
    Echoes names lines tokens others (Tree.revise names lines)
      (do
        let condition ← relation
        let body ← block
        let rest ← tail
        return image condition body rest)
      (do
        let condition ← relation'
        let body ← block'
        let rest ← tail'
        return other condition body rest) position := by
  refine (hrelation _).bind fun condition _ _ _ => ?_
  refine (hblock _).bind fun body _ _ _ => ?_
  exact (htail _).bind fun rest _ _ _ => Echoes.pure (himage condition body rest)

/-- A conditional. -/
theorem echoes_conditional (hrelation : EchoesTree names lines tokens others relation relation')
    (hblock : EchoesTree names lines tokens others block block')
    (htail : EchoesTree names lines tokens others tail tail')
    (hkind : (Cursor.place tokens position).token.kind = .kwIf) :
    Echoes names lines tokens others (Tree.revise names lines) (conditional relation block tail)
      (conditional relation' block' tail') position := by
  refine Echoes.current ?_
  rw [Token.line_revise]
  refine Echoes.advance_bind hkind nofun nofun ?_
  exact echoes_guarded (fun _ _ _ => rfl) hrelation hblock htail

/-- What follows the body of a conditional. -/
theorem echoes_elsePart (hrelation : EchoesTree names lines tokens others relation relation')
    (hblock : EchoesTree names lines tokens others block block')
    (htail : EchoesTree names lines tokens others tail tail') :
    EchoesTree names lines tokens others (elsePart relation block tail)
      (elsePart relation' block' tail') := by
  intro position
  refine Echoes.current ?_
  rw [Token.kind_revise, Token.line_revise]
  split
  · next hkind =>
    refine Echoes.advance_bind hkind nofun nofun ?_
    refine Echoes.current ?_
    rw [Token.kind_revise]
    generalize hnext : (Cursor.place tokens _).token.kind = kind
    cases kind with
    | kwIf =>
      refine Echoes.advance_bind hnext nofun nofun ?_
      exact echoes_guarded (fun _ _ _ => rfl) hrelation hblock htail
    | lbrace => exact (hblock _).bind fun _ _ _ _ => Echoes.pure rfl
    | _ => exact Echoes.failExpecting
  · exact Echoes.pure rfl

/-- A loop. -/
theorem echoes_loop (hrelation : EchoesTree names lines tokens others relation relation')
    (hblock : EchoesTree names lines tokens others block block')
    (hkind : (Cursor.place tokens position).token.kind = .kwWhile) :
    Echoes names lines tokens others (Tree.revise names lines) (loop relation block)
      (loop relation' block') position := by
  refine Echoes.current ?_
  rw [Token.line_revise]
  refine Echoes.advance_bind hkind nofun nofun ?_
  refine (hrelation _).bind fun _ _ _ _ => ?_
  exact (hblock _).bind fun _ _ _ _ => Echoes.pure rfl

/-- The arguments of a print. -/
theorem echoes_arguments (hrelation : EchoesTree names lines tokens others relation relation') :
    ∀ (bound bound' : List Token) (position : Nat), tokens.length ≤ position + bound.length →
      others.length ≤ position + bound'.length →
      Echoes names lines tokens others (List.map (Tree.revise names lines))
        (arguments relation bound) (arguments relation' bound') position := by
  refine Echoes.loop rfl (arguments_stop relation) (arguments_stop relation') ?_
  intro _ _ bound bound' position hloop
  refine Echoes.current ?_
  rw [Token.kind_revise]
  split
  · next hkind =>
    refine Echoes.advance_bind hkind nofun nofun ?_
    refine (hrelation _).bind fun first middle _ hmiddle => ?_
    exact (hloop middle (by omega)).bind fun _ _ _ _ => Echoes.pure rfl
  · exact Echoes.pure rfl

/-- A print. -/
theorem echoes_output (hrelation : EchoesTree names lines tokens others relation relation')
    (hkind : (Cursor.place tokens position).token.kind = .kwOutput) :
    Echoes names lines tokens others (Tree.revise names lines) (output relation) (output relation')
      position := by
  refine Echoes.current ?_
  rw [Token.line_revise]
  refine Echoes.advance_bind hkind nofun nofun ?_
  refine Echoes.expect_bind nofun nofun fun format hformat => ?_
  rw [Token.lexeme_revise_of_ne _ _ (hformat ▸ nofun)]
  refine Echoes.remaining fun bound bound' hbound hbound' => ?_
  refine (echoes_arguments hrelation bound bound' _ hbound hbound').bind
    fun items _ _ _ => Echoes.pure ?_
  rw [← Tree.reviseAll_eq]
  rfl

/-- A statement of any form. -/
theorem echoes_statement (hrelation : EchoesTree names lines tokens others relation relation')
    (hblock : EchoesTree names lines tokens others block block')
    (htail : EchoesTree names lines tokens others tail tail') :
    EchoesTree names lines tokens others (statement relation block tail)
      (statement relation' block' tail') := by
  intro position
  refine Echoes.current ?_
  rw [Token.kind_revise]
  generalize hkind : (Cursor.place tokens position).token.kind = kind
  cases kind with
  | ident => exact echoes_assignment hrelation hkind
  | kwLet => exact echoes_declaration hrelation hkind
  | kwIf => exact echoes_conditional hrelation hblock htail hkind
  | kwWhile => exact echoes_loop hrelation hblock hkind
  | kwOutput => exact echoes_output hrelation hkind
  | _ => exact Echoes.failExpecting

/-! ## Expressions -/

/-- A negation, or a sum that is or is not compared with another. -/
theorem echoes_negatable {sum sum' : Reader Tree}
    (hrelation : EchoesTree names lines tokens others relation relation')
    (hsum : EchoesTree names lines tokens others sum sum') :
    EchoesTree names lines tokens others (negatable relation sum) (negatable relation' sum') := by
  intro position
  refine Echoes.current ?_
  rw [Token.kind_revise, Token.line_revise]
  split
  · next hkind =>
    refine Echoes.advance_bind hkind nofun nofun ?_
    refine Echoes.expect_bind nofun nofun fun _ _ => ?_
    refine (hrelation _).bind fun _ _ _ _ => ?_
    exact Echoes.expect_bind nofun nofun fun _ _ => Echoes.pure rfl
  · refine (hsum position).bind fun left _ _ _ => ?_
    refine Echoes.current ?_
    rw [Token.kind_revise]
    split
    · next hrelational =>
      obtain ⟨hvalid, hend, hname⟩ :=
        TokenKind.proper_of_operator (TokenKind.operator_of_isRelational hrelational)
      refine Echoes.advance_bind rfl hvalid hend ?_
      rw [Token.lexeme_revise_of_ne _ _ hname, Token.line_revise]
      exact (hsum _).bind fun _ _ _ _ => Echoes.pure rfl
    · exact Echoes.pure rfl

/-- A factor of any form. -/
theorem echoes_factor {factor factor' : Reader Tree}
    (hrelation : EchoesTree names lines tokens others relation relation')
    (hfactor : EchoesTree names lines tokens others factor factor') :
    EchoesTree names lines tokens others (Reader.factor relation factor)
      (Reader.factor relation' factor') := by
  intro position
  refine Echoes.current ?_
  rw [Token.kind_revise, Token.line_revise]
  generalize hkind : (Cursor.place tokens position).token.kind = kind
  cases kind with
  | ident =>
    rw [Token.lexeme_revise _ _ hkind]
    exact Echoes.advance_bind hkind nofun nofun (Echoes.pure rfl)
  | intLit | floatLit | boolLit | charLit | stringLit =>
    rw [Token.lexeme_revise_of_ne _ _ (hkind ▸ nofun)]
    exact Echoes.advance_bind hkind nofun nofun (Echoes.pure rfl)
  | kwInput => exact Echoes.advance_bind hkind nofun nofun (Echoes.pure rfl)
  | lparen =>
    refine Echoes.advance_bind hkind nofun nofun ?_
    refine (hrelation _).bind fun _ _ _ _ => ?_
    exact Echoes.expect_bind nofun nofun fun _ _ => Echoes.pure rfl
  | minus =>
    refine Echoes.advance_bind hkind nofun nofun ?_
    exact (hfactor _).bind fun _ _ _ _ => Echoes.pure rfl
  | _ => exact Echoes.failExpecting

end

end Reader

/-! ## All phrases and whole files -/

/-- Every phrase is read in the same way with other names and on other lines. -/
theorem Phrase.read_echoes (names : String → String) (lines : Line → Line)
    (tokens others : List Token) (budget : Nat) :
    ∀ phrase : Phrase,
      Reader.EchoesTree names lines tokens others (phrase.read budget) (phrase.read budget) := by
  induction budget with
  | zero => exact fun _ _ => Reader.Echoes.failTooDeep
  | succ budget ih =>
    intro phrase
    cases phrase with
    | program => exact Reader.echoes_program (ih .statement)
    | statement => exact Reader.echoes_statement (ih .relation) (ih .block) (ih .elsePart)
    | elsePart => exact Reader.echoes_elsePart (ih .relation) (ih .block) (ih .elsePart)
    | block => exact Reader.echoes_block (ih .program)
    | relation => exact Reader.echoes_row .or (ih .conjunction)
    | conjunction => exact Reader.echoes_row .and (ih .negatable)
    | negatable => exact Reader.echoes_negatable (ih .relation) (ih .sum)
    | sum => exact Reader.echoes_row .sum (ih .product)
    | product => exact Reader.echoes_row .product (ih .factor)
    | factor => exact Reader.echoes_factor (ih .relation) (ih .factor)

/-- The body of a file is read in the same way with other names and on other lines. -/
theorem Reader.echoes_body (names : String → String) (lines : Line → Line)
    (tokens others : List Token) (budget : Nat) :
    EchoesTree names lines tokens others (body budget) (body budget) := by
  intro position
  refine (Phrase.read_echoes names lines tokens others budget .program position).bind
    fun tree _ _ _ => ?_
  refine Echoes.current ?_
  rw [Token.kind_revise]
  generalize hkind : (Cursor.place tokens _).token.kind = kind
  cases kind with
  | rbrace => exact Echoes.unmatchedBrace rfl rfl
  | endOfFile => exact Echoes.pure rfl
  | _ => exact Echoes.failExpecting

namespace Tree

variable {tokens others : List Token} {budget : Nat}

/-- How many tokens have been asked for when the reader stops. -/
def reads (budget : Nat) (tokens : List Token) : Nat :=
  match readFrom budget tokens with
  | .ok _ cursor | .error _ cursor => cursor.reads

/-- The reader of whole files does the same with other names and on other lines. -/
theorem readFrom_echoes (names : String → String) (lines : Line → Line) (budget : Nat)
    (tokens others : List Token) :
    match readFrom budget tokens with
    | .ok tree after => ∃ last, after.reads = last + 1 ∧ Traverses tokens 0 last ∧
        (Token.AreRevised names lines tokens others last → ∃ after',
          readFrom budget others = .ok (tree.revise names lines) after' ∧
            after'.reads = last + 1)
    | .error error after => ∃ last, after.reads = last + 1 ∧ Traverses tokens 0 last ∧
        (Token.AreRevised names lines tokens others last → ∃ error' after',
          readFrom budget others = .error (error'.reline lines) after' ∧
            after'.reads = last + 1 ∧ error.IsRenamed names error') := by
  by_cases hreadable : Readable tokens 0
  · have hother {last : Nat} (hrevised : Token.AreRevised names lines tokens others last) :
        readFrom budget others = Reader.body budget (.place others 0) :=
      readFrom_eq budget ((hrevised.mono (Nat.zero_le last)).readable_iff.2 hreadable)
    have hbody := Reader.echoes_body names lines tokens others budget 0
    unfold Reader.Echoes at hbody
    rw [readFrom_eq budget hreadable]
    cases hrun : Reader.body budget (.place tokens 0) with
    | ok tree after =>
      rw [hrun] at hbody
      obtain ⟨last, rfl, htraverses, hsame⟩ := hbody
      exact ⟨last, rfl, htraverses, fun hrevised =>
        ⟨_, (hother hrevised).trans (hsame hrevised), rfl⟩⟩
    | error error after =>
      rw [hrun] at hbody
      obtain ⟨last, hreads, htraverses, hsame⟩ := hbody
      refine ⟨last, hreads, htraverses, fun hrevised => ?_⟩
      rw [hother hrevised]
      exact hsame hrevised
  · obtain ⟨token, htoken, hinvalid⟩ := Option.map_eq_some_iff.1 (Decidable.not_not.1 hreadable)
    have hfirst {tokens : List Token} {token : Token} (h : tokens[0]? = some token)
        (hinvalid : token.kind = .invalid) :
        ∃ after, readFrom budget tokens = .error (.invalidToken token.lexeme token.line) after ∧
          after.reads = 1 :=
      ⟨_, bind_error.2 (.inl (Reader.advance_invalid Cursor.before_start h hinvalid)), rfl⟩
    obtain ⟨after, hrun, hreads⟩ := hfirst htoken hinvalid
    rw [hrun]
    refine ⟨0, hreads, .refl _, fun hrevised => ?_⟩
    have hother := hrevised.tokens 0 (Nat.le_refl _)
    have hident : token.kind ≠ .ident := by simp [hinvalid]
    rw [htoken, Option.map_some, Token.revise, Token.rename_of_ne _ hident] at hother
    obtain ⟨after', hrun', hreads'⟩ := hfirst hother hinvalid
    exact ⟨.invalidToken token.lexeme token.line, after', hrun', hreads', .inl rfl⟩

/-- The reader stops at some position, in front of which no token ends the file. -/
theorem exists_reads (budget : Nat) (tokens : List Token) :
    ∃ last, reads budget tokens = last + 1 ∧ Traverses tokens 0 last := by
  have h := readFrom_echoes id id budget tokens tokens
  rw [reads]
  cases hrun : readFrom budget tokens <;> rw [hrun] at h <;>
    exact ⟨_, h.choose_spec.1, h.choose_spec.2.1⟩

/-- On tokens that are the same up to names and lines, as far as they are asked for, the reader
stops at the same place with the same tree or error up to names and lines. -/
theorem ofTokens_echoes {names : String → String} {lines : Line → Line} {last : Nat}
    (hlast : reads budget tokens = last + 1)
    (h : Token.AreRevised names lines tokens others last) :
    reads budget others = last + 1 ∧
      match ofTokens budget tokens with
      | .ok tree => ofTokens budget others = .ok (tree.revise names lines)
      | .error error => ∃ error', ofTokens budget others = .error (error'.reline lines) ∧
          error.IsRenamed names error' := by
  have hechoes := readFrom_echoes names lines budget tokens others
  simp only [reads, ofTokens] at hlast ⊢
  cases hrun : readFrom budget tokens with
  | ok tree after =>
    simp only [hrun] at hechoes hlast ⊢
    obtain ⟨_, hreads, -, hother⟩ := hechoes
    rw [hlast] at hreads
    cases hreads
    obtain ⟨after', hother, hreads⟩ := hother h
    rw [hother]
    exact ⟨hreads, rfl⟩
  | error error after =>
    simp only [hrun] at hechoes hlast ⊢
    obtain ⟨_, hreads, -, hother⟩ := hechoes
    rw [hlast] at hreads
    cases hreads
    obtain ⟨error', after', hother, hreads, herror⟩ := hother h
    rw [hother]
    exact ⟨hreads, error', rfl, herror⟩

/-- A file with other names has the tree with the other names, or the same error up to the name of
the token that it is about. -/
theorem ofTokens_renamed (names : String → String) (budget : Nat) (tokens : List Token) :
    match ofTokens budget tokens with
    | .ok tree => ofTokens budget (tokens.map (Token.rename names)) = .ok (tree.rename names)
    | .error error => ∃ error', ofTokens budget (tokens.map (Token.rename names)) = .error error' ∧
        error.IsRenamed names error' := by
  obtain ⟨last, hlast, -⟩ := exists_reads budget tokens
  have hsame := (ofTokens_echoes hlast (⟨rfl, fun position _ => List.getElem?_map⟩ :
    Token.AreRevised names id tokens (tokens.map (Token.rename names)) last)).2
  cases htree : ofTokens budget tokens with
  | ok tree =>
    rw [htree] at hsame
    exact hsame.trans (congrArg Except.ok (reline_id _))
  | error error =>
    rw [htree] at hsame
    obtain ⟨error', herror', hrenamed⟩ := hsame
    exact ⟨error', herror'.trans (congrArg Except.error (GrammarError.reline_id _)), hrenamed⟩

/-- A file on other lines has the tree or the error with the other lines. -/
theorem ofTokens_relined {lines : Line → Line} (hfirst : lines 1 = 1) (budget : Nat)
    (tokens : List Token) :
    ofTokens budget (tokens.map (Token.reline lines)) = match ofTokens budget tokens with
      | .ok tree => .ok (tree.reline lines)
      | .error error => .error (error.reline lines) := by
  obtain ⟨last, hlast, -⟩ := exists_reads budget tokens
  have hrevised : Token.AreRevised id lines tokens (tokens.map (Token.reline lines)) last :=
    ⟨hfirst, fun position _ => by rw [Token.revise_lines, List.getElem?_map]⟩
  have hsame := (ofTokens_echoes hlast hrevised).2
  cases htree : ofTokens budget tokens with
  | ok tree =>
    rw [htree] at hsame
    rw [hsame, revise, rename_id]
  | error error =>
    rw [htree] at hsame
    obtain ⟨error', herror', hrenamed⟩ := hsame
    rw [herror', hrenamed.eq]

/-- What the reader has not asked for does not matter. -/
theorem ofTokens_congr
    (h : others.take (reads budget tokens) = tokens.take (reads budget tokens)) :
    reads budget others = reads budget tokens ∧
      ofTokens budget others = ofTokens budget tokens := by
  obtain ⟨last, hlast, -⟩ := exists_reads budget tokens
  have hrevised : Token.AreRevised id id tokens others last := by
    refine ⟨rfl, fun position hle => ?_⟩
    have htake := congrArg (·[position]?) h
    rw [hlast, List.getElem?_take_of_lt (Nat.lt_succ_of_le hle),
      List.getElem?_take_of_lt (Nat.lt_succ_of_le hle)] at htake
    have hid : Token.rename id = id := funext Token.rename_id
    rw [htake, Token.revise_names, hid, Option.map_id, id]
  obtain ⟨hreads, hsame⟩ := ofTokens_echoes hlast hrevised
  refine ⟨hreads.trans hlast.symm, ?_⟩
  cases htree : ofTokens budget tokens with
  | ok tree =>
    rw [htree] at hsame
    rw [hsame, revise, reline_id, rename_id]
  | error error =>
    rw [htree] at hsame
    obtain ⟨error', herror', hrenamed⟩ := hsame
    rw [herror', GrammarError.reline_id, hrenamed.eq]

/-- No token behind the first one that ends the file is asked for. -/
theorem reads_le {position : Nat} {token : Token} (htoken : tokens[position]? = some token)
    (hend : token.kind = .endOfFile) : reads budget tokens ≤ position + 1 := by
  obtain ⟨last, hlast, -, htraverses⟩ := exists_reads budget tokens
  rw [hlast]
  refine Nat.succ_le_succ (Nat.le_of_not_lt fun hlt => ?_)
  obtain ⟨found, hfound, hkind⟩ := htraverses position (Nat.zero_le _) hlt
  cases htoken.symm.trans hfound
  exact hkind hend

end Tree

end ThreeAddress
