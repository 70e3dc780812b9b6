import ThreeAddress.Proofs.Grammar.Walk

/-!
# Reading tokens with other names and on other lines

What a name is does not matter to the reader, on which line a token stands does not matter either,
and neither does what stands behind the last token it has asked for. So on two lists of tokens that
are the same up to names and lines, as far as the reader goes (`Token.AreRevised`), it does the same
(`Tree.readFrom_echoes`): it stops at the same place, with the same tree up to names and lines or
with the same error up to its line and the text of the token that it is about.

Without a change of names and lines this says that the reader depends on nothing but the tokens that
it has asked for (`Tree.ofTokens_congr`). It does not ask for any behind the first end token.
-/

namespace ThreeAddress

open Sequence

/-! ## Other names -/

/-- A token with another name, if it is a name. -/
def Token.rename (names : String → String) (token : Token) : Token :=
  if token.kind = .ident then { token with lexeme := names token.lexeme } else token

namespace Token

variable (names : String → String) {token : Token}

@[simp] theorem kind_rename (token : Token) : (token.rename names).kind = token.kind := by
  unfold rename
  split <;> rfl

@[simp] theorem line_rename (token : Token) : (token.rename names).line = token.line := by
  unfold rename
  split <;> rfl

/-- A name gets its other name. -/
theorem lexeme_rename (h : token.kind = .ident) :
    (token.rename names).lexeme = names token.lexeme := by
  rw [rename, if_pos h]

/-- A token that is no name stays as it is. -/
theorem rename_of_ne (h : token.kind ≠ .ident) : token.rename names = token := if_neg h

/-- The text of a token is the same or the other name. -/
theorem lexeme_rename_or (token : Token) : (token.rename names).lexeme = token.lexeme ∨
    (token.rename names).lexeme = names token.lexeme := by
  unfold rename
  split
  · exact .inr rfl
  · exact .inl rfl

@[simp] theorem rename_id (token : Token) : token.rename id = token := by
  unfold rename
  split <;> rfl

/-- A token depends on its own name only. -/
theorem rename_congr {names names' : String → String}
    (h : token.kind = .ident → names' token.lexeme = names token.lexeme) :
    token.rename names' = token.rename names := by
  by_cases hkind : token.kind = .ident
  · rw [rename, rename, h hkind]
  · rw [rename_of_ne _ hkind, rename_of_ne _ hkind]

end Token

/-- A token on another line. -/
def Token.reline (lines : Line → Line) (token : Token) : Token :=
  { token with line := lines token.line }

/-- A token with another name, if it is a name, and on another line. -/
def Token.revise (names : String → String) (lines : Line → Line) (token : Token) : Token :=
  (token.rename names).reline lines

namespace Token

variable (names : String → String) (lines : Line → Line) {token : Token}

@[simp] theorem kind_revise (token : Token) : (token.revise names lines).kind = token.kind :=
  kind_rename names token

@[simp] theorem line_revise (token : Token) :
    (token.revise names lines).line = lines token.line :=
  congrArg lines (line_rename names token)

/-- A name gets its other name. -/
theorem lexeme_revise (h : token.kind = .ident) :
    (token.revise names lines).lexeme = names token.lexeme := lexeme_rename names h

/-- A token that is no name keeps its text. -/
theorem lexeme_revise_of_ne (h : token.kind ≠ .ident) :
    (token.revise names lines).lexeme = token.lexeme := by
  rw [revise, rename_of_ne names h]
  rfl

/-- The same lines. -/
@[simp] theorem revise_names : revise names id = rename names := rfl

/-- The same names. -/
@[simp] theorem revise_lines : revise id lines = reline lines := by
  funext token
  rw [revise, rename_id]

end Token

namespace Tree

mutual
/-- A tree with other names. -/
def rename (names : String → String) : Tree → Tree
  | absent => absent
  | bare line => bare line
  | block statements line => block (renameAll names statements) line
  | assignment name value line => assignment (names name) (value.rename names) line
  | letFixed name value line => letFixed (names name) (value.rename names) line
  | letMutable name value line => letMutable (names name) (value.rename names) line
  | ifElse condition body tail line =>
    ifElse (condition.rename names) (body.rename names) (tail.rename names) line
  | elseIf condition body tail line =>
    elseIf (condition.rename names) (body.rename names) (tail.rename names) line
  | otherwise body line => otherwise (body.rename names) line
  | loop condition body line => loop (condition.rename names) (body.rename names) line
  | output format arguments line => output format (renameAll names arguments) line
  | operation operator operand line => operation operator (operand.rename names) line
  | chain level first operations line =>
    chain level (first.rename names) (renameAll names operations) line
  | comparison left joined line => comparison (left.rename names) (joined.rename names) line
  | negation operand line => negation (operand.rename names) line
  | var name line => var (names name) line
  | literal kind lexeme line => literal kind lexeme line
  | input line => input line
  | group inner line => group (inner.rename names) line
  | minus operand line => minus (operand.rename names) line

/-- Trees with other names. -/
def renameAll (names : String → String) : List Tree → List Tree
  | [] => []
  | tree :: trees => tree.rename names :: renameAll names trees
end

@[simp] theorem renameAll_eq (names : String → String) (trees : List Tree) :
    renameAll names trees = trees.map (rename names) := by
  induction trees with
  | nil => rfl
  | cons tree trees ih => rw [renameAll, ih, List.map_cons]

mutual
/-- The same names. -/
theorem rename_id : ∀ tree : Tree, tree.rename id = tree
  | absent | bare _ | literal .. | input _ | var .. => rfl
  | block statements _ => by rw [rename, renameAll_id statements]
  | assignment _ value _ | letFixed _ value _ | letMutable _ value _ => by
    rw [rename, rename_id value]; rfl
  | ifElse condition body tail _ | elseIf condition body tail _ => by
    rw [rename, rename_id condition, rename_id body, rename_id tail]
  | otherwise body _ => by rw [rename, rename_id body]
  | loop condition body _ => by rw [rename, rename_id condition, rename_id body]
  | output _ arguments _ => by rw [rename, renameAll_id arguments]
  | operation _ operand _ => by rw [rename, rename_id operand]
  | chain _ first operations _ => by rw [rename, rename_id first, renameAll_id operations]
  | comparison left joined _ => by rw [rename, rename_id left, rename_id joined]
  | negation inner _ | group inner _ | minus inner _ => by rw [rename, rename_id inner]

/-- The same names. -/
theorem renameAll_id : ∀ trees : List Tree, renameAll id trees = trees
  | [] => rfl
  | tree :: trees => by rw [renameAll, rename_id tree, renameAll_id trees]
end

mutual
/-- A tree on other lines. -/
def reline (lines : Line → Line) : Tree → Tree
  | absent => absent
  | bare line => bare (lines line)
  | block statements line => block (relineAll lines statements) (lines line)
  | assignment name value line => assignment name (value.reline lines) (lines line)
  | letFixed name value line => letFixed name (value.reline lines) (lines line)
  | letMutable name value line => letMutable name (value.reline lines) (lines line)
  | ifElse condition body tail line =>
    ifElse (condition.reline lines) (body.reline lines) (tail.reline lines) (lines line)
  | elseIf condition body tail line =>
    elseIf (condition.reline lines) (body.reline lines) (tail.reline lines) (lines line)
  | otherwise body line => otherwise (body.reline lines) (lines line)
  | loop condition body line => loop (condition.reline lines) (body.reline lines) (lines line)
  | output format arguments line => output format (relineAll lines arguments) (lines line)
  | operation operator operand line => operation operator (operand.reline lines) (lines line)
  | chain level first operations line =>
    chain level (first.reline lines) (relineAll lines operations) (lines line)
  | comparison left joined line =>
    comparison (left.reline lines) (joined.reline lines) (lines line)
  | negation operand line => negation (operand.reline lines) (lines line)
  | var name line => var name (lines line)
  | literal kind lexeme line => literal kind lexeme (lines line)
  | input line => input (lines line)
  | group inner line => group (inner.reline lines) (lines line)
  | minus operand line => minus (operand.reline lines) (lines line)

/-- Trees on other lines. -/
def relineAll (lines : Line → Line) : List Tree → List Tree
  | [] => []
  | tree :: trees => tree.reline lines :: relineAll lines trees
end

@[simp] theorem relineAll_eq (lines : Line → Line) (trees : List Tree) :
    relineAll lines trees = trees.map (reline lines) := by
  induction trees with
  | nil => rfl
  | cons tree trees ih => rw [relineAll, ih, List.map_cons]

mutual
/-- The same lines. -/
theorem reline_id : ∀ tree : Tree, tree.reline id = tree
  | absent | bare _ | literal .. | input _ | var .. => rfl
  | block statements _ => by rw [reline, relineAll_id statements]; rfl
  | assignment _ value _ | letFixed _ value _ | letMutable _ value _ => by
    rw [reline, reline_id value]; rfl
  | ifElse condition body tail _ | elseIf condition body tail _ => by
    rw [reline, reline_id condition, reline_id body, reline_id tail]; rfl
  | otherwise body _ => by rw [reline, reline_id body]; rfl
  | loop condition body _ => by rw [reline, reline_id condition, reline_id body]; rfl
  | output _ arguments _ => by rw [reline, relineAll_id arguments]; rfl
  | operation _ operand _ => by rw [reline, reline_id operand]; rfl
  | chain _ first operations _ => by rw [reline, reline_id first, relineAll_id operations]; rfl
  | comparison left joined _ => by rw [reline, reline_id left, reline_id joined]; rfl
  | negation inner _ | group inner _ | minus inner _ => by rw [reline, reline_id inner]; rfl

/-- The same lines. -/
theorem relineAll_id : ∀ trees : List Tree, relineAll id trees = trees
  | [] => rfl
  | tree :: trees => by rw [relineAll, reline_id tree, relineAll_id trees]
end

mutual
/-- A tree without lines is on line zero. -/
theorem unlined_eq : ∀ tree : Tree, tree.unlined = tree.reline fun _ => 0
  | absent | bare _ | literal .. | input _ | var .. => rfl
  | block statements _ => by rw [unlined, unlinedAll_eq statements, reline]
  | assignment _ value _ | letFixed _ value _ | letMutable _ value _ => by
    rw [unlined, unlined_eq value, reline]
  | ifElse condition body tail _ | elseIf condition body tail _ => by
    rw [unlined, unlined_eq condition, unlined_eq body, unlined_eq tail, reline]
  | otherwise body _ => by rw [unlined, unlined_eq body, reline]
  | loop condition body _ => by rw [unlined, unlined_eq condition, unlined_eq body, reline]
  | output _ arguments _ => by rw [unlined, unlinedAll_eq arguments, reline]
  | operation _ operand _ => by rw [unlined, unlined_eq operand, reline]
  | chain _ first operations _ => by
    rw [unlined, unlined_eq first, unlinedAll_eq operations, reline]
  | comparison left joined _ => by rw [unlined, unlined_eq left, unlined_eq joined, reline]
  | negation inner _ | group inner _ | minus inner _ => by rw [unlined, unlined_eq inner, reline]

/-- Trees without lines are on line zero. -/
theorem unlinedAll_eq : ∀ trees : List Tree, unlinedAll trees = relineAll (fun _ => 0) trees
  | [] => rfl
  | tree :: trees => by rw [unlinedAll, unlined_eq tree, unlinedAll_eq trees, relineAll]
end

/-- A tree with other names and on other lines. -/
def revise (names : String → String) (lines : Line → Line) (tree : Tree) : Tree :=
  (tree.rename names).reline lines

/-- Trees with other names and on other lines. -/
theorem reviseAll_eq (names : String → String) (lines : Line → Line) (trees : List Tree) :
    relineAll lines (renameAll names trees) = trees.map (revise names lines) := by
  rw [relineAll_eq, renameAll_eq, List.map_map]
  rfl

end Tree

namespace GrammarError

/-- An error about a token with another text. -/
def mapLexeme (change : String → String) : GrammarError → GrammarError
  | invalidToken lexeme line => invalidToken (change lexeme) line
  | expected what lexeme line => expected what (change lexeme) line
  | inputEnded what line => inputEnded what line
  | unmatchedBrace lexeme line => unmatchedBrace (change lexeme) line
  | tooDeep lexeme line => tooDeep (change lexeme) line

/-- The same error, about the same token or about it with its other name. -/
def IsRenamed (names : String → String) (error other : GrammarError) : Prop :=
  other = error ∨ other = error.mapLexeme names

/-- The same error. -/
theorem IsRenamed.eq {error other : GrammarError} (h : error.IsRenamed id other) :
    other = error := by
  rcases h with rfl | rfl
  · rfl
  · cases error <;> rfl

/-- The error on another line. -/
def reline (lines : Line → Line) : GrammarError → GrammarError
  | invalidToken lexeme line => invalidToken lexeme (lines line)
  | expected what lexeme line => expected what lexeme (lines line)
  | inputEnded what line => inputEnded what (lines line)
  | unmatchedBrace lexeme line => unmatchedBrace lexeme (lines line)
  | tooDeep lexeme line => tooDeep lexeme (lines line)

/-- The same lines. -/
theorem reline_id (error : GrammarError) : error.reline id = error := by
  cases error <;> rfl

end GrammarError

/-! ## Readers side by side -/

/-- Up to the position and with it, the second tokens are the first ones with other names and on
other lines. A reader that has not read a token is on the first line, which stays the first. -/
structure Token.AreRevised (names : String → String) (lines : Line → Line)
    (tokens others : List Token) (last : Nat) : Prop where
  first : lines 1 = 1
  tokens : ∀ position, position ≤ last →
    others[position]? = (tokens[position]?).map (Token.revise names lines)

/-- The reader has gone over the tokens from one position to another, and none ends the file. -/
def Traverses (tokens : List Token) (first last : Nat) : Prop :=
  first ≤ last ∧ ∀ position, first ≤ position → position < last →
    ∃ token, tokens[position]? = some token ∧ token.kind ≠ .endOfFile

/-- The second reader does on the second tokens what the first one does on the first, as far as the
second tokens are the first ones with other names and on other lines. -/
def Reader.Echoes {Value Other : Type} (names : String → String) (lines : Line → Line)
    (tokens others : List Token) (image : Value → Other) (run : Reader Value)
    (other : Reader Other) (position : Nat) : Prop :=
  match run (.place tokens position) with
  | .ok value after => ∃ last, after = .place tokens last ∧ Traverses tokens position last ∧
      (Token.AreRevised names lines tokens others last →
        other (.place others position) = .ok (image value) (.place others last))
  | .error error after => ∃ last, after.reads = last + 1 ∧ Traverses tokens position last ∧
      (Token.AreRevised names lines tokens others last → ∃ error' after',
        other (.place others position) = .error (error'.reline lines) after' ∧
          after'.reads = last + 1 ∧ error.IsRenamed names error')

section
variable {names : String → String} {lines : Line → Line} {tokens others : List Token}
  {first middle last : Nat}

theorem Token.AreRevised.mono (h : AreRevised names lines tokens others last)
    (hle : middle ≤ last) : AreRevised names lines tokens others middle :=
  ⟨h.first, fun position hposition => h.tokens position (Nat.le_trans hposition hle)⟩

/-- The line of the last token is the other line. -/
theorem Token.AreRevised.lastLine_eq (h : AreRevised names lines tokens others last) :
    lastLine (others.take (last + 1)) = lines (lastLine (tokens.take (last + 1))) := by
  have htake : others.take (last + 1) =
      (tokens.take (last + 1)).map (Token.revise names lines) := by
    refine List.ext_getElem? fun position => ?_
    rw [List.getElem?_map, List.getElem?_take, List.getElem?_take]
    split
    · next hlt => exact h.tokens position (Nat.le_of_lt_succ hlt)
    · rfl
  rw [htake, lastLine, lastLine, List.getLast?_map]
  cases (tokens.take (last + 1)).getLast? with
  | none => exact h.first.symm
  | some token => exact Token.line_revise names lines token

/-- The token that is looked at is the same up to its name and its line. -/
theorem Token.AreRevised.token_eq (h : AreRevised names lines tokens others last) :
    (Cursor.place others last).token = (Cursor.place tokens last).token.revise names lines := by
  have hline := h.lastLine_eq
  rw [Cursor.token, Cursor.token, Cursor.place, Cursor.place, hline]
  simp only [h.tokens last (Nat.le_refl _)]
  cases tokens[last]? <;> rfl

/-- Whether a token is valid does not depend on names and lines. -/
theorem Token.AreRevised.readable_iff (h : AreRevised names lines tokens others last) :
    Readable others last ↔ Readable tokens last := by
  rw [Readable, Readable, h.tokens last (Nat.le_refl _), Option.map_map]
  have hkind : Token.kind ∘ Token.revise names lines = Token.kind :=
    funext fun token => Token.kind_revise names lines token
  rw [hkind]

theorem Traverses.refl (position : Nat) : Traverses tokens position position :=
  ⟨Nat.le_refl _, fun _ hle hlt => absurd hlt (Nat.not_lt.2 hle)⟩

theorem Traverses.trans (h : Traverses tokens first middle) (hrest : Traverses tokens middle last) :
    Traverses tokens first last := by
  refine ⟨Nat.le_trans h.1 hrest.1, fun position hle hlt => ?_⟩
  rcases Nat.lt_or_ge position middle with hmiddle | hmiddle
  · exact h.2 position hle hmiddle
  · exact hrest.2 position hmiddle hlt

/-- One token. -/
theorem Traverses.step {kind : TokenKind} (hkind : (Cursor.place tokens first).token.kind = kind)
    (hvalid : kind ≠ .invalid) (hend : kind ≠ .endOfFile) : Traverses tokens first (first + 1) := by
  refine ⟨Nat.le_succ _, fun position hle hlt => ?_⟩
  obtain rfl : position = first := Nat.le_antisymm (Nat.le_of_lt_succ hlt) hle
  obtain ⟨token, htoken, rfl⟩ := Option.map_eq_some_iff.1 (getElem?_of_kind_place hkind hvalid)
  exact ⟨token, htoken, hend⟩

end

namespace Reader.Echoes

variable {names : String → String} {lines : Line → Line} {tokens others : List Token}
  {position : Nat}
  {Value Other Next NextOther : Type} {image : Value → Other} {imageNext : Next → NextOther}
  {run : Reader Value} {other : Reader Other}

/-- A plain value. -/
theorem pure {value : Value} {value' : Other} (h : value' = image value) :
    Echoes names lines tokens others image (Pure.pure value) (Pure.pure value') position := by
  subst h
  exact ⟨position, rfl, .refl _, fun _ => rfl⟩

/-- What the second reader does elsewhere does not matter. -/
theorem congr {other' : Reader Other}
    (h : Echoes names lines tokens others image run other position)
    (heq : other' (.place others position) = other (.place others position)) :
    Echoes names lines tokens others image run other' position := by
  unfold Echoes at h ⊢
  rwa [heq]

/-- A reader and what follows it. -/
theorem bind {next : Value → Reader Next} {next' : Other → Reader NextOther}
    (h : Echoes names lines tokens others image run other position)
    (hnext : ∀ value middle, run (.place tokens position) = .ok value (.place tokens middle) →
      position ≤ middle →
      Echoes names lines tokens others imageNext (next value) (next' (image value)) middle) :
    Echoes names lines tokens others imageNext (run >>= next) (other >>= next') position := by
  unfold Echoes at h ⊢
  cases hrun : run (.place tokens position) with
  | error error after =>
    rw [hrun] at h
    rw [bind_error.2 (.inl hrun)]
    obtain ⟨last, hreads, htraverses, hother⟩ := h
    refine ⟨last, hreads, htraverses, fun hrevised => ?_⟩
    obtain ⟨error', after', hother, hreads', herror⟩ := hother hrevised
    exact ⟨error', after', bind_error.2 (.inl hother), hreads', herror⟩
  | ok value between =>
    rw [hrun] at h
    rw [bind_of_ok hrun]
    obtain ⟨middle, rfl, htraverses, hother⟩ := h
    have hrest := hnext value middle hrun htraverses.1
    unfold Echoes at hrest
    cases hnextRun : next value (.place tokens middle) with
    | ok result after =>
      rw [hnextRun] at hrest
      obtain ⟨last, hlast, hpassesRest, hotherRest⟩ := hrest
      refine ⟨last, hlast, htraverses.trans hpassesRest, fun hrevised => ?_⟩
      rw [bind_of_ok (hother (hrevised.mono hpassesRest.1))]
      exact hotherRest hrevised
    | error error after =>
      rw [hnextRun] at hrest
      obtain ⟨last, hreads, hpassesRest, hotherRest⟩ := hrest
      refine ⟨last, hreads, htraverses.trans hpassesRest, fun hrevised => ?_⟩
      rw [bind_of_ok (hother (hrevised.mono hpassesRest.1))]
      exact hotherRest hrevised

/-- A reader that fails at the token looked at, with an error about its text and its line. -/
theorem fail (error : Token → GrammarError)
    (hrun : run (.place tokens position) = .error (error (Cursor.place tokens position).token)
      (.place tokens position))
    (hother : other (.place others position) = .error (error (Cursor.place others position).token)
      (.place others position))
    (hline : ∀ token, error (token.reline lines) = (error token).reline lines)
    (hname : ∀ token, (error token).IsRenamed names (error (token.rename names))) :
    Echoes names lines tokens others image run other position := by
  unfold Echoes
  rw [hrun]
  refine ⟨position, rfl, .refl _, fun hrevised => ⟨_, .place others position, ?_, rfl, hname _⟩⟩
  rw [hother, hrevised.token_eq, Token.revise, hline]

/-- The budget is used up. -/
theorem failTooDeep :
    Echoes names lines tokens others image Reader.failTooDeep Reader.failTooDeep position := by
  refine fail (fun token => .tooDeep token.lexeme token.line) rfl rfl (fun _ => rfl)
    fun token => ?_
  rw [Token.line_rename]
  rcases Token.lexeme_rename_or names token with h | h <;> rw [h]
  · exact .inl rfl
  · exact .inr rfl

/-- The rule does not go on. -/
theorem failExpecting {what : Expectation} :
    Echoes names lines tokens others image (Reader.failExpecting what) (Reader.failExpecting what)
      position := by
  refine fail (fun token => if token.kind = .invalid then .inputEnded what token.line
    else .expected what token.lexeme token.line) (failExpecting_eq what _) (failExpecting_eq what _)
    (fun token => ?_) fun token => ?_
  · show (if token.kind = .invalid then _ else _) = _
    split <;> rfl
  rw [Token.line_rename, Token.kind_rename]
  split
  · exact .inl rfl
  rcases Token.lexeme_rename_or names token with h | h <;> rw [h]
  · exact .inl rfl
  · exact .inr rfl

/-- A closing brace closes nothing. -/
theorem unmatchedBrace {token token' : Token}
    (htoken : token = (Cursor.place tokens position).token)
    (htoken' : token' = token.revise names lines) :
    Echoes names lines tokens others image (throw (.unmatchedBrace token.lexeme token.line))
      (throw (.unmatchedBrace token'.lexeme token'.line)) position := by
  subst htoken htoken'
  refine ⟨position, rfl, .refl _, fun _ => ⟨.unmatchedBrace (Token.rename names _).lexeme
    (Token.rename names _).line, _, rfl, rfl, ?_⟩⟩
  rw [Token.line_rename]
  rcases Token.lexeme_rename_or names (Cursor.place tokens position).token with h | h <;> rw [h]
  · exact .inl rfl
  · exact .inr rfl

/-- Looking at the token. The other reader sees it with its other name and on its other line. -/
theorem current {next : Token → Reader Next} {next' : Token → Reader NextOther}
    (h : Echoes names lines tokens others imageNext (next (Cursor.place tokens position).token)
      (next' ((Cursor.place tokens position).token.revise names lines)) position) :
    Echoes names lines tokens others imageNext (Reader.current >>= next) (Reader.current >>= next')
      position := by
  have hother {last : Nat} (hrevised : Token.AreRevised names lines tokens others last)
      (hle : position ≤ last) : (Reader.current >>= next') (.place others position) =
        next' ((Cursor.place tokens position).token.revise names lines)
          (.place others position) := by
    rw [← (hrevised.mono hle).token_eq]
    rfl
  unfold Echoes at h ⊢
  show match next (Cursor.place tokens position).token (.place tokens position) with
    | .ok value after => _
    | .error error after => _
  cases hnext : next (Cursor.place tokens position).token (.place tokens position) with
  | ok value after =>
    rw [hnext] at h
    obtain ⟨last, hlast, htraverses, h⟩ := h
    exact ⟨last, hlast, htraverses, fun hrevised => hother hrevised htraverses.1 ▸ h hrevised⟩
  | error error after =>
    rw [hnext] at h
    obtain ⟨last, hlast, htraverses, h⟩ := h
    exact ⟨last, hlast, htraverses, fun hrevised => hother hrevised htraverses.1 ▸ h hrevised⟩

/-- Going over a valid token that does not end the file. -/
theorem advance {kind : TokenKind} (hkind : (Cursor.place tokens position).token.kind = kind)
    (hvalid : kind ≠ .invalid) (hend : kind ≠ .endOfFile) :
    Echoes names lines tokens others id Reader.advance Reader.advance position := by
  have htraverses := Traverses.step hkind hvalid hend
  unfold Echoes
  by_cases hreadable : Readable tokens (position + 1)
  · rw [advance_of_readable Cursor.before_place hreadable]
    exact ⟨position + 1, rfl, htraverses, fun hrevised =>
      advance_of_readable Cursor.before_place (hrevised.readable_iff.2 hreadable)⟩
  · obtain ⟨token, htoken, hinvalid⟩ := Option.map_eq_some_iff.1 (Decidable.not_not.1 hreadable)
    rw [advance_invalid Cursor.before_place htoken hinvalid]
    refine ⟨position + 1, rfl, htraverses, fun hrevised => ?_⟩
    have hother := hrevised.tokens (position + 1) (Nat.le_refl _)
    rw [htoken, Option.map_some, Token.revise, Token.rename_of_ne _ (hinvalid ▸ nofun)] at hother
    exact ⟨.invalidToken token.lexeme token.line, _,
      advance_invalid Cursor.before_place hother hinvalid, rfl, .inl rfl⟩

/-- Going over a valid token, and what follows. -/
theorem advance_bind {kind : TokenKind} {next : Unit → Reader Next}
    {next' : Unit → Reader NextOther} (hkind : (Cursor.place tokens position).token.kind = kind)
    (hvalid : kind ≠ .invalid) (hend : kind ≠ .endOfFile)
    (hnext : Echoes names lines tokens others imageNext (next ()) (next' ()) (position + 1)) :
    Echoes names lines tokens others imageNext (Reader.advance >>= next) (Reader.advance >>= next')
      position := by
  refine bind (advance hkind hvalid hend) fun _ middle hrun _ => ?_
  have hne : (Cursor.place tokens position).token.kind ≠ .invalid := hkind ▸ hvalid
  rw [Nat.succ.inj (Cursor.at_place.advance_ok hne hrun).reads]
  exact hnext

/-- Going over an expected token. -/
theorem expect {kind : TokenKind} {what : Expectation} (hvalid : kind ≠ .invalid)
    (hend : kind ≠ .endOfFile) :
    Echoes names lines tokens others (Token.revise names lines) (Reader.expect kind what)
      (Reader.expect kind what) position := by
  refine current ?_
  rw [Token.kind_revise]
  split
  · next hkind => exact advance_bind hkind hvalid hend (pure rfl)
  · exact failExpecting

/-- Going over an expected token, and what follows. -/
theorem expect_bind {kind : TokenKind} {what : Expectation} {next : Token → Reader Next}
    {next' : Token → Reader NextOther} (hvalid : kind ≠ .invalid) (hend : kind ≠ .endOfFile)
    (hnext : ∀ token, token.kind = kind → Echoes names lines tokens others imageNext (next token)
      (next' (token.revise names lines)) (position + 1)) :
    Echoes names lines tokens others imageNext (Reader.expect kind what >>= next)
      (Reader.expect kind what >>= next') position := by
  refine bind (expect hvalid hend) fun token middle hrun _ => ?_
  obtain ⟨hkind, -, hat⟩ := expect_ok Cursor.at_place hvalid hrun
  rw [Nat.succ.inj hat.reads]
  exact hnext token hkind

/-- Looking at the tokens left, of which there are as many as there are behind the position. -/
theorem remaining {next : List Token → Reader Next} {next' : List Token → Reader NextOther}
    (h : ∀ bound bound' : List Token, tokens.length ≤ position + bound.length →
      others.length ≤ position + bound'.length →
      Echoes names lines tokens others imageNext (next bound) (next' bound') position) :
    Echoes names lines tokens others imageNext (Reader.remaining >>= next)
      (Reader.remaining >>= next') position :=
  h _ _ (length_le_remaining tokens) (length_le_remaining others)

/-- A loop with a bound. The bound does not matter if it is as large as the number of tokens left,
because the loop goes over some token in every round and stops where there is none. -/
theorem loop {loop : List Token → Reader Value} {loop' : List Token → Reader Other}
    {none : Value} {none' : Other} (hnone : none' = image none)
    (hstop : ∀ bound cursor, cursor.token.kind = .invalid → loop bound cursor = .ok none cursor)
    (hstop' : ∀ bound cursor, cursor.token.kind = .invalid → loop' bound cursor = .ok none' cursor)
    (hround : ∀ {token token' : Token} {bound bound' : List Token} {position : Nat},
      (∀ middle, position < middle →
        Echoes names lines tokens others image (loop bound) (loop' bound') middle) →
      Echoes names lines tokens others image (loop (token :: bound)) (loop' (token' :: bound'))
        position) :
    ∀ (bound bound' : List Token) (position : Nat), tokens.length ≤ position + bound.length →
      others.length ≤ position + bound'.length →
      Echoes names lines tokens others image (loop bound) (loop' bound') position := by
  have hend {list : List Token} {position : Nat} (h : list.length ≤ position) :
      (Cursor.place list position).token.kind = .invalid := by
    rw [kind_place, List.getElem?_eq_none_iff.2 h]
    rfl
  intro bound
  induction bound with
  | nil =>
    intro bound' position hbound _
    have hkind : (Cursor.place tokens position).token.kind = .invalid := hend hbound
    unfold Echoes
    rw [hstop [] _ hkind]
    refine ⟨position, rfl, .refl _, fun hrevised => ?_⟩
    rw [← hnone]
    refine hstop' bound' _ ?_
    rw [hrevised.token_eq, Token.kind_revise, hkind]
  | cons token bound ih =>
    intro bound' position hbound hbound'
    have hrounds (token' : Token) (bound' : List Token)
        (hbound' : others.length ≤ position + (bound'.length + 1)) :
        Echoes names lines tokens others image (loop (token :: bound)) (loop' (token' :: bound'))
          position := by
      refine hround fun middle hlt => ?_
      rw [List.length_cons] at hbound
      exact ih bound' middle (by omega) (by omega)
    cases bound' with
    | cons token' bound' => exact hrounds token' bound' hbound'
    | nil =>
      -- There is no token left, so the second loop might as well have a larger bound.
      have hkind : (Cursor.place others position).token.kind = .invalid := hend hbound'
      refine (hrounds token others (by omega)).congr ?_
      rw [hstop' _ _ hkind, hstop' _ _ hkind]

end Reader.Echoes

end ThreeAddress
