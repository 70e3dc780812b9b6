import ThreeAddress.Report

/-!
# A place in a list of tokens

A reader works on a cursor: the token it looks at, the tokens it has not asked for, and how
often it has asked. It never looks further than the current token. When no token is left, the
current one is a stand-in without text on the last line read, which no rule accepts.

A reader that fails leaves the cursor where it was, so what it had asked for by then is known
after a failure as well.
-/

namespace ThreeAddress

/-- What a rule of the grammar waits for. -/
inductive Expectation where
  | endOfFile | semicolon | statement | openBrace | closeBrace | equals | variableName
  | equalsOrSemicolon | variableOrMut | ifOrBrace | stringLiteral | openParen | closeParen
  | expression
  deriving DecidableEq, Repr

/-- The words for it. -/
def Expectation.phrase : Expectation → String
  | endOfFile => "end of file"
  | semicolon => "';'"
  | statement => "statement"
  | openBrace => "'\x7b'"
  | closeBrace => "'\x7d'"
  | equals => "'='"
  | variableName => "variable"
  | equalsOrSemicolon => "'=' or ';'"
  | variableOrMut => "variable or 'mut'"
  | ifOrBrace => "'if' or '\x7b'"
  | stringLiteral => "string literal"
  | openParen => "'('"
  | closeParen => "')'"
  | expression => "expression"

/-- Why tokens are not a program. -/
inductive GrammarError where
  /-- A text that is no token. -/
  | invalidToken (lexeme : String) (line : Line)
  /-- A token that the rule in force does not allow. -/
  | expected (what : Expectation) (lexeme : String) (line : Line)
  /-- No token where a rule waits for one. -/
  | inputEnded (what : Expectation) (line : Line)
  /-- A closing brace that closes nothing. -/
  | unmatchedBrace (lexeme : String) (line : Line)
  /-- The nesting uses up the budget at this token. -/
  | tooDeep (lexeme : String) (line : Line)
  deriving DecidableEq, Repr

/-- The error in words. -/
def GrammarError.report : GrammarError → Report
  | invalidToken lexeme line => .lexical "invalid token" lexeme line
  | expected what lexeme line => .grammar (what.phrase ++ " expected") lexeme line
  | inputEnded what line =>
    .grammar ("unexpected end of input, " ++ what.phrase ++ " expected") "" line
  | unmatchedBrace lexeme line => .grammar "unmatched '\x7d'" lexeme line
  | tooDeep lexeme line => .grammar "expression nested too deeply" lexeme line

/-- A place in a list of tokens. -/
structure Cursor where
  /-- The token looked at; none before the first and after the last. -/
  current : Option Token
  /-- The tokens not asked for yet. -/
  unread : List Token
  /-- The line of the last token, one before the first. -/
  line : Line
  /-- How often a token has been asked for. -/
  reads : Nat
  deriving Repr

/-- The place before the first token. -/
def Cursor.start (tokens : List Token) : Cursor := ⟨none, tokens, 1, 0⟩

/-- The token looked at, or the stand-in for it. -/
def Cursor.token (cursor : Cursor) : Token :=
  cursor.current.getD ⟨.invalid, "", cursor.line⟩

/-- A reader takes tokens off the front of the cursor and makes a value of them. -/
abbrev Reader := EStateM GrammarError Cursor

namespace Reader

/-- The token looked at. -/
def current : Reader Token := return (← get).token

/-- Asks for the next token. An invalid one is an error at once. -/
def advance : Reader Unit := fun cursor =>
  match cursor.unread with
  | [] => .ok () { cursor with current := none, reads := cursor.reads + 1 }
  | token :: unread =>
    if token.kind = .invalid then
      .error (.invalidToken token.lexeme token.line)
        { cursor with unread, reads := cursor.reads + 1 }
    else .ok () ⟨some token, unread, token.line, cursor.reads + 1⟩

/-- Fails at the token looked at, which is not what the rule in force waits for. -/
def failExpecting {Value : Type} (what : Expectation) : Reader Value := do
  let token ← current
  if token.kind = .invalid then throw (.inputEnded what token.line)
  else throw (.expected what token.lexeme token.line)

/-- Fails at the token looked at, where the nesting budget is used up. -/
def failTooDeep {Value : Type} : Reader Value := do
  let token ← current
  throw (.tooDeep token.lexeme token.line)

/-- Takes a token of the given kind. -/
def expect (kind : TokenKind) (what : Expectation) : Reader Token := do
  let token ← current
  if token.kind = kind then
    advance
    return token
  else failExpecting what

/-- The tokens left: the current one and those not asked for. A loop that takes a token in every
round makes no more rounds than there are. -/
def remaining : Reader (List Token) := do
  let cursor ← get
  return cursor.current.toList ++ cursor.unread

end Reader

end ThreeAddress
