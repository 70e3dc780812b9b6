import ThreeAddress.Text.Quoted

/-!
# Tokens

The units of the source language. A token is its kind, the text it was written with and the
line it stands on. Kinds with one spelling know it (`TokenKind.spelling?`); the other kinds are
classes of texts: names, literals, the end of the file, and what no class accepts.
-/

namespace ThreeAddress

/-- A line number. Lines read from a text count from one; a tree or a table made by hand may
carry any integer. -/
abbrev Line := Int

/-- The kinds of tokens. -/
inductive TokenKind where
  | ident
  | intLit | stringLit | boolLit | charLit | floatLit
  | assign
  | or | and | not
  | eq | ne | gt | ge | lt | le
  | plus | minus | star | slash | percent
  | lparen | rparen | lbrace | rbrace | lbracket | rbracket
  | kwIf | kwElse | kwWhile | kwLet | kwMut | kwInput | kwOutput
  | comma | semicolon
  | endOfFile
  | invalid
  deriving DecidableEq, Repr, Inhabited

namespace TokenKind

/-- All kinds, in the order of their declaration. -/
def all : List TokenKind :=
  [ident, intLit, stringLit, boolLit, charLit, floatLit, assign, or, and, not, eq, ne, gt, ge,
   lt, le, plus, minus, star, slash, percent, lparen, rparen, lbrace, rbrace, lbracket, rbracket,
   kwIf, kwElse, kwWhile, kwLet, kwMut, kwInput, kwOutput, comma, semicolon, endOfFile, invalid]

/-- The name a kind is printed with. -/
def name : TokenKind → String
  | ident => "IDENT"
  | intLit => "INT_LITERAL"
  | stringLit => "STRING_LITERAL"
  | boolLit => "BOOL_LITERAL"
  | charLit => "CHAR_LITERAL"
  | floatLit => "FLOAT_LITERAL"
  | assign => "ASSIGN"
  | or => "OR"
  | and => "AND"
  | not => "NOT"
  | eq => "EQ"
  | ne => "NE"
  | gt => "GT"
  | ge => "GE"
  | lt => "LT"
  | le => "LE"
  | plus => "PLUS"
  | minus => "MINUS"
  | star => "STAR"
  | slash => "SLASH"
  | percent => "PERCENT"
  | lparen => "LPAREN"
  | rparen => "RPAREN"
  | lbrace => "LBRACE"
  | rbrace => "RBRACE"
  | lbracket => "LBRACKET"
  | rbracket => "RBRACKET"
  | kwIf => "IF"
  | kwElse => "ELSE"
  | kwWhile => "WHILE"
  | kwLet => "LET"
  | kwMut => "MUT"
  | kwInput => "INPUT"
  | kwOutput => "OUTPUT"
  | comma => "COMMA"
  | semicolon => "SEMICOLON"
  | endOfFile => "EOF"
  | invalid => "ERROR"

/-- The kind of a printed name. -/
def ofName? (name : String) : Option TokenKind := all.find? fun kind => kind.name == name

/-- The one spelling of an operator, a bracket, a separator or a keyword. -/
def spelling? : TokenKind → Option (List Char)
  | assign => some ['=']
  | or => some ['|', '|']
  | and => some ['&', '&']
  | not => some ['!']
  | eq => some ['=', '=']
  | ne => some ['!', '=']
  | gt => some ['>']
  | ge => some ['>', '=']
  | lt => some ['<']
  | le => some ['<', '=']
  | plus => some ['+']
  | minus => some ['-']
  | star => some ['*']
  | slash => some ['/']
  | percent => some ['%']
  | lparen => some ['(']
  | rparen => some [')']
  | lbrace => some ['\x7b']
  | rbrace => some ['\x7d']
  | lbracket => some ['[']
  | rbracket => some [']']
  | kwIf => some ['i', 'f']
  | kwElse => some ['e', 'l', 's', 'e']
  | kwWhile => some ['w', 'h', 'i', 'l', 'e']
  | kwLet => some ['l', 'e', 't']
  | kwMut => some ['m', 'u', 't']
  | kwInput => some ['i', 'n', 'p', 'u', 't']
  | kwOutput => some ['o', 'u', 't', 'p', 'u', 't']
  | comma => some [',']
  | semicolon => some [';']
  | ident | intLit | stringLit | boolLit | charLit | floatLit | endOfFile | invalid => none

/-- The keywords. -/
def keywords : List TokenKind := [kwLet, kwMut, kwIf, kwElse, kwWhile, kwInput, kwOutput]

/-- Operators, brackets and separators. The long spellings stand first, so the first that fits
is the longest. -/
def operators : List TokenKind :=
  [eq, ne, le, ge, and, or, assign, lt, gt, not, plus, minus, star, slash, percent, lparen,
   rparen, lbrace, rbrace, lbracket, rbracket, comma, semicolon]

/-- Whether a token of this kind is a literal. -/
def isLiteral : TokenKind → Bool
  | intLit | floatLit | boolLit | charLit | stringLit => true
  | _ => false

/-- Whether a token of this kind compares two numbers. -/
def isRelational : TokenKind → Bool
  | eq | ne | lt | le | gt | ge => true
  | _ => false

end TokenKind

/-- A token of the source. -/
structure Token where
  /-- What sort of token it is. -/
  kind : TokenKind
  /-- The text it was written with. -/
  lexeme : String
  /-- The line it stands on. -/
  line : Line
  deriving DecidableEq, Repr, Inhabited

/-- A token on one line, its text quoted. -/
def Token.describe (token : Token) : String :=
  token.kind.name ++ "(" ++ Text.quote token.lexeme ++ ") at line " ++ toString token.line

end ThreeAddress
