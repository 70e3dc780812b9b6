import ThreeAddress.Grammar.Cursor
import ThreeAddress.Grammar.Tree

/-!
# The grammar

The rules of the source language, one token ahead:

    program     = { statement ";" }
    statement   = name "=" relation
                | "let" name "=" relation
                | "let" "mut" name [ "=" relation ]
                | "if" relation block else
                | "while" relation block
                | "output" string { "," relation }
    else        = [ "else" ( "if" relation block else | block ) ]
    block       = "{" program "}"
    relation    = conjunction { "||" conjunction }
    conjunction = negatable { "&&" negatable }
    negatable   = "!" "(" relation ")" | sum [ relational sum ]
    sum         = product { ( "+" | "-" ) product }
    product     = factor { ( "*" | "/" | "%" ) factor }
    factor      = name | literal | "input" | "(" relation ")" | "-" factor

Each rule is a reader that is given the readers of its parts. `Phrase.read` ties them together:
it reads one phrase under a budget, and the parts of the phrase under a budget one smaller. A
phrase that is nested too deeply for the budget fails at the token where the budget ends; how
many phrases stand side by side does not matter.
-/

namespace ThreeAddress

namespace Reader

/-- Reads operations while the current token is an operator of the level. The list bounds how
many; the tokens left are always enough. -/
def operations (level : Level) (operand : Reader Tree) : List Token → Reader (List Tree)
  | [] => return []
  | _ :: bound => do
    let token ← current
    if level.holds token.kind then
      advance
      let right ← operand
      let others ← operations level operand bound
      return .operation token.lexeme right token.line :: others
    else return []

/-- A row of operands: the operand itself if it stands alone, else a chain. -/
def row (level : Level) (operand : Reader Tree) : Reader Tree := do
  let token ← current
  let first ← operand
  match ← operations level operand (← remaining) with
  | [] => return first
  | operations => return .chain level first operations token.line

/-- Statements, each closed by a semicolon, up to a token that begins none. -/
def statements (statement : Reader Tree) : List Token → Reader (List Tree)
  | [] => return []
  | _ :: bound => do
    match (← current).kind with
    | .ident | .kwLet | .kwIf | .kwWhile | .kwOutput =>
      let first ← statement
      let _ ← expect .semicolon .semicolon
      let others ← statements statement bound
      return first :: others
    | _ => return []

/-- A program or the inside of a block: statements, then the end of the file or a brace. -/
def program (statement : Reader Tree) : Reader Tree := do
  let token ← current
  let items ← statements statement (← remaining)
  match (← current).kind with
  | .endOfFile | .rbrace => return .block items token.line
  | _ => failExpecting .statement

/-- A program between braces. -/
def block (program : Reader Tree) : Reader Tree := do
  let _ ← expect .lbrace .openBrace
  let body ← program
  let _ ← expect .rbrace .closeBrace
  return body

/-- An assignment, from its name on. -/
def assignment (relation : Reader Tree) : Reader Tree := do
  let name ← current
  advance
  let _ ← expect .assign .equals
  let value ← relation
  return .assignment name.lexeme value name.line

/-- What follows `mut`: a name, and its first value or none. -/
def mutableRest (relation : Reader Tree) (line : Line) : Reader Tree := do
  let name ← expect .ident .variableName
  match (← current).kind with
  | .assign =>
    advance
    let value ← relation
    return .letMutable name.lexeme value line
  | .semicolon => return .letMutable name.lexeme .absent line
  | _ => failExpecting .equalsOrSemicolon

/-- A declaration, from `let` on. -/
def declaration (relation : Reader Tree) : Reader Tree := do
  let opening ← current
  advance
  let token ← current
  match token.kind with
  | .ident =>
    advance
    let _ ← expect .assign .equals
    let value ← relation
    return .letFixed token.lexeme value opening.line
  | .kwMut =>
    advance
    mutableRest relation opening.line
  | _ => failExpecting .variableOrMut

/-- A conditional, from `if` on. -/
def conditional (relation block tail : Reader Tree) : Reader Tree := do
  let opening ← current
  advance
  let condition ← relation
  let body ← block
  let rest ← tail
  return .ifElse condition body rest opening.line

/-- What may follow the body of a conditional. -/
def elsePart (relation block tail : Reader Tree) : Reader Tree := do
  let opening ← current
  if opening.kind = .kwElse then
    advance
    match (← current).kind with
    | .kwIf =>
      advance
      let condition ← relation
      let body ← block
      let rest ← tail
      return .elseIf condition body rest opening.line
    | .lbrace =>
      let body ← block
      return .otherwise body opening.line
    | _ => failExpecting .ifOrBrace
  else return .absent

/-- A loop, from `while` on. -/
def loop (relation block : Reader Tree) : Reader Tree := do
  let opening ← current
  advance
  let condition ← relation
  let body ← block
  return .loop condition body opening.line

/-- The arguments of a print: relations, each after a comma. -/
def arguments (relation : Reader Tree) : List Token → Reader (List Tree)
  | [] => return []
  | _ :: bound => do
    if (← current).kind = .comma then
      advance
      let first ← relation
      let others ← arguments relation bound
      return first :: others
    else return []

/-- A print, from `output` on. -/
def output (relation : Reader Tree) : Reader Tree := do
  let opening ← current
  advance
  let format ← expect .stringLit .stringLiteral
  let items ← arguments relation (← remaining)
  return .output format.lexeme items opening.line

/-- A statement of any form. -/
def statement (relation block tail : Reader Tree) : Reader Tree := do
  match (← current).kind with
  | .ident => assignment relation
  | .kwLet => declaration relation
  | .kwIf => conditional relation block tail
  | .kwWhile => loop relation block
  | .kwOutput => output relation
  | _ => failExpecting .statement

/-- A negation, or a sum that is or is not compared with another. -/
def negatable (relation sum : Reader Tree) : Reader Tree := do
  let opening ← current
  if opening.kind = .not then
    advance
    let _ ← expect .lparen .openParen
    let inner ← relation
    let _ ← expect .rparen .closeParen
    return .negation inner opening.line
  else
    let left ← sum
    let operator ← current
    if operator.kind.isRelational then
      advance
      let right ← sum
      return .comparison left (.operation operator.lexeme right operator.line) opening.line
    else return left

/-- A name, a literal, an input, a group or the negative of a factor. -/
def factor (relation factor : Reader Tree) : Reader Tree := do
  let token ← current
  match token.kind with
  | .ident =>
    advance
    return .var token.lexeme token.line
  | .intLit | .floatLit | .boolLit | .charLit | .stringLit =>
    advance
    return .literal token.kind token.lexeme token.line
  | .kwInput =>
    advance
    return .input token.line
  | .lparen =>
    advance
    let inner ← relation
    let _ ← expect .rparen .closeParen
    return .group inner token.line
  | .minus =>
    advance
    let operand ← factor
    return .minus operand token.line
  | _ => failExpecting .expression

end Reader

/-- The phrases of the grammar. -/
inductive Phrase where
  | program | statement | elsePart | block
  | relation | conjunction | negatable | sum | product | factor
  deriving DecidableEq, Repr

open Reader in
/-- Reads a phrase under a budget for nesting. -/
def Phrase.read : Nat → Phrase → Reader Tree
  | 0, _ => failTooDeep
  | budget + 1, program => Reader.program (read budget statement)
  | budget + 1, statement =>
    Reader.statement (read budget relation) (read budget block) (read budget elsePart)
  | budget + 1, elsePart =>
    Reader.elsePart (read budget relation) (read budget block) (read budget elsePart)
  | budget + 1, block => Reader.block (read budget program)
  | budget + 1, relation => row .or (read budget conjunction)
  | budget + 1, conjunction => row .and (read budget negatable)
  | budget + 1, negatable => Reader.negatable (read budget relation) (read budget sum)
  | budget + 1, sum => row .sum (read budget product)
  | budget + 1, product => row .product (read budget factor)
  | budget + 1, factor => Reader.factor (read budget relation) (read budget factor)

/-- Reads a whole program: tokens up to the first end token. -/
def Reader.whole (budget : Nat) : Reader Tree := do
  advance
  let tree ← Phrase.program.read budget
  let token ← current
  match token.kind with
  | .rbrace => throw (.unmatchedBrace token.lexeme token.line)
  | .endOfFile => return tree
  | _ => failExpecting .endOfFile

/-- How deep phrases may be nested in a program. -/
def Phrase.standardBudget : Nat := 1000

/-- Reads tokens from a fresh cursor; the cursor after it tells what was asked for. -/
def Tree.readFrom (budget : Nat) (tokens : List Token) :
    EStateM.Result GrammarError Cursor Tree :=
  Reader.whole budget (Cursor.start tokens)

/-- The tree of a list of tokens. -/
def Tree.ofTokens (budget : Nat) (tokens : List Token) : Except GrammarError Tree :=
  match Tree.readFrom budget tokens with
  | .ok tree _ => .ok tree
  | .error error _ => .error error

end ThreeAddress
