import ThreeAddress.Token

/-!
# Reports

How an error is told to the user. Each stage has its own type of errors, which says what went
wrong; a report is what all of them have in common once they are worded: the stage that failed,
the reason, and where in the source if a place is known.

A fault of the program being compiled is worded with its line in front. A fault of the compiler
itself is framed, so that it cannot be taken for the other kind. What no stage foresees has no
words at all: it can only come from a tree or a text made by hand.
-/

namespace ThreeAddress

/-- What no stage foresees. -/
inductive Breakdown where
  /-- A part is asked of a node that has none. -/
  | noPart
  /-- A number has more digits than can be read. -/
  | longNumber
  deriving DecidableEq, Repr

/-- An error in words. -/
inductive Report where
  /-- A text that is no token. -/
  | lexical (reason lexeme : String) (line : Option Line)
  /-- A token that the grammar does not allow where it stands. -/
  | grammar (reason lexeme : String) (line : Option Line)
  /-- A program that breaks a rule on types or names. -/
  | semantic (reason : String) (line : Option Line)
  /-- A stage met a shape that an earlier stage rules out. -/
  | internal (stage reason : String)
  /-- A checked tree that cannot be lowered. -/
  | lowering (reason : String)
  /-- Three-address code that cannot be emitted. -/
  | emission (reason : String)
  /-- Any other reason to stop. -/
  | other (message : String)
  /-- An error without words. -/
  | breakdown (cause : Breakdown)
  deriving DecidableEq, Repr

namespace Report

/-- A message with its line in front, if the line is known. -/
def atLine (line : Option Line) (message : String) : String :=
  match line with
  | some line => "line " ++ toString line ++ ": " ++ message
  | none => message

/-- A message with the text that caused it, if there is one. -/
def atLexeme (lexeme message : String) : String :=
  if lexeme = "" then message else message ++ " at '" ++ lexeme ++ "'"

/-- The frame around a fault of the compiler itself. -/
def framed (stage reason : String) : String :=
  "There is something wrong with the compiler.\n\t" ++ reason ++ "\nin " ++ stage

/-- The stage that failed. -/
def stage : Report → String
  | lexical .. => "Lexer"
  | grammar .. => "Parser"
  | semantic .. => "Type Checker"
  | internal stage _ => stage
  | lowering _ => "TAC Generator"
  | emission _ => "Code Generator"
  | other _ | breakdown _ => "Compiler"

/-- The whole message. -/
def message : Report → String
  | lexical reason lexeme line | grammar reason lexeme line => atLine line (atLexeme lexeme reason)
  | semantic reason line => atLine line reason
  | internal stage reason => framed stage reason
  | lowering reason => framed "TAC Generator" reason
  | emission reason => framed "Code Generator" reason
  | other message => message
  | breakdown _ => ""

/-- The reason without place and frame. -/
def reason? : Report → Option String
  | lexical reason _ _ | grammar reason _ _ | semantic reason _ | internal _ reason
  | lowering reason | emission reason => some reason
  | other _ | breakdown _ => none

/-- The text that caused the error, for errors that have one. -/
def lexeme? : Report → Option String
  | lexical _ lexeme _ | grammar _ lexeme _ => some lexeme
  | _ => none

/-- The place of the error: `none` for errors without a place, `some none` where the place of
an error that could have one is not known. -/
def line? : Report → Option (Option Line)
  | lexical _ _ line | grammar _ _ line | semantic _ line => some line
  | _ => none

end Report

end ThreeAddress
