import ThreeAddress.DataType

/-!
# C units

The part of C that code is emitted in: one function `main` that declares its variables, runs
labelled statements and returns zero.
-/

namespace ThreeAddress

/-- A statement of the unit. -/
inductive CStatement where
  /-- A label in front of an empty statement, so that it may stand at the end of a block. -/
  | label (name : String)
  /-- A jump. -/
  | goto (name : String)
  /-- A jump if the condition holds. -/
  | branch (condition name : String)
  /-- A formatted print; the format text comes first. -/
  | print (arguments : List String)
  /-- A formatted read into a variable. -/
  | scan (format target : String)
  /-- An assignment without an operator. -/
  | copy (target operand : String)
  /-- An assignment with an operator in front of its operand. -/
  | unary (target operator operand : String)
  /-- An assignment with an operator between its operands. -/
  | binary (target left operator right : String)
  /-- An assignment of the remainder of a division of floating-point numbers. -/
  | remainder (target left right : String)
  deriving DecidableEq, Repr

namespace CStatement

/-- A statement as text. -/
def text : CStatement → String
  | .label name => name ++ ": ;"
  | .goto name => "goto " ++ name ++ ";"
  | .branch condition name => "if (" ++ condition ++ ") goto " ++ name ++ ";"
  | .print arguments => "printf(" ++ ", ".intercalate arguments ++ ");"
  | .scan format target => "scanf(" ++ format ++ ", &" ++ target ++ ");"
  | .copy target operand => target ++ " = " ++ operand ++ ";"
  | .unary target operator operand => target ++ " = " ++ operator ++ operand ++ ";"
  | .binary target left operator right =>
    target ++ " = " ++ left ++ " " ++ operator ++ " " ++ right ++ ";"
  | .remainder target left right =>
    target ++ " = fmodf(" ++ left ++ ", " ++ right ++ ");"

/-- Whether it needs the library of mathematical functions. -/
def needsMath : CStatement → Bool
  | .remainder .. => true
  | _ => false

end CStatement

/-- A variable of the unit. -/
structure CVariable where
  type : DataType
  name : String
  deriving DecidableEq, Repr

/-- The declaration of a variable. -/
def CVariable.text (v : CVariable) : String :=
  v.type.name ++ " " ++ v.name ++ ";"

/-- A unit: its variables and what it does. -/
structure CUnit where
  declared : List CVariable
  statements : List CStatement
  deriving DecidableEq, Repr

namespace CUnit

/-- The headers of a unit, with the library of mathematical functions or without. -/
def headersWith (math : Bool) : List String :=
  ["#include <stdio.h>", "#include <stdbool.h>"] ++ if math then ["#include <math.h>"] else []

/-- Whether a statement of the unit needs the library of mathematical functions. -/
def needsMath (unit : CUnit) : Bool := unit.statements.any (·.needsMath)

/-- The headers of the unit. -/
def headers (unit : CUnit) : List String := headersWith unit.needsMath

/-- The lines inside `main`. -/
def body (unit : CUnit) : List String :=
  unit.declared.map (·.text) ++ unit.statements.map (·.text) ++ ["return 0;"]

/-- The lines of the unit under the given headers, those inside `main` indented. -/
def linesUnder (headers : List String) (indent : String) (unit : CUnit) : List String :=
  headers ++ ["int main()\x7b"] ++ unit.body.map (indent ++ ·) ++ ["\x7d"]

/-- The unit under the given headers as text, every line closed by a line feed. -/
def textUnder (headers : List String) (indent : String) (unit : CUnit) : String :=
  String.join ((unit.linesUnder headers indent).map (· ++ "\n"))

/-- The unit as text. -/
def text (indent : String) (unit : CUnit) : String := unit.textUnder unit.headers indent

end CUnit

end ThreeAddress
