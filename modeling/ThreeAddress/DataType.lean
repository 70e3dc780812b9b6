/-!
# Data types

The types a name or a node of the checked tree can have. Four of them have values that can be
stored; `unknown` is the type of a name that was declared without a value and not yet assigned,
`string` that of a format text, and `void` that of statements.
-/

namespace ThreeAddress

/-- The types of names and nodes. -/
inductive DataType where
  | unknown | int | bool | char | float | string | void
  deriving DecidableEq, Repr, Inhabited

namespace DataType

/-- All types, in the order of their declaration. -/
def all : List DataType := [unknown, int, bool, char, float, string, void]

/-- The name a type is printed with. -/
def name : DataType → String
  | unknown => "unknown"
  | int => "int"
  | bool => "bool"
  | char => "char"
  | float => "float"
  | string => "string"
  | void => "void"

/-- The type of a printed name. -/
def ofName? (name : String) : Option DataType := all.find? fun type => type.name == name

/-- Whether arithmetic and comparisons accept a value of this type. -/
def isArithmetic : DataType → Bool
  | int | char | float => true
  | _ => false

/-- Whether a value of this type can be stored in a variable. -/
def isStorable : DataType → Bool
  | int | bool | char | float => true
  | _ => false

/-- The type of arithmetic on operands of these types: `float` as soon as one of them is, else
`int`. A `char` does not survive arithmetic. -/
def arithmeticResult (operands : List DataType) : DataType :=
  if operands.contains .float then .float else .int

end DataType

end ThreeAddress
