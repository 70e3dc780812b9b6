import ThreeAddress.Grammar.Tree

/-!
# What a program means

The meaning of grammar trees, over any domain of values: literals, operators and the truth of
conditions are as an interpretation has them, and the inputs are any sequence. Expressions are
evaluated from left to right, both operands of every operator always. Statements are run to their
end; a run that does not end, or meets an operation that has no value, has no result.
-/

namespace ThreeAddress

/-- What literals, operators and conditions mean. An operation may have no value. -/
structure Interpretation (Value : Type) where
  literal : String → Value
  unary : String → Value → Option Value
  binary : String → Value → Value → Option Value
  truth : Value → Option Bool

/-- A print: the format text and the values of the arguments. -/
structure Event (Value : Type) where
  format : String
  arguments : List Value

/-- What a run has come to: the values of the variables, how many inputs it has taken, and what
it has printed. -/
structure World (Value : Type) where
  memory : String → Value
  reads : Nat
  events : List (Event Value)

namespace World

variable {Value : Type}

/-- Gives a variable a value. -/
def store (world : World Value) (name : String) (value : Value) : World Value :=
  { world with memory := fun other => if other = name then value else world.memory other }

/-- Prints. -/
def print (world : World Value) (event : Event Value) : World Value :=
  { world with events := world.events ++ [event] }

/-- Takes the next input, if there is one. -/
def read (inputs : Nat → Option Value) (world : World Value) : Option (Value × World Value) :=
  (inputs world.reads).map fun value => (value, { world with reads := world.reads + 1 })

end World

namespace Tree

variable {Value : Type} (meaning : Interpretation Value) (inputs : Nat → Option Value)

mutual
/-- The value of an expression, and the world after it. -/
def evaluate : Tree → World Value → Option (Value × World Value)
  | literal _ lexeme _, world => some (meaning.literal lexeme, world)
  | var name _, world => some (world.memory name, world)
  | input _, world => world.read inputs
  | group inner _, world => evaluate inner world
  | minus operand _, world => do
    let (value, world) ← evaluate operand world
    let result ← meaning.unary "-" value
    some (result, world)
  | negation operand _, world => do
    let (value, world) ← evaluate operand world
    let result ← meaning.unary "!" value
    some (result, world)
  | comparison left (operation operator right _) _, world => do
    let (first, world) ← evaluate left world
    let (second, world) ← evaluate right world
    let result ← meaning.binary operator first second
    some (result, world)
  | chain _ first operations _, world => do
    let (value, world) ← evaluate first world
    evaluateOperations value operations world
  | _, _ => none

/-- The value of operations on what stands left of them. -/
def evaluateOperations : Value → List Tree → World Value → Option (Value × World Value)
  | left, [], world => some (left, world)
  | left, operation operator operand _ :: operations, world => do
    let (right, world) ← evaluate operand world
    let result ← meaning.binary operator left right
    evaluateOperations result operations world
  | _, _ :: _, _ => none
end

/-- The values of arguments, from left to right. -/
def evaluateAll : List Tree → World Value → Option (List Value × World Value)
  | [], world => some ([], world)
  | tree :: trees, world => do
    let (value, world) ← evaluate meaning inputs tree world
    let (values, world) ← evaluateAll trees world
    some (value :: values, world)

/-- Whether a condition holds, and the world after it. -/
def test (condition : Tree) (world : World Value) : Option (Bool × World Value) := do
  let (value, world) ← evaluate meaning inputs condition world
  let holds ← meaning.truth value
  some (holds, world)

/-- A run of a statement, of the statements of a block or of the tail of a conditional, from one
world to another. -/
inductive Runs : Tree → World Value → World Value → Prop where
  | assignment {name : String} {tree : Tree} {line : Line} {world between : World Value}
      {value : Value} : evaluate meaning inputs tree world = some (value, between) →
      Runs (.assignment name tree line) world (between.store name value)
  | letFixed {name : String} {tree : Tree} {line : Line} {world between : World Value}
      {value : Value} : evaluate meaning inputs tree world = some (value, between) →
      Runs (.letFixed name tree line) world (between.store name value)
  | letMutable {name : String} {tree : Tree} {line : Line} {world between : World Value}
      {value : Value} : evaluate meaning inputs tree world = some (value, between) →
      Runs (.letMutable name tree line) world (between.store name value)
  | letUnset {name : String} {line : Line} {world : World Value} :
      Runs (.letMutable name .absent line) world world
  | output {format : String} {arguments : List Tree} {line : Line} {world between : World Value}
      {values : List Value} :
      evaluateAll meaning inputs arguments world = some (values, between) →
      Runs (.output format arguments line) world (between.print ⟨format, values⟩)
  | ifTrue {condition body tail : Tree} {line : Line} {world between after : World Value} :
      test meaning inputs condition world = some (true, between) → Runs body between after →
      Runs (.ifElse condition body tail line) world after
  | ifFalse {condition body tail : Tree} {line : Line} {world between after : World Value} :
      test meaning inputs condition world = some (false, between) → Runs tail between after →
      Runs (.ifElse condition body tail line) world after
  | elseIfTrue {condition body tail : Tree} {line : Line} {world between after : World Value} :
      test meaning inputs condition world = some (true, between) → Runs body between after →
      Runs (.elseIf condition body tail line) world after
  | elseIfFalse {condition body tail : Tree} {line : Line} {world between after : World Value} :
      test meaning inputs condition world = some (false, between) → Runs tail between after →
      Runs (.elseIf condition body tail line) world after
  | otherwise {body : Tree} {line : Line} {world after : World Value} : Runs body world after →
      Runs (.otherwise body line) world after
  | noElse {world : World Value} : Runs .absent world world
  | loopTrue {condition body : Tree} {line : Line} {world between again after : World Value} :
      test meaning inputs condition world = some (true, between) → Runs body between again →
      Runs (.loop condition body line) again after → Runs (.loop condition body line) world after
  | loopFalse {condition body : Tree} {line : Line} {world between : World Value} :
      test meaning inputs condition world = some (false, between) →
      Runs (.loop condition body line) world between
  | nil {line : Line} {world : World Value} : Runs (.block [] line) world world
  | cons {statement : Tree} {statements : List Tree} {line : Line}
      {world between after : World Value} : Runs statement world between →
      Runs (.block statements line) between after →
      Runs (.block (statement :: statements) line) world after

variable {meaning inputs}

/-- The value of operations and one more. -/
theorem evaluateOperations_append (operations others : List Tree) (left : Value)
    (world : World Value) :
    evaluateOperations meaning inputs left (operations ++ others) world =
      (evaluateOperations meaning inputs left operations world).bind fun result =>
        evaluateOperations meaning inputs result.1 others result.2 := by
  induction operations generalizing left world with
  | nil => rfl
  | cons tree operations ih =>
    cases tree with
    | operation operator operand line =>
      simp only [List.cons_append, evaluateOperations]
      cases evaluate meaning inputs operand world with
      | none => rfl
      | some result =>
        obtain ⟨right, world⟩ := result
        show (meaning.binary operator left right).bind _ =
          ((meaning.binary operator left right).bind _).bind _
        cases meaning.binary operator left right with
        | none => rfl
        | some value => exact ih value world
    | _ => rfl

end Tree

end ThreeAddress
