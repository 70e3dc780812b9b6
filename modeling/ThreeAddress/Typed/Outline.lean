import ThreeAddress.Typed.Node

/-!
# Outlines

A checked tree seen without its forms: each node with the outlines of its children in order.
What only depends on who is below whom is defined on the outline.
-/

namespace ThreeAddress

/-- A node and the outlines of its children. -/
inductive Outline where
  | mk (node : Node) (parts : List Outline)
  deriving Repr, Inhabited

namespace Outline

mutual
/-- The nodes of an outline, every node before those below it. -/
def preorder : Outline → List Node
  | .mk node parts => node :: preorderAll parts

/-- The nodes of several outlines, one after the other. -/
def preorderAll : List Outline → List Node
  | [] => []
  | outline :: outlines => preorder outline ++ preorderAll outlines
end

/-- The node at the top. -/
def root : Outline → Node
  | .mk node _ => node

/-- The outlines below the top. -/
def parts : Outline → List Outline
  | .mk _ parts => parts

end Outline

namespace Node

mutual
/-- The outline of a tree. -/
def outline : Node → Outline
  | .absent => .mk .absent []
  | .bare mark => .mk (.bare mark) []
  | .program statements mark => .mk (.program statements mark) (outlines statements)
  | .block statements mark => .mk (.block statements mark) (outlines statements)
  | .assignment target value declares mark =>
    .mk (.assignment target value declares mark) [outline value]
  | .output text arguments mark =>
    .mk (.output text arguments mark) (outline text :: outlines arguments)
  | .conditional parts mark => .mk (.conditional parts mark) (outlines parts)
  | .loop condition body mark => .mk (.loop condition body mark) [outline condition, outline body]
  | .binary operator left right mark =>
    .mk (.binary operator left right mark) [outline left, outline right]
  | .unary operator operand mark => .mk (.unary operator operand mark) [outline operand]
  | .literal lexeme mark => .mk (.literal lexeme mark) []
  | .format lexeme mark => .mk (.format lexeme mark) []
  | .var name mark => .mk (.var name mark) []
  | .input mark => .mk (.input mark) []

/-- The outlines of several trees. -/
def outlines : List Node → List Outline
  | [] => []
  | node :: nodes => outline node :: outlines nodes
end

/-- The nodes of a tree, every node before those below it. -/
def preorder (node : Node) : List Node := node.outline.preorder

/-- Whether no part of a tree is missing. -/
def isWhole (node : Node) : Bool := node.preorder.all (!·.isAbsent)

/-- The form and the type of a node. -/
def caption (node : Node) : String := node.form ++ ":" ++ node.type.name

/-- The captions of all nodes of a tree that is whole. -/
def captions? (node : Node) : Option (List String) :=
  if node.isWhole then some (node.preorder.map caption) else none

end Node

end ThreeAddress
