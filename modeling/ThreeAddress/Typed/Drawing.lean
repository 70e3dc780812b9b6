import ThreeAddress.Typed.Outline

/-!
# Drawings

A checked tree as a directed graph in the DOT language. The nodes are numbered in preorder. Each
node is drawn before what is below it, and the edge to a child after everything that is below
the child.
-/

namespace ThreeAddress

/-- A line of a drawing. -/
inductive Stroke where
  | node (id : Nat) (label : String)
  | edge (parent child : Nat)
  deriving DecidableEq, Repr

namespace Stroke

/-- One character inside a quoted label: quotation marks, backslashes and line feeds are
escaped. -/
def escapeChar (c : Char) : List Char :=
  if c = '\\' then ['\\', '\\']
  else if c = '\x22' then ['\\', '\x22']
  else if c = '\n' then ['\\', 'n']
  else [c]

/-- A label as it stands between quotation marks. -/
def escape (label : String) : String := String.ofList (label.toList.flatMap escapeChar)

/-- The name of a node. -/
def nodeName (id : Nat) : String := "n" ++ toString id

/-- A stroke as a line of text. -/
def text : Stroke → String
  | .node id label => "  " ++ nodeName id ++ " [label=\"" ++ escape label ++ "\"];"
  | .edge parent child => "  " ++ nodeName parent ++ " -> " ++ nodeName child ++ ";"

end Stroke

namespace Node

/-- The properties of a node that its label shows, with their values. -/
def properties : Node → List (String × String)
  | .binary operator _ _ _ => [("operator", operator)]
  | .unary operator _ _ => [("operator", operator)]
  | .assignment target _ _ _ => [("target", target)]
  | .var name _ => [("name", name)]
  | .literal lexeme _ => [("lexeme", lexeme)]
  | .format lexeme _ => [("lexeme", lexeme)]
  | _ => []

/-- Whether a node declares its target. -/
def isDeclaration : Node → Bool
  | .assignment _ _ declares _ => declares
  | _ => false

/-- The lines of a node's label: its form, its properties, and its type. -/
def labelLines (node : Node) : List String :=
  [node.form] ++ (node.properties.map fun property => property.1 ++ "=" ++ property.2) ++
    (if node.isDeclaration then ["declaration"] else []) ++ ["type=" ++ node.type.name]

/-- The label of a node. -/
def label (node : Node) : String := "\n".intercalate node.labelLines

end Node

namespace Outline

mutual
/-- How many nodes an outline has. -/
def size : Outline → Nat
  | .mk _ parts => sizeAll parts + 1

/-- How many nodes several outlines have. -/
def sizeAll : List Outline → Nat
  | [] => 0
  | outline :: outlines => size outline + sizeAll outlines
end

mutual
/-- The strokes of an outline whose top node has number `id`. -/
def strokes : Outline → Nat → List Stroke
  | .mk node parts, id => .node id node.label :: strokesBelow id parts (id + 1)

/-- The strokes of the children of `parent`, the first of which has number `id`. -/
def strokesBelow (parent : Nat) : List Outline → Nat → List Stroke
  | [], _ => []
  | outline :: outlines, id =>
    strokes outline id ++ .edge parent id :: strokesBelow parent outlines (id + size outline)
end

end Outline

namespace Node

/-- The lines of a drawing. -/
def drawingLines (root : Node) : List String :=
  ["digraph AST \x7b", "  node [shape=box];"] ++ (root.outline.strokes 0).map (·.text) ++ ["\x7d"]

/-- The drawing of a tree. There is no budget for it: a tree that could be checked and lowered is
assumed to be not too deep to be drawn. -/
def drawing (root : Node) : String := "\n".intercalate root.drawingLines

/-- The drawing of a tree that is whole. -/
def drawing? (root : Node) : Option String := if root.isWhole then some root.drawing else none

end Node

end ThreeAddress
