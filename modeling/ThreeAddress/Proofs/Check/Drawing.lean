import ThreeAddress.Proofs.Check.Renaming
import ThreeAddress.Typed.Drawing

/-!
# Drawing a tree on other lines

A drawing shows the forms, properties and types of nodes and who is below whom, and no lines. So
a tree on other lines has the same drawing (`Node.drawing?_reline`).
-/

namespace ThreeAddress

namespace Outline

mutual
/-- An outline on other lines. -/
def reline (lines : Line → Line) : Outline → Outline
  | .mk node parts => .mk (node.reline lines) (relineAll lines parts)

/-- Outlines on other lines. -/
def relineAll (lines : Line → Line) : List Outline → List Outline
  | [] => []
  | outline :: outlines => reline lines outline :: relineAll lines outlines
end

variable (lines : Line → Line)

mutual
/-- The nodes of an outline on other lines. -/
theorem preorder_reline : ∀ outline : Outline,
    (outline.reline lines).preorder = outline.preorder.map (Node.reline lines)
  | .mk node parts => by rw [reline, preorder, preorderAll_reline parts, preorder, List.map_cons]

/-- The nodes of outlines on other lines. -/
theorem preorderAll_reline : ∀ outlines : List Outline,
    preorderAll (relineAll lines outlines) = (preorderAll outlines).map (Node.reline lines)
  | [] => rfl
  | outline :: outlines => by
    rw [relineAll, preorderAll, preorder_reline outline, preorderAll_reline outlines, preorderAll,
      List.map_append]
end

mutual
/-- How many nodes there are does not depend on lines. -/
theorem size_reline : ∀ outline : Outline, (outline.reline lines).size = outline.size
  | .mk _ parts => congrArg (· + 1) (sizeAll_reline parts)

/-- How many nodes there are does not depend on lines. -/
theorem sizeAll_reline : ∀ outlines : List Outline,
    sizeAll (relineAll lines outlines) = sizeAll outlines
  | [] => rfl
  | outline :: outlines => by
    rw [relineAll, sizeAll, size_reline outline, sizeAll_reline outlines, sizeAll]
end

/-- A label shows no line. -/
theorem label_reline (node : Node) : (node.reline lines).label = node.label := by
  cases node <;> rfl

mutual
/-- The strokes of an outline do not depend on lines. -/
theorem strokes_reline : ∀ (outline : Outline) (id : Nat),
    (outline.reline lines).strokes id = outline.strokes id
  | .mk node parts, id => by
    rw [reline, strokes, label_reline, strokesBelow_reline id parts (id + 1), strokes]

/-- The strokes of outlines below a node do not depend on lines. -/
theorem strokesBelow_reline (parent : Nat) : ∀ (outlines : List Outline) (id : Nat),
    strokesBelow parent (relineAll lines outlines) id = strokesBelow parent outlines id
  | [], _ => rfl
  | outline :: outlines, id => by
    rw [relineAll, strokesBelow, strokes_reline outline id, size_reline lines outline,
      strokesBelow_reline parent outlines (id + outline.size), strokesBelow]
end

end Outline

namespace Node

variable (lines : Line → Line)

mutual
/-- The outline of a tree on other lines. -/
theorem outline_reline : ∀ node : Node,
    (node.reline lines).outline = node.outline.reline lines
  | absent | bare _ | literal .. | format .. | var .. | input _ => rfl
  | program statements _ | block statements _ => by
    rw [reline, outline, outlines_reline statements]; rfl
  | assignment _ value _ _ => by rw [reline, outline, outline_reline value]; rfl
  | output text arguments _ => by
    rw [reline, outline, outline_reline text, outlines_reline arguments]; rfl
  | conditional parts _ => by rw [reline, outline, outlines_reline parts]; rfl
  | loop condition body _ => by
    rw [reline, outline, outline_reline condition, outline_reline body]; rfl
  | binary _ left right _ => by
    rw [reline, outline, outline_reline left, outline_reline right]; rfl
  | unary _ operand _ => by rw [reline, outline, outline_reline operand]; rfl

/-- The outlines of trees on other lines. -/
theorem outlines_reline : ∀ nodes : List Node,
    outlines (relineAll lines nodes) = Outline.relineAll lines (outlines nodes)
  | [] => rfl
  | node :: nodes => by
    rw [relineAll, outlines, outline_reline node, outlines_reline nodes]; rfl
end

/-- A tree on other lines is whole iff the tree is. -/
theorem isWhole_reline (root : Node) : (root.reline lines).isWhole = root.isWhole := by
  rw [isWhole, isWhole, preorder, preorder, outline_reline, Outline.preorder_reline, List.all_map]
  congr 1
  exact funext fun node => congrArg (! ·) (isAbsent_reline lines node)

/-- A tree on other lines has the same drawing, if any. -/
theorem drawing?_reline (root : Node) : (root.reline lines).drawing? = root.drawing? := by
  rw [drawing?, drawing?, isWhole_reline, drawing, drawing, drawingLines, drawingLines,
    outline_reline, Outline.strokes_reline]

end Node

end ThreeAddress
