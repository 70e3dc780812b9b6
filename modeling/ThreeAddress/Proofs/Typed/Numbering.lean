import Mathlib.Data.List.Lex
import Mathlib.Order.RelClasses
import ThreeAddress.Proofs.Check.Soundness
import ThreeAddress.Typed.Drawing

/-!
# The numbers of the nodes of a tree

A path leads from the top of a tree down to a node of it; its steps are the places of the nodes on
the way among their siblings. Every node has the number of its place in preorder, which can be
told from its path (`Outline.number`): there is one number for each path that leads somewhere
(`Outline.exists_number`, `Outline.number_inj`), and paths are numbered in lexicographic order
(`Outline.number_lt_number`).
-/

namespace ThreeAddress

namespace Outline

/-- The outline that a path leads to. -/
def at? : Outline → List Nat → Option Outline
  | outline, [] => some outline
  | .mk _ parts, step :: path => parts[step]?.bind fun part => at? part path

/-- The number of the node that a path leads to, the top having number zero. In front of it are the
top and all that is below the earlier children. -/
def number : Outline → List Nat → Nat
  | _, [] => 0
  | .mk _ parts, step :: path =>
    sizeAll (parts.take step) + 1 + (parts[step]?.map fun part => number part path).getD 0

variable {outline part : Outline} {parts : List Outline} {path : List Nat} {step id : Nat}

/-! ## Sizes -/

mutual
/-- An outline has as many nodes as are told in preorder. -/
theorem length_preorder : ∀ outline : Outline, outline.preorder.length = outline.size
  | .mk _ parts => congrArg (· + 1) (length_preorderAll parts)

/-- Several outlines have as many nodes as are told in preorder. -/
theorem length_preorderAll : ∀ outlines : List Outline,
    (preorderAll outlines).length = sizeAll outlines
  | [] => rfl
  | outline :: outlines => by
    rw [preorderAll, List.length_append, length_preorder outline, length_preorderAll outlines,
      sizeAll]
end

/-- Outlines and more outlines in preorder. -/
theorem preorderAll_append (first second : List Outline) :
    preorderAll (first ++ second) = preorderAll first ++ preorderAll second := by
  induction first with
  | nil => rfl
  | cons outline first ih =>
    rw [List.cons_append, preorderAll, ih, preorderAll, List.append_assoc]

/-- The nodes of outlines and more outlines are counted together. -/
theorem sizeAll_append (first second : List Outline) :
    sizeAll (first ++ second) = sizeAll first + sizeAll second := by
  induction first with
  | nil => exact (Nat.zero_add _).symm
  | cons outline first ih => rw [List.cons_append, sizeAll, ih, sizeAll, Nat.add_assoc]

/-- An outline has a node. -/
theorem size_pos (outline : Outline) : 0 < outline.size := by
  cases outline
  exact Nat.succ_pos _

/-! ## Paths -/

/-- A child with those in front of it and behind it. -/
theorem exists_split (h : parts[step]? = some part) :
    ∃ front behind, parts = front ++ part :: behind ∧ parts.take step = front ∧
      front.length = step := by
  obtain ⟨hlt, rfl⟩ := List.getElem?_eq_some_iff.1 h
  refine ⟨_, parts.drop (step + 1), ?_, rfl, List.length_take_of_le hlt.le⟩
  rw [← List.drop_eq_getElem_cons hlt, List.take_append_drop]

/-- A path with a first step leads into a child. -/
theorem at?_cons {node : Node} (h : (mk node parts).at? (step :: path) = some part) :
    ∃ child, parts[step]? = some child ∧ child.at? path = some part :=
  Option.bind_eq_some_iff.1 h

/-- The number behind a first step. -/
theorem number_cons {child : Outline} (h : parts[step]? = some child) (node : Node)
    (path : List Nat) :
    (mk node parts).number (step :: path) = sizeAll (parts.take step) + 1 + child.number path := by
  rw [number, h]
  rfl

/-- What is below the end of a path stands in preorder behind as many nodes as its number says. -/
theorem preorder_split (h : outline.at? path = some part) :
    ∃ front behind, outline.preorder = front ++ part.preorder ++ behind ∧
      front.length = outline.number path := by
  induction path generalizing outline with
  | nil =>
    cases h
    exact ⟨[], [], by simp, rfl⟩
  | cons step path ih =>
    obtain ⟨node, parts⟩ := outline
    obtain ⟨child, hchild, hpath⟩ := at?_cons h
    obtain ⟨front, behind, hpreorder, hlength⟩ := ih hpath
    obtain ⟨earlier, later, rfl, htake, -⟩ := exists_split hchild
    refine ⟨node :: preorderAll earlier ++ front, behind ++ preorderAll later, ?_, ?_⟩
    · rw [preorder, preorderAll_append, preorderAll, hpreorder]
      simp
    · rw [number_cons hchild, htake, List.cons_append, List.length_cons, List.length_append,
        length_preorderAll, hlength]
      omega

/-- The node that a path leads to stands in preorder at its number. -/
theorem preorder_number (h : outline.at? path = some part) :
    outline.preorder[outline.number path]? = some part.root := by
  obtain ⟨front, behind, hpreorder, hlength⟩ := preorder_split h
  obtain ⟨node, parts⟩ := part
  rw [hpreorder, ← hlength, List.append_assoc, List.getElem?_append_right (Nat.le_refl _),
    Nat.sub_self]
  rfl

/-- What is below the end of a path has the next numbers. -/
theorem number_add_size_le (h : outline.at? path = some part) :
    outline.number path + part.size ≤ outline.size := by
  obtain ⟨front, behind, hpreorder, hlength⟩ := preorder_split h
  rw [← length_preorder, ← length_preorder, hpreorder, List.length_append, List.length_append]
  omega

/-- Numbers are smaller than the number of nodes. -/
theorem number_lt_size (h : outline.at? path = some part) :
    outline.number path < outline.size :=
  Nat.lt_of_lt_of_le (Nat.lt_add_of_pos_right part.size_pos) (number_add_size_le h)

/-- A child at an earlier place has its nodes in front of those of a later one. -/
theorem sizeAll_take_add_size_le {later : Nat} (h : parts[step]? = some part)
    (hlt : step < later) : sizeAll (parts.take step) + part.size ≤ sizeAll (parts.take later) := by
  obtain ⟨front, behind, rfl, htake, hlength⟩ := exists_split h
  have hlater : (front ++ part :: behind).take later =
      front ++ part :: behind.take (later - (step + 1)) := by
    rw [List.take_append, List.take_of_length_le (by omega), hlength,
      show later - step = later - (step + 1) + 1 by omega, List.take_succ_cons]
  rw [htake, hlater, sizeAll_append, sizeAll]
  omega

/-- Paths are numbered in lexicographic order. -/
theorem number_lt_number {other : Outline} {path' : List Nat} (h : outline.at? path = some part)
    (h' : outline.at? path' = some other) (hlt : path < path') :
    outline.number path < outline.number path' := by
  induction path generalizing outline path' with
  | nil =>
    cases path' with
    | nil => exact absurd hlt (List.lt_irrefl [])
    | cons step path' =>
      cases outline
      rw [number, number]
      omega
  | cons step path ih =>
    cases path' with
    | nil => exact absurd hlt (List.not_lt_nil _)
    | cons step' path' =>
      obtain ⟨node, parts⟩ := outline
      obtain ⟨child, hchild, hpath⟩ := at?_cons h
      obtain ⟨child', hchild', hpath'⟩ := at?_cons h'
      rw [number_cons hchild, number_cons hchild']
      rcases List.cons_lt_cons_iff.1 hlt with hstep | ⟨rfl, hpaths⟩
      · have hfront := sizeAll_take_add_size_le hchild hstep
        have hnumber := number_lt_size hpath
        omega
      · cases hchild.symm.trans hchild'
        exact Nat.add_lt_add_left (ih hpath hpath' hpaths) _

/-- Different paths have different numbers. -/
theorem number_inj {other : Outline} {path' : List Nat} (h : outline.at? path = some part)
    (h' : outline.at? path' = some other) (heq : outline.number path = outline.number path') :
    path = path' := by
  rcases lt_trichotomy path path' with hlt | hsame | hlt
  · exact absurd heq (number_lt_number h h' hlt).ne
  · exact hsame
  · exact absurd heq (number_lt_number h' h hlt).ne'

mutual
/-- Every number is that of a path. -/
theorem exists_number : ∀ (outline : Outline) {id : Nat}, id < outline.size →
    ∃ path part, outline.at? path = some part ∧ outline.number path = id
  | .mk node parts, 0, _ => ⟨[], .mk node parts, rfl, rfl⟩
  | .mk node parts, id + 1, h => by
    obtain ⟨step, child, hchild, path, part, hpath, hnumber⟩ :=
      exists_numberBelow parts (Nat.lt_of_succ_lt_succ h)
    refine ⟨step :: path, part, Option.bind_eq_some_iff.2 ⟨child, hchild, hpath⟩, ?_⟩
    rw [number_cons hchild]
    omega

/-- Every number is that of a path into one of several outlines. -/
theorem exists_numberBelow : ∀ (outlines : List Outline) {id : Nat}, id < sizeAll outlines →
    ∃ step child, outlines[step]? = some child ∧ ∃ path part, child.at? path = some part ∧
      sizeAll (outlines.take step) + child.number path = id
  | outline :: outlines, id, h => by
    by_cases hfirst : id < outline.size
    · obtain ⟨path, part, hpath, hnumber⟩ := exists_number outline hfirst
      exact ⟨0, outline, rfl, path, part, hpath, (Nat.zero_add _).trans hnumber⟩
    · rw [sizeAll] at h
      have hothers : id - outline.size < sizeAll outlines := by omega
      obtain ⟨step, child, hchild, path, part, hpath, hnumber⟩ :=
        exists_numberBelow outlines hothers
      refine ⟨step + 1, child, hchild, path, part, hpath, ?_⟩
      rw [List.take_succ_cons, sizeAll]
      omega
end

end Outline

namespace Node

/-- The node that a path leads to. -/
def at? : Node → List Nat → Option Node
  | node, [] => some node
  | node, step :: path => node.children[step]?.bind fun child => at? child path

/-- The number of the node that a path leads to. -/
def number (root : Node) (path : List Nat) : Nat := root.outline.number path

/-- The outlines of several trees. -/
theorem outlines_eq_map (nodes : List Node) : outlines nodes = nodes.map outline := by
  induction nodes with
  | nil => rfl
  | cons node nodes ih => rw [outlines, ih, List.map_cons]

/-- The outline of a node has those of its children below it. -/
theorem parts_outline (node : Node) : node.outline.parts = node.children.map outline := by
  rw [outline_eq, ← outlines_eq_map]
  rfl

/-- The outline of a node has this node at the top. -/
theorem root_outline (node : Node) : node.outline.root = node := by
  rw [outline_eq]
  rfl

/-- A path leads to the same place in a tree and in its outline. -/
theorem at?_outline (node : Node) (path : List Nat) :
    node.outline.at? path = (node.at? path).map outline := by
  induction path generalizing node with
  | nil => rfl
  | cons step path ih =>
    rw [outline_eq, Outline.at?, at?, outlines_eq_map, List.getElem?_map, Option.bind_map,
      Option.map_bind]
    exact congrArg _ (funext fun child => ih child)

end Node

end ThreeAddress
