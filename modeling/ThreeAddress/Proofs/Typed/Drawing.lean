import ThreeAddress.Proofs.Code.Reading
import ThreeAddress.Proofs.Typed.Numbering

/-!
# What a drawing shows

The strokes of a tree show all of it: its nodes in preorder with the numbers of their places, and
an edge for every child, for each parent in the order of the children (`Node.isShownBy_strokes`).
In the text of a drawing every stroke has its line, and the label of a node is a quoted text on
this line that can be read back (`Stroke.readLabel?_escape`). So the tree can be told from its
drawing (`Node.drawing?_shows`).
-/

namespace ThreeAddress

/-! ## Labels -/

/-- A text with every `c` replaced by other characters. -/
def Text.replaceChar (c : Char) (image text : List Char) : List Char :=
  text.flatMap fun d => if d = c then image else [d]

namespace Stroke

/-- A label with its backslashes, then its quotation marks and then its line feeds replaced. Were
the line feeds replaced first, their backslashes would be replaced as well. -/
def escapeInTurn (label : List Char) : List Char :=
  Text.replaceChar '\n' ['\\', 'n']
    (Text.replaceChar '\x22' ['\\', '\x22'] (Text.replaceChar '\\' ['\\', '\\'] label))

/-- To escape the characters of a label one by one comes to the same as to replace them in turn. -/
theorem escapeInTurn_eq (label : List Char) : escapeInTurn label = label.flatMap escapeChar := by
  have happend (c : Char) (image first second : List Char) :
      Text.replaceChar c image (first ++ second) =
        Text.replaceChar c image first ++ Text.replaceChar c image second := List.flatMap_append
  induction label with
  | nil => rfl
  | cons c label ih =>
    have hchar : escapeInTurn [c] = escapeChar c := by
      by_cases hslash : c = '\\'
      · subst hslash
        decide
      by_cases hmark : c = '\x22'
      · subst hmark
        decide
      by_cases hfeed : c = '\n'
      · subst hfeed
        decide
      simp [escapeInTurn, Text.replaceChar, escapeChar, hslash, hmark, hfeed]
    rw [List.flatMap_cons, ← ih, ← hchar, ← List.singleton_append]
    simp only [escapeInTurn, happend]

/-- The character that is written with a backslash in front of another one. -/
def unescape? (c : Char) : Option Char :=
  if c = '\\' ∨ c = '\x22' then some c else if c = 'n' then some '\n' else none

/-- Reads a label behind its opening mark: the label, and what stands behind the closing mark. On
the way there are no line feeds and none but the three escapes. -/
def readLabel? : List Char → Option (List Char × List Char)
  | [] => none
  | [c] => if c = '\x22' then some ([], []) else none
  | c :: d :: rest =>
    if c = '\x22' then some ([], d :: rest)
    else if c = '\n' then none
    else if c = '\\' then
      (unescape? d).bind fun e => (readLabel? rest).map fun found => (e :: found.1, found.2)
    else (readLabel? (d :: rest)).map fun found => (c :: found.1, found.2)

/-- A character is written with a backslash that tells which one it is, or as it is. -/
theorem escapeChar_cases (c : Char) :
    (∃ d, escapeChar c = ['\\', d] ∧ unescape? d = some c ∧ d ≠ '\n') ∨
      (escapeChar c = [c] ∧ c ≠ '\\' ∧ c ≠ '\x22' ∧ c ≠ '\n') := by
  by_cases hslash : c = '\\'
  · subst hslash
    exact .inl ⟨'\\', by decide⟩
  by_cases hmark : c = '\x22'
  · subst hmark
    exact .inl ⟨'\x22', by decide⟩
  by_cases hfeed : c = '\n'
  · subst hfeed
    exact .inl ⟨'n', by decide⟩
  refine .inr ⟨?_, hslash, hmark, hfeed⟩
  rw [escapeChar, if_neg hslash, if_neg hmark, if_neg hfeed]

/-- A label is closed by the mark behind it and not before, and it is read back. -/
theorem readLabel?_escape (label rest : List Char) :
    readLabel? (label.flatMap escapeChar ++ '\x22' :: rest) = some (label, rest) := by
  induction label with
  | nil => cases rest <;> rfl
  | cons c label ih =>
    rw [List.flatMap_cons, List.append_assoc]
    rcases escapeChar_cases c with ⟨d, hescape, hread, -⟩ | ⟨hescape, hslash, hmark, hfeed⟩
    · rw [hescape]
      show ((unescape? d).bind fun e =>
        (readLabel? (label.flatMap escapeChar ++ '\x22' :: rest)).map fun found =>
          (e :: found.1, found.2)) = _
      rw [hread, ih]
      rfl
    · -- The last case of the reader needs to see the next character.
      obtain ⟨d, others, heq⟩ : ∃ d others,
          label.flatMap escapeChar ++ '\x22' :: rest = d :: others :=
        List.exists_cons_of_ne_nil (by simp)
      rw [hescape, List.singleton_append, heq, readLabel?, if_neg hmark, if_neg hfeed,
        if_neg hslash, ← heq, ih]
      rfl

/-- There is no line feed in a label that is written. -/
theorem feed_not_mem_escape (label : String) : '\n' ∉ (escape label).toList := by
  rw [escape, String.toList_ofList, List.mem_flatMap]
  rintro ⟨c, -, hmem⟩
  rcases escapeChar_cases c with ⟨d, hescape, -, hfeed⟩ | ⟨hescape, -, -, hfeed⟩
  · rw [hescape, List.mem_pair] at hmem
    exact hmem.elim (by decide) hfeed.symm
  · rw [hescape, List.mem_singleton] at hmem
    exact hfeed hmem.symm

/-- There is no line feed in the name of a node. -/
theorem feed_not_mem_nodeName (id : Nat) : '\n' ∉ (nodeName id).toList := by
  rw [nodeName, String.toList_append, List.mem_append]
  rintro (hmem | hmem)
  · exact absurd hmem (by decide)
  · exact absurd (Scanner.isDecimal_of_mem_toString hmem) (by decide)

/-- A stroke is one line. -/
theorem feed_not_mem_text (stroke : Stroke) : '\n' ∉ stroke.text.toList := by
  cases stroke with
  | node id label =>
    simp only [text, String.toList_append, List.mem_append, not_or]
    exact ⟨⟨⟨⟨by decide, feed_not_mem_nodeName id⟩, by decide⟩, feed_not_mem_escape label⟩,
      by decide⟩
  | edge parent child =>
    simp only [text, String.toList_append, List.mem_append, not_or]
    exact ⟨⟨⟨⟨by decide, feed_not_mem_nodeName parent⟩, by decide⟩, feed_not_mem_nodeName child⟩,
      by decide⟩

/-- What stands between quotation marks for a label. -/
structure IsBodyOf (label body : String) : Prop where
  /-- Three characters of the label have been replaced, one after the other. -/
  replaced : body.toList = escapeInTurn label.toList
  /-- It does not leave its line. -/
  unbroken : '\n' ∉ body.toList
  /-- It is closed by the mark behind it and not before, and the label is read back. -/
  closed (rest : List Char) : readLabel? (body.toList ++ '\x22' :: rest) = some (label.toList, rest)

/-- The written form of a label stands for it. -/
theorem isBodyOf_escape (label : String) : IsBodyOf label (escape label) := by
  have hbody : (escape label).toList = label.toList.flatMap escapeChar := String.toList_ofList
  exact ⟨hbody.trans (escapeInTurn_eq _).symm, feed_not_mem_escape label,
    hbody ▸ readLabel?_escape label.toList⟩

/-- Different labels are different when they are written. -/
theorem IsBodyOf.inj {first second body : String} (hfirst : IsBodyOf first body)
    (hsecond : IsBodyOf second body) : first = second := by
  have hread := hfirst.closed []
  rw [hsecond.closed] at hread
  exact String.toList_inj.1 (Prod.mk.inj (Option.some.inj hread)).1.symm

/-! ## Nodes and edges -/

/-- The number and the label of a node. -/
def node? : Stroke → Option (Nat × String)
  | .node id label => some (id, label)
  | .edge .. => none

/-- The numbers of a parent and a child. -/
def edge? : Stroke → Option (Nat × Nat)
  | .node .. => none
  | .edge parent child => some (parent, child)

/-- The edges among strokes. -/
def edges (strokes : List Stroke) : List (Nat × Nat) := strokes.filterMap edge?

/-- The children that edges lead to from a parent, one after the other. -/
def targets (parent : Nat) (strokes : List Stroke) : List Nat :=
  (edges strokes).filterMap fun edge => if edge.1 = parent then some edge.2 else none

variable {strokes first second : List Stroke} {parent child id : Nat} {label : String}

/-- The edges among strokes and more strokes. -/
@[simp] theorem edges_append (first second : List Stroke) :
    edges (first ++ second) = edges first ++ edges second := List.filterMap_append

@[simp] theorem edges_cons_edge :
    edges (.edge parent child :: strokes) = (parent, child) :: edges strokes := rfl

/-- The children among strokes and more strokes. -/
@[simp] theorem targets_append (parent : Nat) (first second : List Stroke) :
    targets parent (first ++ second) = targets parent first ++ targets parent second := by
  rw [targets, edges_append, List.filterMap_append]
  rfl

@[simp] theorem targets_cons_node :
    targets parent (.node id label :: strokes) = targets parent strokes := rfl

/-- An edge is the next one from its parent. -/
theorem targets_cons_edge_self :
    targets parent (.edge parent child :: strokes) = child :: targets parent strokes := by
  simp [targets]

/-- An edge is none from another parent. -/
theorem targets_cons_edge_ne {other : Nat} (h : other ≠ parent) :
    targets parent (.edge other child :: strokes) = targets parent strokes := by
  simp [targets, h]

/-- The children are those that there is an edge to. -/
theorem mem_targets : child ∈ targets parent strokes ↔ (parent, child) ∈ edges strokes := by
  simp [targets]

/-- Without edges from a parent there are no children. -/
theorem targets_eq_nil (h : ∀ edge ∈ edges strokes, edge.1 ≠ parent) :
    targets parent strokes = [] :=
  List.filterMap_eq_nil_iff.2 fun edge hedge => if_neg (h edge hedge)

end Stroke

namespace Outline

open Stroke (node? edges targets)

variable {outline part : Outline} {path : List Nat}

/-! ## The strokes of an outline -/

/-- The strokes below a node for outlines and more outlines. -/
theorem strokesBelow_append (parent : Nat) (first second : List Outline) (id : Nat) :
    strokesBelow parent (first ++ second) id =
      strokesBelow parent first id ++ strokesBelow parent second (id + sizeAll first) := by
  induction first generalizing id with
  | nil => rfl
  | cons outline first ih =>
    rw [List.cons_append, strokesBelow, ih, strokesBelow, sizeAll, Nat.add_assoc,
      List.append_assoc, List.cons_append]

mutual
/-- The strokes for nodes are those of the nodes in preorder, numbered from the first. -/
theorem nodes_strokes : ∀ (outline : Outline) (id : Nat),
    (outline.strokes id).filterMap node? =
      (outline.preorder.zipIdx id).map fun item => (item.2, item.1.label)
  | .mk node parts, id => by
    rw [strokes, preorder, List.zipIdx_cons, List.map_cons, ← nodes_strokesBelow id parts (id + 1)]
    rfl

/-- The strokes for nodes below a node. -/
theorem nodes_strokesBelow (parent : Nat) : ∀ (outlines : List Outline) (id : Nat),
    (strokesBelow parent outlines id).filterMap node? =
      ((preorderAll outlines).zipIdx id).map fun item => (item.2, item.1.label)
  | [], _ => rfl
  | outline :: outlines, id => by
    rw [strokesBelow, List.filterMap_append, nodes_strokes outline id, preorderAll,
      List.zipIdx_append, List.map_append, length_preorder,
      ← nodes_strokesBelow parent outlines (id + outline.size)]
    rfl
end

mutual
/-- There is an edge to every node but the top. -/
theorem length_edges_strokes : ∀ (outline : Outline) (id : Nat),
    (edges (outline.strokes id)).length + 1 = outline.size
  | .mk _ parts, id => congrArg (· + 1) (length_edges_strokesBelow id parts (id + 1))

/-- There is an edge to every node below a node. -/
theorem length_edges_strokesBelow (parent : Nat) : ∀ (outlines : List Outline) (id : Nat),
    (edges (strokesBelow parent outlines id)).length = sizeAll outlines
  | [], _ => rfl
  | outline :: outlines, id => by
    have hfirst := length_edges_strokes outline id
    have hothers := length_edges_strokesBelow parent outlines (id + outline.size)
    rw [strokesBelow, Stroke.edges_append, Stroke.edges_cons_edge, List.length_append,
      List.length_cons, hothers, sizeAll]
    omega
end

mutual
/-- The edges of an outline start at its own nodes. -/
theorem parent_strokes : ∀ (outline : Outline) (id : Nat), ∀ edge ∈ edges (outline.strokes id),
    id ≤ edge.1 ∧ edge.1 < id + outline.size
  | .mk _ parts, id => fun edge hedge => by
    rw [size]
    rcases parent_strokesBelow id parts (id + 1) edge hedge with hself | hbelow <;> omega

/-- The edges below a node start at this node or at those below it. -/
theorem parent_strokesBelow (parent : Nat) : ∀ (outlines : List Outline) (id : Nat),
    ∀ edge ∈ edges (strokesBelow parent outlines id),
      edge.1 = parent ∨ (id ≤ edge.1 ∧ edge.1 < id + sizeAll outlines)
  | [], _ => nofun
  | outline :: outlines, id => fun edge hedge => by
    rw [strokesBelow, Stroke.edges_append, Stroke.edges_cons_edge, List.mem_append,
      List.mem_cons] at hedge
    rw [sizeAll]
    rcases hedge with hfirst | rfl | hothers
    · have hbounds := parent_strokes outline id edge hfirst
      omega
    · exact .inl rfl
    · have hbounds := parent_strokesBelow parent outlines (id + outline.size) edge hothers
      omega
end

/-- The edges from a node lead to its children in their order. -/
theorem targets_strokesBelow {parent : Nat} (parts : List Outline) {id : Nat} (h : parent < id) :
    targets parent (strokesBelow parent parts id) =
      (List.range parts.length).map fun step => id + sizeAll (parts.take step) := by
  induction parts generalizing id with
  | nil => rfl
  | cons part parts ih =>
    have hinside : targets parent (part.strokes id) = [] := by
      refine Stroke.targets_eq_nil fun edge hedge => ?_
      have hbounds := parent_strokes part id edge hedge
      omega
    rw [strokesBelow, Stroke.targets_append, hinside, Stroke.targets_cons_edge_self, ih (by omega),
      List.nil_append, List.length_cons, List.range_succ_eq_map, List.map_cons, List.map_map]
    refine congrArg _ (List.map_congr_left fun step _ => ?_)
    rw [Function.comp_apply, List.take_succ_cons, sizeAll, Nat.add_assoc]

/-- The edges from a node that is below one of several outlines are among the strokes of this
outline. -/
theorem targets_strokesBelow_part {parent id number : Nat} {front behind : List Outline}
    (hparent : parent < id) (hlow : id + sizeAll front ≤ number)
    (hhigh : number < id + sizeAll front + part.size) :
    targets number (strokesBelow parent (front ++ part :: behind) id) =
      targets number (part.strokes (id + sizeAll front)) := by
  have hfront : targets number (strokesBelow parent front id) = [] :=
    Stroke.targets_eq_nil fun edge hedge => by
      have hbounds := parent_strokesBelow parent front id edge hedge
      omega
  have hbehind : targets number
      (strokesBelow parent behind (id + sizeAll front + part.size)) = [] :=
    Stroke.targets_eq_nil fun edge hedge => by
      have hbounds := parent_strokesBelow parent behind _ edge hedge
      omega
  rw [strokesBelow_append, strokesBelow, Stroke.targets_append, Stroke.targets_append, hfront,
    Stroke.targets_cons_edge_ne (by omega), hbehind, List.append_nil, List.nil_append]

/-- The edges from a node, told by the path to it, lead to its children in their order. -/
theorem targets_strokes (h : outline.at? path = some part) (id : Nat) :
    targets (id + outline.number path) (outline.strokes id) =
      (List.range part.parts.length).map fun step => id + outline.number (path ++ [step]) := by
  induction path generalizing outline id with
  | nil =>
    cases h
    obtain ⟨node, parts⟩ := part
    rw [strokes, Stroke.targets_cons_node, number, Nat.add_zero,
      targets_strokesBelow parts (Nat.lt_succ_self id)]
    refine List.map_congr_left fun step hstep => ?_
    have hlt : step < parts.length := List.mem_range.1 hstep
    rw [List.nil_append, number_cons (List.getElem?_eq_getElem hlt), number]
    omega
  | cons first path ih =>
    obtain ⟨node, parts⟩ := outline
    obtain ⟨child, hchild, hpath⟩ := at?_cons h
    obtain ⟨front, behind, hparts, htake, -⟩ := exists_split hchild
    have hnumber := number_lt_size hpath
    have hsum (rest : List Nat) : id + (mk node parts).number (first :: rest) =
        id + 1 + sizeAll front + child.number rest := by
      rw [number_cons hchild, htake]
      omega
    have hinside : targets (id + 1 + sizeAll front + child.number path)
          (strokesBelow id parts (id + 1)) =
        targets (id + 1 + sizeAll front + child.number path)
          (child.strokes (id + 1 + sizeAll front)) := by
      rw [hparts]
      exact targets_strokesBelow_part (Nat.lt_succ_self id) (by omega) (by omega)
    rw [hsum, strokes, Stroke.targets_cons_node, hinside, ih hpath]
    exact List.map_congr_left fun step _ => (hsum (path ++ [step])).symm

end Outline

namespace Node

open Stroke (node? edges targets)

/-- Strokes that show a tree, and nothing else. -/
structure IsShownBy (root : Node) (strokes : List Stroke) : Prop where
  /-- There is a stroke for every node, in preorder, with the number of its place and its label. -/
  nodes : strokes.filterMap node? = root.preorder.zipIdx.map fun item => (item.2, item.1.label)
  /-- There is one edge less than there are nodes. -/
  length_edges : (edges strokes).length + 1 = root.preorder.length
  /-- The edges are the pairs of a parent and a child. -/
  mem_edges (parent child : Nat) : (parent, child) ∈ edges strokes ↔
    ∃ path step, (root.at? (path ++ [step])).isSome = true ∧ root.number path = parent ∧
      root.number (path ++ [step]) = child
  /-- The edges from one node are in the order of its children. -/
  targets {path : List Nat} {node : Node} : root.at? path = some node →
    targets (root.number path) strokes =
      (List.range node.children.length).map fun step => root.number (path ++ [step])

variable {root node : Node} {path : List Nat}

/-- The node that a path leads to is in preorder the one of its number. -/
theorem preorder_number (h : root.at? path = some node) :
    root.preorder[root.number path]? = some node := by
  have houtline : root.outline.at? path = some node.outline := by rw [at?_outline, h]; rfl
  rw [preorder, number, Outline.preorder_number houtline, root_outline]

/-- Every number of a node is that of the one path to it. -/
theorem existsUnique_number {id : Nat} (h : id < root.preorder.length) :
    ∃! path, (root.at? path).isSome = true ∧ root.number path = id := by
  have hpart {path : List Nat} (hpath : (root.at? path).isSome = true) :
      ∃ part, root.outline.at? path = some part := by
    rw [← Option.isSome_iff_exists, at?_outline, Option.isSome_map, hpath]
  rw [preorder, Outline.length_preorder] at h
  obtain ⟨path, part, houtline, hnumber⟩ := root.outline.exists_number h
  refine ⟨path, ⟨?_, hnumber⟩, fun path' hpath' => ?_⟩
  · rw [at?_outline] at houtline
    obtain ⟨node, hnode, -⟩ := Option.map_eq_some_iff.1 houtline
    rw [hnode]
    rfl
  · obtain ⟨part', houtline'⟩ := hpart hpath'.1
    exact Outline.number_inj houtline' houtline (hpath'.2.trans hnumber.symm)

/-- A path that leads on leads to a child of where it came by. -/
theorem at?_concat (root : Node) (path : List Nat) (step : Nat) :
    root.at? (path ++ [step]) = (root.at? path).bind fun node => node.children[step]? := by
  induction path generalizing root with
  | nil => exact Option.bind_fun_some root.children[step]?
  | cons first path ih =>
    show (root.children[first]?.bind fun child => child.at? (path ++ [step])) = _
    simp only [ih, at?, Option.bind_assoc]

/-- The edges from a node lead to its children in their order. -/
theorem targets_strokes (h : root.at? path = some node) :
    targets (root.number path) (root.outline.strokes 0) =
      (List.range node.children.length).map fun step => root.number (path ++ [step]) := by
  have houtline : root.outline.at? path = some node.outline := by rw [at?_outline, h]; rfl
  have htargets := Outline.targets_strokes houtline 0
  simp only [Nat.zero_add, parts_outline, List.length_map] at htargets
  exact htargets

/-- The strokes of a tree show it. -/
theorem isShownBy_strokes (root : Node) : root.IsShownBy (root.outline.strokes 0) where
  nodes := root.outline.nodes_strokes 0
  length_edges := by
    rw [preorder, Outline.length_preorder]
    exact root.outline.length_edges_strokes 0
  targets := targets_strokes
  mem_edges parent child := by
    have hedges : ∀ edge ∈ edges (root.outline.strokes 0), edge.1 < root.preorder.length := by
      intro edge hedge
      have hbounds := root.outline.parent_strokes 0 edge hedge
      rw [preorder, Outline.length_preorder]
      omega
    constructor
    · intro hedge
      obtain ⟨path, ⟨hpath, rfl⟩, -⟩ := existsUnique_number (hedges _ hedge)
      obtain ⟨node, hnode⟩ := Option.isSome_iff_exists.1 hpath
      rw [← Stroke.mem_targets, targets_strokes hnode, List.mem_map] at hedge
      obtain ⟨step, hstep, rfl⟩ := hedge
      refine ⟨path, step, ?_, rfl, rfl⟩
      rw [at?_concat, hnode, Option.bind_some,
        List.getElem?_eq_getElem (List.mem_range.1 hstep)]
      rfl
    · rintro ⟨path, step, hsome, rfl, rfl⟩
      rw [at?_concat] at hsome
      obtain ⟨child, hchild⟩ := Option.isSome_iff_exists.1 hsome
      obtain ⟨node, hnode, hstep⟩ := Option.bind_eq_some_iff.1 hchild
      rw [← Stroke.mem_targets, targets_strokes hnode, List.mem_map]
      exact ⟨step, List.mem_range.2 (List.getElem?_eq_some_iff.1 hstep).1, rfl⟩

/-- A drawing is its lines, one below the other. -/
theorem splitOn_drawing (root : Node) :
    root.drawing.toList.splitOn '\n' = root.drawingLines.map String.toList := by
  have hone : ∀ line ∈ root.drawingLines.map String.toList, '\n' ∉ line := by
    rw [List.forall_mem_map]
    simp only [drawingLines, List.forall_mem_append, List.forall_mem_map, List.forall_mem_cons]
    refine ⟨⟨⟨by decide, by decide, nofun⟩, fun stroke _ => stroke.feed_not_mem_text⟩, by decide,
      nofun⟩
  rw [drawing, String.toList_intercalate]
  exact List.splitOn_intercalate '\n' hone (by simp [drawingLines])

/-- The drawing of a tree that is whole. It has one line for the head and one for the shape, then
one for each stroke, and one for the closing brace. The strokes show the tree: a node for each of
its nodes, numbered in preorder, and an edge for each child, from its parent, in the order of the
children. Numbers and paths from the root belong together one by one. A label is written between
quotation marks on the line of its node; it ends there and is read back, so labels that are written
alike are the same. -/
theorem drawing?_shows {root : Node} (h : root.isWhole = true) :
    ∃ text strokes, root.drawing? = some text ∧
      text.toList.splitOn '\n' =
        ("digraph AST \x7b" :: "  node [shape=box];" :: strokes.map Stroke.text ++ ["\x7d"]).map
          String.toList ∧
      root.IsShownBy strokes ∧
      ((∀ path node, root.at? path = some node →
          root.preorder[root.number path]? = some node) ∧
        ∀ id < root.preorder.length,
          ∃! path, (root.at? path).isSome = true ∧ root.number path = id) ∧
      (∀ id label, Stroke.node id label ∈ strokes → ∃ body, Stroke.IsBodyOf label body ∧
        (Stroke.node id label).text = "  n" ++ toString id ++ " [label=\"" ++ body ++ "\"];") ∧
      ∀ (first second : Node) (body body' : String), Stroke.IsBodyOf first.label body →
        Stroke.IsBodyOf second.label body' → first.label ≠ second.label → body ≠ body' := by
  refine ⟨root.drawing, root.outline.strokes 0, if_pos h, root.splitOn_drawing,
    root.isShownBy_strokes, ⟨fun _ _ => preorder_number, fun _ => existsUnique_number⟩,
    fun id label _ => ⟨Stroke.escape label, Stroke.isBodyOf_escape label, ?_⟩, ?_⟩
  · rw [Stroke.text, Stroke.nodeName, ← String.append_assoc]
    rfl
  · rintro first second body _ hfirst hsecond hne rfl
    exact hne (hfirst.inj hsecond)

/-- A name with a backslash in front of an `n`, and a literal with a mark and a line feed. -/
theorem drawing?_shows_escapes :
    let root : Node := .program [.assignment "a\\n" (.unary "-" (.literal "\"\n" ⟨none, .int⟩)
      ⟨none, .int⟩) true ⟨none, .void⟩] ⟨none, .void⟩
    root.isWhole = true ∧
    ∃ text strokes, root.drawing? = some text ∧
      text = "digraph AST \x7b\n  node [shape=box];\n" ++
        "  n0 [label=\"Program\\ntype=void\"];\n" ++
        "  n1 [label=\"Assignment\\ntarget=a\\\\n\\ndeclaration\\ntype=void\"];\n" ++
        "  n2 [label=\"UnaryOperation\\noperator=-\\ntype=int\"];\n" ++
        "  n3 [label=\"Literal\\nlexeme=\\\"\\n\\ntype=int\"];\n" ++
        "  n2 -> n3;\n  n1 -> n2;\n  n0 -> n1;\n\x7d" ∧
      root.IsShownBy strokes := by
  intro root
  have hwhole : root.isWhole = true := by decide +kernel
  obtain ⟨text, strokes, htext, -, hshows, -⟩ := drawing?_shows hwhole
  exact ⟨hwhole, text, strokes, htext, Option.some.inj (htext.symm.trans (by decide +kernel)),
    hshows⟩

end Node

end ThreeAddress
