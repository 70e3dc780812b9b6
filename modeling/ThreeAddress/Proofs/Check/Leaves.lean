import ThreeAddress.Proofs.Check.Soundness

/-!
# The leaves of checked trees

The names, literals and format texts in a checked tree are tokens of the program, of the kinds that
the grammar has at their places (`Tree.Checks.isQuoted`). So what is known of the texts of tokens of
a kind is known of the texts in nodes.
-/

namespace ThreeAddress

namespace Node

/-- The texts that a node carries, other than operators, are those of tokens: names, literals that
have the type of the node, and format texts. -/
def IsQuoted (pieces : List Piece) : Node → Prop
  | assignment target _ _ _ => (.ident, target) ∈ pieces
  | var name _ => (.ident, name) ∈ pieces
  | literal lexeme mark => ∃ kind, (kind, lexeme) ∈ pieces ∧
    Check.literalType? kind = some mark.type ∧ mark.type ≠ .string
  | format lexeme _ => (.stringLit, lexeme) ∈ pieces
  | _ => True

variable {pieces : List Piece} {node : Node}

/-- The nodes of a tree are quoted from the tokens. -/
def IsQuotedFrom (pieces : List Piece) (node : Node) : Prop :=
  ∀ part ∈ node.preorder, part.IsQuoted pieces

/-- A tree is quoted iff its root and the trees below it are. -/
theorem isQuotedFrom_iff : node.IsQuotedFrom pieces ↔
    node.IsQuoted pieces ∧ ∀ child ∈ node.children, child.IsQuotedFrom pieces :=
  forall_mem_preorder

/-- A body is quoted if its statements are. -/
theorem isQuotedFrom_block {items : List Node} {mark : Mark}
    (h : ∀ item ∈ items, item.IsQuotedFrom pieces) : (block items mark).IsQuotedFrom pieces :=
  isQuotedFrom_iff.2 ⟨trivial, h⟩

end Node

namespace Tree

open Node

variable {table after : Table} {tree : Tree} {node : Node} {nodes : List Node}
  {pieces : List Piece}

/-- The tokens of a part are among those that the tokens of the tree are among. -/
theorem spelling_subset_of_part {part : Tree} (hpart : part ∈ tree.parts)
    (h : tree.spelling ⊆ pieces) : part.spelling ⊆ pieces :=
  List.Subset.trans (spelling_sublist part hpart).subset h

/-- The node of an expression is quoted from its tokens. -/
theorem Infers.isQuoted (h : tree.Infers table node) (hpieces : tree.spelling ⊆ pieces) :
    node.IsQuotedFrom pieces := by
  induction h with
  | var => exact isQuotedFrom_iff.2 ⟨hpieces (.head _), nofun⟩
  | literal hkind htype =>
    exact isQuotedFrom_iff.2 ⟨⟨_, hpieces (.head _), hkind, htype⟩, nofun⟩
  | input => exact isQuotedFrom_iff.2 ⟨trivial, nofun⟩
  | group _ ih | single _ ih => exact ih (spelling_subset_of_part (.head _) hpieces)
  | minus _ _ ih | negation _ _ ih =>
    refine isQuotedFrom_iff.2 ⟨trivial, List.forall_mem_singleton.2 ?_⟩
    exact ih (spelling_subset_of_part (.head _) hpieces)
  | comparison _ _ _ _ _ ihLeft ihRight =>
    have hleft := ihLeft (spelling_subset_of_part (.head _) hpieces)
    have hoperation := spelling_subset_of_part (.tail _ (.head _)) hpieces
    have hright := ihRight (spelling_subset_of_part (.head _) hoperation)
    exact isQuotedFrom_iff.2
      ⟨trivial, List.forall_mem_cons.2 ⟨hleft, List.forall_mem_singleton.2 hright⟩⟩
  | joined _ _ _ _ _ ihLeft ihRight =>
    have hleft := ihLeft (List.Subset.trans (chain_sublist ..).subset hpieces)
    have hoperation := spelling_subset_of_part (.tail _ (List.mem_append_right _ (.head _))) hpieces
    have hright := ihRight (spelling_subset_of_part (.head _) hoperation)
    exact isQuotedFrom_iff.2
      ⟨trivial, List.forall_mem_cons.2 ⟨hleft, List.forall_mem_singleton.2 hright⟩⟩

/-- The nodes that a tree leaves are quoted from its tokens. -/
theorem Checks.isQuoted (h : tree.Checks table nodes after) (hpieces : tree.spelling ⊆ pieces) :
    ∀ node ∈ nodes, node.IsQuotedFrom pieces := by
  induction h with
  | @assignment _ _ name _ _ _ _ _ _ hvalue | @letFixed _ _ name _ _ _ hvalue
  | @letMutable _ _ name _ _ _ hvalue =>
    have hname : (.ident, name) ∈ pieces := hpieces (by simp [spelling])
    have hnode := hvalue.isQuoted (spelling_subset_of_part (.head _) hpieces)
    refine List.forall_mem_singleton.2 (isQuotedFrom_iff.2 ⟨hname, ?_⟩)
    exact List.forall_mem_singleton.2 hnode
  | letUnset | noElse | nil => nofun
  | ifElse hcondition _ _ _ _ ihBody ihTail =>
    have htest := hcondition.isQuoted (spelling_subset_of_part (.head _) hpieces)
    have hitems := ihBody (spelling_subset_of_part (.tail _ (.head _)) hpieces)
    have hparts := ihTail (spelling_subset_of_part (.tail _ (.tail _ (.head _))) hpieces)
    refine List.forall_mem_singleton.2 (isQuotedFrom_iff.2 ⟨trivial, ?_⟩)
    exact List.forall_mem_cons.2
      ⟨htest, List.forall_mem_cons.2 ⟨isQuotedFrom_block hitems, hparts⟩⟩
  | elseIf hcondition _ _ _ _ ihBody ihTail =>
    have htest := hcondition.isQuoted (spelling_subset_of_part (.head _) hpieces)
    have hitems := ihBody (spelling_subset_of_part (.tail _ (.head _)) hpieces)
    have hparts := ihTail (spelling_subset_of_part (.tail _ (.tail _ (.head _))) hpieces)
    exact List.forall_mem_cons.2
      ⟨htest, List.forall_mem_cons.2 ⟨isQuotedFrom_block hitems, hparts⟩⟩
  | otherwise _ ih =>
    have hitems := ih (spelling_subset_of_part (.head _) hpieces)
    exact List.forall_mem_singleton.2 (isQuotedFrom_block hitems)
  | loop hcondition _ _ ih =>
    have htest := hcondition.isQuoted (spelling_subset_of_part (.head _) hpieces)
    have hitems := ih (spelling_subset_of_part (.tail _ (.head _)) hpieces)
    refine List.forall_mem_singleton.2 (isQuotedFrom_iff.2 ⟨trivial, ?_⟩)
    exact List.forall_mem_cons.2
      ⟨htest, List.forall_mem_singleton.2 (isQuotedFrom_block hitems)⟩
  | @output _ format arguments _ line harguments =>
    have hformat : (.stringLit, format) ∈ pieces := hpieces (by simp [spelling])
    have hparts : ∀ part ∈ (Tree.output format arguments line).parts, part.spelling ⊆ pieces :=
      fun _ hmem => spelling_subset_of_part hmem hpieces
    have hnodes := Infers.forall_nodes harguments fun argument hmem _ hnode =>
      hnode.isQuoted (hparts argument hmem)
    refine List.forall_mem_singleton.2 (isQuotedFrom_iff.2 ⟨trivial, ?_⟩)
    exact List.forall_mem_cons.2 ⟨isQuotedFrom_iff.2 ⟨hformat, nofun⟩, hnodes⟩
  | cons _ _ _ ihFirst ihOthers =>
    have hfirst := ihFirst (spelling_subset_of_part (.head _) hpieces)
    have hothers := ihOthers (List.Subset.trans (block_sublist ..).subset hpieces)
    exact List.forall_mem_append.2 ⟨hfirst, hothers⟩

/-- A declaration adds a name among the tokens. -/
theorem quoted_declare {name : String} {type : DataType} {assignable : Bool}
    (hdeclare : table.declare name type assignable = .ok after) (hname : (.ident, name) ∈ pieces) :
    ∀ found ∈ after, found ∈ table ∨ (.ident, found) ∈ pieces := by
  obtain ⟨isNew, rfl⟩ := Table.declare_ok hdeclare
  intro found hfound
  rw [Table.mem_iff, Table.names_push, List.mem_append, List.mem_singleton] at hfound
  rcases hfound with hfound | rfl
  · exact .inl hfound
  · exact .inr hname

/-- The names in the table are those of the table before and names among the tokens. -/
theorem Checks.quoted_table (h : tree.Checks table nodes after) (hpieces : tree.spelling ⊆ pieces) :
    ∀ found ∈ after, found ∈ table ∨ (.ident, found) ∈ pieces := by
  induction h with
  | assignment _ _ _ hresolve =>
    obtain ⟨_, -, ⟨-, rfl⟩ | ⟨-, -, rfl⟩⟩ := Table.resolve_ok hresolve
    · intro found hfound
      rw [Table.mem_iff, Table.names_setType] at hfound
      exact .inl hfound
    · exact fun _ => .inl
  | letFixed _ hdeclare | letUnset hdeclare | letMutable _ hdeclare =>
    exact quoted_declare hdeclare (hpieces (by simp [spelling]))
  | ifElse _ _ _ _ _ ihBody ihTail | elseIf _ _ _ _ _ ihBody ihTail =>
    have hbody := ihBody (spelling_subset_of_part (.tail _ (.head _)) hpieces)
    have htail := ihTail (spelling_subset_of_part (.tail _ (.tail _ (.head _))) hpieces)
    exact fun found hfound => (htail found hfound).elim (hbody found) .inr
  | otherwise _ ih => exact ih (spelling_subset_of_part (.head _) hpieces)
  | loop _ _ _ ih => exact ih (spelling_subset_of_part (.tail _ (.head _)) hpieces)
  | output | noElse | nil => exact fun _ => .inl
  | cons _ _ _ ihFirst ihOthers =>
    have hfirst := ihFirst (spelling_subset_of_part (.head _) hpieces)
    have hothers := ihOthers (List.Subset.trans (block_sublist ..).subset hpieces)
    exact fun found hfound => (hothers found hfound).elim (hfirst found) .inr

end Tree

end ThreeAddress
