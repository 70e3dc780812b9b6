import ThreeAddress.Proofs.Check.Soundness
import ThreeAddress.Proofs.Code.Reading

/-!
# The texts in checked trees

The checker copies texts from the tokens of a program into the nodes. So names are words, literals
are operands, format texts are strings, and a print has fewer arguments than the source has
characters.
-/

namespace ThreeAddress

open Text

/-! ## Texts of tokens -/

variable {kind : TokenKind} {text : List Char}

/-- The text of a name is a word. -/
theorem IsLexeme.isWord (h : IsLexeme .ident text) : IsWord text := by
  cases h with
  | spelled hspelling => cases hspelling
  | name hc hrest => exact ⟨_, _, rfl, hc, hrest⟩

/-- The text of a string stands between marks. -/
theorem IsLexeme.exists_body (h : IsLexeme .stringLit text) :
    ∃ body, text = '\x22' :: (body ++ ['\x22']) := by
  cases h with
  | spelled hspelling => cases hspelling
  | string => exact ⟨_, rfl⟩

/-- A text without line breaks has no line feed. -/
theorem not_mem_of_isLineBreak (h : ∀ c ∈ text, isLineBreak c = false) : '\n' ∉ text := by
  intro hmem
  have hbreak : isLineBreak '\n' = true := rfl
  rw [h _ hmem] at hbreak
  cases hbreak

/-- There is no line feed in a word. -/
theorem Text.IsWord.not_mem (h : IsWord text) : '\n' ∉ text := by
  intro hmem
  have hblank := isBlank_of_isNameChar (h.isNameChar _ hmem)
  cases hblank

/-- The text of a literal that has a value is an operand. -/
theorem IsLexeme.isOperandText {type : DataType} (h : IsLexeme kind text)
    (hbreak : '\n' ∉ text) (hkind : Check.literalType? kind = some type) (htype : type ≠ .string) :
    IsOperandText text := by
  cases h with
  | spelled hspelling =>
    have hnone : kind.spelling? = none := by cases kind <;> first | rfl | cases hkind
    rw [hnone] at hspelling
    cases hspelling
  | name | endOfFile | invalid => cases hkind
  | yes => exact .word ⟨'t', _, rfl, rfl, by simp [isNameChar, isNameStart]⟩
  | no => exact .word ⟨'f', _, rfl, rfl, by simp [isNameChar, isNameStart]⟩
  | whole hc hrest => exact .number hc fun d hd => .inl (hrest d hd)
  | point hc hrest hfraction =>
    refine .number hc fun d hd => ?_
    rcases List.mem_append.1 hd with hd | hd
    · exact .inl (hrest d hd)
    cases hd with
    | head => exact .inr rfl
    | tail _ hd => exact .inl (hfraction d hd)
  | plain hmark hescape => exact .plain hmark hescape
  | escaped =>
    refine .escaped ?_
    rintro rfl
    simp at hbreak
  | string =>
    cases hkind
    exact absurd rfl htype

/-- A letter and a numeral are a word. -/
theorem isWord_numbered {stem : String} {c : Char} (hstem : stem.toList = [c])
    (hc : isNameStart c = true) (number : Nat) : IsWord (stem ++ toString number).toList := by
  rw [String.toList_append, hstem]
  refine ⟨c, _, rfl, hc, fun d hd => ?_⟩
  rw [isNameChar, isDigit_of_isDecimal (Scanner.isDecimal_of_mem_toString hd), Bool.or_true]

/-! ## Texts of nodes -/

namespace Node

/-- The texts in a node are words, operands and strings, and a print and its arguments are at most
so many operands. -/
def IsWritten (bound : Nat) : Node → Prop
  | assignment target _ _ _ => IsWord target.toList
  | var name _ => IsWord name.toList
  | literal lexeme _ => IsOperandText lexeme.toList ∧ '\n' ∉ lexeme.toList
  | format text _ => (∃ body, text.toList = '\x22' :: (body ++ ['\x22'])) ∧ '\n' ∉ text.toList
  | output _ arguments _ => arguments.length + 1 ≤ bound
  | _ => True

end Node

namespace Tree

variable {bound : Nat} {tree : Tree} {table after : Table} {node : Node} {line : Line}

/-- The name of a tree that begins with a name, or with a few tokens in front of it, is a word. -/
theorem IsCut.isWord {name : String} (h : tree.IsCut bound)
    (hname : (TokenKind.ident, name) ∈ tree.spelling) : IsWord name.toList :=
  (h.lexemes _ hname).1.isWord

/-- The texts in the nodes of an expression. -/
theorem Infers.written (h : tree.Infers table node) (hcut : tree.IsCut bound) :
    ∀ part ∈ node.preorder, part.IsWritten bound := by
  induction h with
  | var => exact Node.forall_mem_preorder.2 ⟨hcut.isWord (.head _), nofun⟩
  | literal hkind htype =>
    obtain ⟨hlexeme, hbreak⟩ := hcut.lexemes _ (.head _)
    have hfeed := not_mem_of_isLineBreak hbreak
    exact Node.forall_mem_preorder.2 ⟨⟨hlexeme.isOperandText hfeed hkind htype, hfeed⟩, nofun⟩
  | input => exact Node.forall_mem_preorder.2 ⟨trivial, nofun⟩
  | group _ ih | single _ ih => exact ih (hcut.part (.head _))
  | minus _ _ ih | negation _ _ ih =>
    refine Node.forall_mem_preorder.2 ⟨trivial, List.forall_mem_singleton.2 ?_⟩
    exact ih (hcut.part (.head _))
  | comparison _ _ _ _ _ ihLeft ihRight =>
    have hleft := ihLeft (hcut.part (.head _))
    have hright := ihRight ((hcut.part (.tail _ (.head _))).part (.head _))
    exact Node.forall_mem_preorder.2
      ⟨trivial, List.forall_mem_cons.2 ⟨hleft, List.forall_mem_singleton.2 hright⟩⟩
  | joined _ _ _ _ _ ihLeft ihRight =>
    have hoperation := hcut.part (.tail _ (List.mem_append_right _ (.head _)))
    have hleft := ihLeft (hcut.mono (chain_sublist ..))
    have hright := ihRight (hoperation.part (.head _))
    exact Node.forall_mem_preorder.2
      ⟨trivial, List.forall_mem_cons.2 ⟨hleft, List.forall_mem_singleton.2 hright⟩⟩

/-- The texts in the nodes of a body. -/
theorem written_block {items : List Node} {mark : Mark}
    (h : ∀ item ∈ items, ∀ part ∈ item.preorder, part.IsWritten bound) :
    ∀ part ∈ (Node.block items mark).preorder, part.IsWritten bound :=
  Node.forall_mem_preorder.2 ⟨trivial, h⟩

/-- The texts in the nodes that a tree leaves. -/
theorem Checks.written {nodes : List Node} (h : tree.Checks table nodes after)
    (hcut : tree.IsCut bound) : ∀ node ∈ nodes, ∀ part ∈ node.preorder, part.IsWritten bound := by
  induction h with
  | assignment _ _ hvalue _ | letFixed hvalue _ | letMutable hvalue _ =>
    have hnode := hvalue.written (hcut.part (.head _))
    refine List.forall_mem_singleton.2 (Node.forall_mem_preorder.2 ⟨?_, ?_⟩)
    · exact hcut.isWord (by simp [spelling])
    · exact List.forall_mem_singleton.2 hnode
  | letUnset | noElse | nil => nofun
  | ifElse hcondition _ _ _ _ ihBody ihTail =>
    have htest := hcondition.written (hcut.part (.head _))
    have hitems := ihBody (hcut.part (.tail _ (.head _)))
    have hparts := ihTail (hcut.part (.tail _ (.tail _ (.head _))))
    refine List.forall_mem_singleton.2 (Node.forall_mem_preorder.2 ⟨trivial, ?_⟩)
    exact List.forall_mem_cons.2 ⟨htest, List.forall_mem_cons.2 ⟨written_block hitems, hparts⟩⟩
  | elseIf hcondition _ _ _ _ ihBody ihTail =>
    have htest := hcondition.written (hcut.part (.head _))
    have hitems := ihBody (hcut.part (.tail _ (.head _)))
    have hparts := ihTail (hcut.part (.tail _ (.tail _ (.head _))))
    exact List.forall_mem_cons.2 ⟨htest, List.forall_mem_cons.2 ⟨written_block hitems, hparts⟩⟩
  | otherwise _ ih =>
    exact List.forall_mem_singleton.2 (written_block (ih (hcut.part (.head _))))
  | loop hcondition _ _ ih =>
    have htest := hcondition.written (hcut.part (.head _))
    have hitems := ih (hcut.part (.tail _ (.head _)))
    refine List.forall_mem_singleton.2 (Node.forall_mem_preorder.2 ⟨trivial, ?_⟩)
    exact List.forall_mem_cons.2 ⟨htest, List.forall_mem_singleton.2 (written_block hitems)⟩
  | @output table format arguments nodes line harguments =>
    have hnodes := Infers.forall_nodes harguments fun _ hmem _ hnode =>
      hnode.written (hcut.part hmem)
    obtain ⟨hlexeme, hbreak⟩ := hcut.lexemes (.stringLit, format) (by simp [spelling])
    have hformat : (Node.format format ⟨line, .string⟩).IsWritten bound :=
      ⟨hlexeme.exists_body, not_mem_of_isLineBreak hbreak⟩
    have hcount : nodes.length + 1 ≤ bound := by
      have hlength := hcut.length_le
      rw [spelling, List.length_cons, List.length_cons] at hlength
      have hle := length_le_argumentsSpelling arguments
      rw [harguments.length_eq] at hle
      omega
    refine List.forall_mem_singleton.2 (Node.forall_mem_preorder.2 ⟨hcount, ?_⟩)
    exact List.forall_mem_cons.2 ⟨Node.forall_mem_preorder.2 ⟨hformat, nofun⟩, hnodes⟩
  | cons _ _ _ ihFirst ihOthers =>
    have hfirst := ihFirst (hcut.part (.head _))
    have hothers := ihOthers (hcut.mono (block_sublist ..))
    exact List.forall_mem_append.2 ⟨hfirst, hothers⟩

end Tree

end ThreeAddress
