import ThreeAddress.Grammar.FrontEnd
import ThreeAddress.Proofs.Grammar.Soundness
import ThreeAddress.Proofs.Token.Lexemes

/-!
# Trees of sources

A source is read in one of two ways and has one tree either way. The tree is a derivation of the
grammar, and the tokens of its spelling have texts of their kinds.
-/

namespace ThreeAddress

/-- A token has a text of its kind, without line breaks. -/
def Token.IsCut (token : Token) : Prop :=
  IsLexeme token.kind token.lexeme.toList ∧
    ∀ c ∈ token.lexeme.toList, Text.isLineBreak c = false

/-- A token whose kind has one spelling was written that way. -/
theorem Token.IsCut.isSpelled {token : Token} (h : token.IsCut) : token.IsSpelled := by
  intro spelling hspelling
  obtain ⟨hlexeme, -⟩ := h
  rw [← String.toList_inj, String.toList_ofList]
  generalize token.kind = kind at hspelling hlexeme
  generalize token.lexeme.toList = text at hlexeme ⊢
  cases hlexeme with
  | spelled h => exact Option.some.inj (h.symm.trans hspelling)
  | _ => cases hspelling

/-- The tokens of a source are cut out of it. -/
theorem isCut_of_mem_tokenize {source : String} {token : Token} (h : token ∈ tokenize source) :
    token.IsCut := isLexeme_of_mem_tokenize h

/-- A token of a source whose kind has one spelling was written that way. -/
theorem isSpelled_of_mem_tokenize {source : String} {token : Token}
    (h : token ∈ tokenize source) : token.IsSpelled := (isCut_of_mem_tokenize h).isSpelled

namespace Tree

/-- Both ways to read a source give the same. -/
theorem ofSource_eq (concurrent : Bool) (budget : Nat) (source : String) :
    ofSource concurrent budget source = ofTokens budget (tokenize source) := by
  cases concurrent with
  | false => rfl
  | true =>
    show ((Exchange.start source).read budget).1 = _
    rw [Exchange.read, Exchange.feed_start, ofTokens]
    cases readFrom budget (tokenize source) <;> rfl

/-- A tree has been read iff the reader has ended with it. -/
theorem ofTokens_ok_iff {budget : Nat} {tokens : List Token} {tree : Tree} :
    ofTokens budget tokens = .ok tree ↔ ∃ cursor, readFrom budget tokens = .ok tree cursor := by
  rw [ofTokens]
  cases readFrom budget tokens <;> simp

/-- A tree that has been read is a derivation, and its tokens are among those read. -/
theorem derives_of_ofTokens {budget : Nat} {tokens : List Token} {tree : Tree}
    (hspelled : ∀ token ∈ tokens, token.IsSpelled) (h : ofTokens budget tokens = .ok tree) :
    tree.Derives .program ∧ tree.spelling.Sublist (tokens.map (·.piece)) := by
  obtain ⟨cursor, hread⟩ := ofTokens_ok_iff.1 h
  obtain ⟨hspans, -⟩ := spans_of_readFrom hspelled hread
  refine ⟨hspans.derives, ?_⟩
  rw [← hspans.stands.take]
  exact ((List.take_sublist _ _).trans (List.drop_sublist _ _)).map _

/-- The tokens of a tree have texts of their kinds, without line breaks, and there are at most so
many of them in front of the end. -/
structure IsCut (bound : Nat) (tree : Tree) : Prop where
  lexemes : ∀ piece ∈ tree.spelling, IsLexeme piece.1 piece.2.toList ∧
    ∀ c ∈ piece.2.toList, Text.isLineBreak c = false
  length_le : tree.spelling.length ≤ bound + 1

/-- A tree whose tokens are among those of a cut one is cut. -/
theorem IsCut.mono {bound : Nat} {tree part : Tree} (h : tree.IsCut bound)
    (hpart : part.spelling.Sublist tree.spelling) : part.IsCut bound :=
  ⟨fun piece hpiece => h.lexemes piece (hpart.subset hpiece),
    Nat.le_trans hpart.length_le h.length_le⟩

/-- A part of a cut tree is cut. -/
theorem IsCut.part {bound : Nat} {tree part : Tree} (h : tree.IsCut bound)
    (hpart : part ∈ tree.parts) : part.IsCut bound :=
  h.mono (spelling_sublist part hpart)

/-- The tree of tokens is a derivation, and its tokens are among those. -/
theorem cut_of_ofTokens {bound budget : Nat} {tokens : List Token} {tree : Tree}
    (hcut : ∀ token ∈ tokens, token.IsCut) (hlength : tokens.length ≤ bound + 1)
    (h : ofTokens budget tokens = .ok tree) : tree.Derives .program ∧ tree.IsCut bound := by
  obtain ⟨hderives, htokens⟩ :=
    derives_of_ofTokens (fun token hmem => (hcut token hmem).isSpelled) h
  refine ⟨hderives, fun piece hpiece => ?_, ?_⟩
  · obtain ⟨token, htoken, rfl⟩ := List.mem_map.1 (htokens.subset hpiece)
    exact hcut token htoken
  · have hspelling := htokens.length_le
    rw [List.length_map] at hspelling
    exact Nat.le_trans hspelling hlength

/-- The tree of a source is a derivation, and its tokens are cut out of the source. -/
theorem derives_of_ofSource {concurrent : Bool} {budget : Nat} {source : String} {tree : Tree}
    (h : ofSource concurrent budget source = .ok tree) :
    tree.Derives .program ∧ tree.IsCut source.length := by
  rw [ofSource_eq] at h
  exact cut_of_ofTokens (fun _ => isCut_of_mem_tokenize) (length_tokenize_le source) h

end Tree

end ThreeAddress
