import ThreeAddress.Proofs.Grammar.Derivation
import ThreeAddress.Proofs.Sequence

/-!
# Positions in a list of tokens

A reader is followed by the position of its cursor in a fixed list of tokens (`Cursor.At`), and
what it has read is told by what stands in the list from a position on (`Stands`). One spec for
each of the basic readers says where the cursor is afterwards.
-/

namespace ThreeAddress

open Sequence

variable {tokens : List Token} {position : Nat}

/-! ## What stands in a list -/

/-- The pieces are those of the tokens from the position on. -/
def Stands (tokens : List Token) : Nat → List Piece → Prop
  | _, [] => True
  | position, piece :: pieces =>
    (tokens[position]?).map Token.piece = some piece ∧ Stands tokens (position + 1) pieces

@[simp] theorem stands_nil : Stands tokens position [] ↔ True := Iff.rfl

@[simp] theorem stands_cons {piece : Piece} {pieces : List Piece} :
    Stands tokens position (piece :: pieces) ↔
      (tokens[position]?).map Token.piece = some piece ∧ Stands tokens (position + 1) pieces :=
  Iff.rfl

/-- Two rows of pieces stand one after the other. -/
@[simp] theorem stands_append {first second : List Piece} :
    Stands tokens position (first ++ second) ↔
      Stands tokens position first ∧ Stands tokens (position + first.length) second := by
  induction first generalizing position with
  | nil => simp
  | cons piece pieces ih =>
    rw [List.cons_append, stands_cons, ih, stands_cons, List.length_cons, and_assoc,
      Nat.add_assoc position 1, Nat.add_comm 1]

/-- The same position, written differently. -/
theorem Stands.move {pieces : List Piece} {position' : Nat} (h : Stands tokens position pieces)
    (heq : position = position') : Stands tokens position' pieces := heq ▸ h

/-- Pieces that stand at the front are those of as many tokens. -/
theorem Stands.take {pieces : List Piece} (h : Stands tokens position pieces) :
    ((tokens.drop position).take pieces.length).map Token.piece = pieces := by
  induction pieces generalizing position with
  | nil => simp
  | cons piece pieces ih =>
    obtain ⟨hhead, htail⟩ := stands_cons.1 h
    obtain ⟨token, htoken, rfl⟩ := Option.map_eq_some_iff.1 hhead
    obtain ⟨hlt, rfl⟩ := List.getElem?_eq_some_iff.1 htoken
    rw [List.drop_eq_getElem_cons hlt, List.length_cons, List.take_succ_cons, List.map_cons,
      ih htail]

/-- The tokens of a list stand at its front. -/
theorem stands_map_piece (before after : List Token) :
    Stands (before ++ after) 0 (before.map Token.piece) := by
  suffices h : ∀ skipped : List Token,
      Stands (skipped ++ before ++ after) skipped.length (before.map Token.piece) by
    simpa using h []
  induction before with
  | nil => simp
  | cons token before ih =>
    intro skipped
    refine ⟨by simp, ?_⟩
    have hrest := ih (skipped ++ [token])
    simpa using hrest

/-! ## Spelled tokens -/

/-- A token of a kind with one spelling is the piece of its kind. -/
theorem Token.IsSpelled.piece_eq {token : Token} (hspelled : token.IsSpelled) {kind : TokenKind}
    {spelling : List Char} (hspelling : kind.spelling? = some spelling)
    (hkind : token.kind = kind) : token.piece = kind.piece := by
  subst hkind
  rw [Token.piece, TokenKind.piece, hspelled spelling hspelling, hspelling, Option.getD_some]

/-- Every operator is the first one with its spelling. -/
theorem TokenKind.ofSpelling_spelling :
    ∀ kind ∈ TokenKind.operators, ∀ spelling, kind.spelling? = some spelling →
      (TokenKind.operators.find? fun other => other.spelling? == some spelling) = some kind := by
  decide

/-- The text of an operator tells its kind. -/
theorem Token.IsSpelled.ofSpelling_lexeme {token : Token} (hspelled : token.IsSpelled)
    (hkind : token.kind ∈ TokenKind.operators) :
    TokenKind.ofSpelling token.lexeme = token.kind := by
  obtain ⟨spelling, hspelling⟩ : ∃ spelling, token.kind.spelling? = some spelling := by
    revert hkind
    cases token.kind <;> simp [TokenKind.operators, TokenKind.spelling?]
  rw [TokenKind.ofSpelling, hspelled spelling hspelling, String.toList_ofList,
    TokenKind.ofSpelling_spelling _ hkind _ hspelling, Option.getD_some]

/-- The operators of a level have one spelling each. -/
theorem Level.operator_of_holds {level : Level} {kind : TokenKind} (h : level.holds kind = true) :
    kind ∈ TokenKind.operators := by
  cases level <;> cases kind <;> simp_all [Level.holds, TokenKind.operators]

/-- The relational operators have one spelling each. -/
theorem TokenKind.operator_of_isRelational {kind : TokenKind} (h : kind.isRelational = true) :
    kind ∈ TokenKind.operators := by
  cases kind <;> simp_all [TokenKind.isRelational, TokenKind.operators]

/-! ## Cursors -/

/-- The cursor looks at the token at the position, and has asked for the tokens up to it. -/
structure Cursor.At (tokens : List Token) (position : Nat) (cursor : Cursor) : Prop where
  pending : cursor.current.toList ++ cursor.unread = tokens.drop position
  reads : cursor.reads = position + 1
  settled : cursor.current = none → cursor.unread = []

namespace Cursor.At

variable {cursor after : Cursor}

/-- A token that can be read is the one at the position. -/
theorem token_eq (h : cursor.At tokens position) (hvalid : cursor.token.kind ≠ .invalid) :
    tokens[position]? = some cursor.token := by
  rw [← List.head?_drop, ← h.pending]
  cases hcurrent : cursor.current with
  | none => simp [Cursor.token, hcurrent] at hvalid
  | some token => simp [Cursor.token, hcurrent]

/-- The token at the position is the one looked at. -/
theorem token_of_getElem? (h : cursor.At tokens position) {token : Token}
    (htoken : tokens[position]? = some token) : cursor.token = token := by
  rw [← List.head?_drop, ← h.pending] at htoken
  cases hcurrent : cursor.current with
  | none => simp [hcurrent, h.settled hcurrent] at htoken
  | some current => simpa [Cursor.token, hcurrent] using htoken

/-- After an advance the cursor looks at the next token. -/
theorem advance_ok (h : cursor.At tokens position) (hvalid : cursor.token.kind ≠ .invalid)
    {value : Unit} (hrun : Reader.advance cursor = .ok value after) :
    after.At tokens (position + 1) := by
  have hdrop : tokens.drop (position + 1) = cursor.unread := by
    rw [← List.tail_drop, ← h.pending]
    cases hcurrent : cursor.current with
    | none => simp [Cursor.token, hcurrent] at hvalid
    | some token => simp
  unfold Reader.advance at hrun
  cases hunread : cursor.unread with
  | nil =>
    rw [hunread] at hrun hdrop
    cases hrun
    exact ⟨by simp [hdrop], by simp [h.reads], fun _ => rfl⟩
  | cons token unread =>
    rw [hunread] at hrun hdrop
    simp only at hrun
    split at hrun
    · cases hrun
    · cases hrun
      exact ⟨by simp [hdrop], by simp [h.reads], fun hnone => by cases hnone⟩

end Cursor.At

/-- The first advance looks at the first token. -/
theorem Cursor.at_start {cursor : Cursor} {value : Unit}
    (hrun : Reader.advance (Cursor.start tokens) = .ok value cursor) : cursor.At tokens 0 := by
  unfold Reader.advance at hrun
  cases tokens with
  | nil =>
    cases hrun
    exact ⟨rfl, rfl, fun _ => rfl⟩
  | cons token tokens =>
    simp only [Cursor.start] at hrun
    split at hrun
    · cases hrun
    · cases hrun
      exact ⟨rfl, rfl, fun hnone => by cases hnone⟩

/-! ## The basic readers -/

namespace Reader

variable {cursor after : Cursor}

/-- Looking at the token changes nothing. -/
theorem current_ok {token : Token} :
    current cursor = .ok token after ↔ cursor.token = token ∧ cursor = after := by
  simp only [current, bind_ok, get_ok, pure_ok]
  constructor
  · rintro ⟨_, _, ⟨rfl, rfl⟩, rfl, rfl⟩
    exact ⟨rfl, rfl⟩
  · rintro ⟨rfl, rfl⟩
    exact ⟨cursor, cursor, ⟨rfl, rfl⟩, rfl, rfl⟩

/-- Looking at the tokens left changes nothing. -/
theorem remaining_ok {left : List Token} :
    remaining cursor = .ok left after ↔
      cursor.current.toList ++ cursor.unread = left ∧ cursor = after := by
  simp only [remaining, bind_ok, get_ok, pure_ok]
  constructor
  · rintro ⟨_, _, ⟨rfl, rfl⟩, rfl, rfl⟩
    exact ⟨rfl, rfl⟩
  · rintro ⟨rfl, rfl⟩
    exact ⟨cursor, cursor, ⟨rfl, rfl⟩, rfl, rfl⟩

/-- A reader that fails has no value. -/
theorem failExpecting_ok {Value : Type} {what : Expectation} {value : Value} :
    failExpecting what cursor = .ok value after ↔ False := by
  simp only [failExpecting, bind_ok, current_ok]
  constructor
  · rintro ⟨_, _, ⟨rfl, rfl⟩, h⟩
    split at h <;> exact throw_ok.1 h
  · exact False.elim

/-- A reader without a budget has no value. -/
theorem failTooDeep_ok {Value : Type} {value : Value} :
    failTooDeep cursor = .ok value after ↔ False := by
  simp only [failTooDeep, bind_ok, throw_ok]
  constructor
  · rintro ⟨_, _, _, h⟩
    exact h
  · exact False.elim

/-- An expected token is the one looked at, and the cursor goes on behind it. -/
theorem expect_ok (hat : cursor.At tokens position) {kind : TokenKind} (hvalid : kind ≠ .invalid)
    {what : Expectation} {token : Token} (h : expect kind what cursor = .ok token after) :
    token.kind = kind ∧ tokens[position]? = some token ∧ after.At tokens (position + 1) := by
  simp only [expect, bind_ok, current_ok] at h
  obtain ⟨_, _, ⟨rfl, rfl⟩, h⟩ := h
  split at h
  · next hkind =>
    simp only [bind_ok, pure_ok] at h
    obtain ⟨_, between, hadvance, rfl, rfl⟩ := h
    have hne : cursor.token.kind ≠ .invalid := hkind ▸ hvalid
    exact ⟨hkind, hat.token_eq hne, hat.advance_ok hne hadvance⟩
  · exact (failExpecting_ok.1 h).elim

end Reader

end ThreeAddress
