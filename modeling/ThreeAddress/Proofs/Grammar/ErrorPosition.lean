import ThreeAddress.Proofs.Grammar.RoundTrip
import ThreeAddress.Proofs.Grammar.Viability

/-!
# Where an error is found

The reader has the correct-prefix property (`Tree.readFrom_error_position`). It reads as long as
the tokens are the beginning of some program, and no longer: the token at which it fails is the
first one with which they are not, and no token behind it has been asked for. The nesting can only
be too deep for a budget that is small beside the number of tokens.
-/

namespace ThreeAddress

open Sequence

/-- The kinds are the beginning of those of a program and the end of its file. -/
def IsViable (kinds : List TokenKind) : Prop :=
  ∃ tree : Tree, tree.Derives .program ∧ kinds <+: tree.kinds ++ [.endOfFile]

/-- The error is about the first token with which the tokens are not the beginning of a program: it
carries the text and the line of the token and is a lexical one iff the token is invalid. No token
behind it has been asked for. -/
def GrammarError.StopsAtToken (tokens : List Token) (error : GrammarError) (cursor : Cursor) :
    Prop :=
  ∃ before token after, tokens = before ++ token :: after ∧
    IsViable (before.map Token.kind) ∧ ¬IsViable ((before ++ [token]).map Token.kind) ∧
    (∃ reason, error.report = if token.kind = .invalid
      then .lexical reason token.lexeme token.line else .grammar reason token.lexeme token.line) ∧
    cursor.reads = before.length + 1 ∧ cursor.unread = after

/-- The error is about the end of the tokens: it has no text and the line of the last token. There
has been no token once when one was asked for. -/
def GrammarError.StopsAtEnd (tokens : List Token) (error : GrammarError) (cursor : Cursor) :
    Prop :=
  (∃ what : Expectation, error.report = .grammar
    ("unexpected end of input, " ++ what.phrase ++ " expected") "" (lastLine tokens)) ∧
  cursor.reads = tokens.length + 1

/-- The nesting uses up the budget, and the budget is small: ten for every token, and the rank of a
program, are always enough. -/
def GrammarError.StopsAtNesting (tokens : List Token) (budget : Nat) (error : GrammarError) :
    Prop :=
  budget < 10 * tokens.length + Phrase.program.rank ∧ error.IsTooDeep

variable {tokens others : List Token} {kinds more : List TokenKind} {budget larger : Nat}

/-- The beginning of a beginning is one. -/
theorem IsViable.of_prefix (h : IsViable more) (hkinds : kinds <+: more) : IsViable kinds := by
  obtain ⟨tree, hderives, hmore⟩ := h
  exact ⟨tree, hderives, hkinds.trans hmore⟩

/-- What can be completed to a program is the beginning of one. -/
theorem Phrase.Spells.isViable (h : Phrase.program.Spells (kinds ++ more)) : IsViable kinds := by
  obtain ⟨tree, hderives, hkinds⟩ := h
  refine ⟨tree, hderives, ?_⟩
  rw [show tree.kinds = kinds ++ more from hkinds.symm, List.append_assoc]
  exact List.prefix_append _ _

/-- No token of a program ends the file. -/
theorem Phrase.Spells.endOfFile_not_mem (h : Phrase.program.Spells kinds) :
    .endOfFile ∉ kinds := by
  obtain ⟨tree, hderives, rfl⟩ := h
  intro hmem
  obtain ⟨piece, hpiece, hkind⟩ := List.mem_map.1 hmem
  exact (hderives.proper piece hpiece).2 hkind

/-- Kinds at the front are those of as many tokens. -/
theorem KindsAt.eq_take (h : KindsAt tokens 0 kinds) :
    kinds = (tokens.take kinds.length).map Token.kind ∧ kinds.length ≤ tokens.length := by
  have hlength := h.length_le
  rw [List.drop_zero, List.length_map] at hlength
  refine ⟨?_, hlength⟩
  rw [List.map_take]
  exact List.prefix_iff_eq_take.1 h

/-- Tokens, cut at one of them. -/
theorem cut_at {position : Nat} {token : Token} (h : tokens[position]? = some token) :
    tokens = tokens.take position ++ token :: tokens.drop (position + 1) ∧
      (tokens.take position).length = position := by
  obtain ⟨hlt, rfl⟩ := List.getElem?_eq_some_iff.1 h
  rw [← List.drop_eq_getElem_cons hlt, List.take_append_drop]
  exact ⟨rfl, List.length_take_of_le (Nat.le_of_lt hlt)⟩

namespace Reader

/-- A program, which has to be followed by the end of the file. -/
def body (budget : Nat) : Reader Tree := do
  let tree ← Phrase.program.read budget
  let token ← current
  match token.kind with
  | .rbrace => throw (.unmatchedBrace token.lexeme token.line)
  | .endOfFile => return tree
  | _ => failExpecting .endOfFile

/-- A closing brace that closes nothing is an error about it. -/
theorem Walks.unmatchedBrace {deep : Prop} {wanted : List TokenKind → Prop} {position : Nat}
    {token : Token}
    (hkind : (Cursor.place tokens position).token.kind = .rbrace) (h : ∃ more, wanted more) :
    Walks tokens others deep wanted
      (throw (.unmatchedBrace (Cursor.place tokens position).token.lexeme
        (Cursor.place tokens position).token.line) : Reader Tree)
      (throw (.unmatchedBrace token.lexeme token.line)) position := by
  intro _ _
  have hat : (GrammarError.unmatchedBrace (Cursor.place tokens position).token.lexeme
      (Cursor.place tokens position).token.line).IsAt tokens position (.place tokens position) := by
    refine ⟨rfl, rfl, fun {token} htoken => ?_, fun hnone => ?_⟩
    · rw [token_place htoken] at hkind ⊢
      exact ⟨"unmatched '\x7d'", by rw [hkind]; rfl⟩
    · have hsome := getElem?_of_kind_place hkind nofun
      rw [hnone] at hsome
      cases hsome
  exact .inr ⟨[], .nil, h, hat, fun _ _ _ hlast => throw_ok.1 hlast⟩

/-- The body of a file is walked over. -/
theorem walks_body (tokens others : List Token) (h : budget ≤ larger) :
    Walks tokens others (budget < 10 * tokens.length + Phrase.program.rank) Phrase.program.Spells
      (body budget) (body larger) 0 := by
  refine (Phrase.read_walks tokens others h .program 0 id).bind
    (fun kinds h => ⟨[], by simpa using h⟩) ?_
  intro _ _ kinds h
  refine Walks.current fun token htoken => ?_
  rw [htoken]
  generalize hkind : (Cursor.place tokens _).token.kind = kind
  cases kind with
  | rbrace => exact Walks.unmatchedBrace hkind ⟨[], by simpa using h⟩
  | endOfFile => exact Walks.pure (by simpa using h)
  | _ => exact Walks.failExpecting ⟨[], by simpa using h⟩

/-- A body that has been read ends at the end of the file. -/
theorem body_ok {cursor after : Cursor} {tree : Tree} (h : body budget cursor = .ok tree after) :
    after.token.kind = .endOfFile := by
  obtain ⟨_, between, -, h⟩ := bind_ok.1 h
  obtain ⟨token, _, htoken, h⟩ := bind_ok.1 h
  obtain ⟨rfl, rfl⟩ := current_ok.1 htoken
  generalize hkind : between.token.kind = kind at h
  split at h
  · exact (throw_ok.1 h).elim
  · obtain ⟨-, rfl⟩ := pure_ok.1 h
    exact hkind
  · exact (failExpecting_ok.1 h).elim

end Reader

namespace Tree

/-- A file is read from its first token on. -/
theorem readFrom_eq (budget : Nat) (h : Readable tokens 0) :
    readFrom budget tokens = Reader.body budget (.place tokens 0) := by
  show (Reader.advance >>= fun _ => Reader.body budget) (Cursor.start tokens) = _
  exact bind_of_ok (Reader.advance_of_readable Cursor.before_start h)

/-- A file whose first token is invalid is not read. -/
theorem readFrom_of_invalid (budget : Nat) (h : ¬Readable tokens 0) :
    ∃ error cursor, readFrom budget tokens = .error error cursor ∧ error.IsAt tokens 0 cursor := by
  obtain ⟨error, cursor, hrun, hat⟩ := Reader.advance_of_invalid Cursor.before_start h
  exact ⟨error, cursor, bind_error.2 (.inl hrun), hat⟩

/-- Tokens that have been read are those of a program and its end. -/
theorem readFrom_ok {tree : Tree} {cursor : Cursor} (h : readFrom budget tokens = .ok tree cursor) :
    ∃ kinds, KindsAt tokens 0 kinds ∧ Phrase.program.Spells kinds ∧
      cursor = .place tokens kinds.length ∧ cursor.token.kind = .endOfFile := by
  by_cases hreadable : Readable tokens 0
  · rw [readFrom_eq budget hreadable] at h
    have hwalk := Reader.walks_body tokens tokens (Nat.le_refl budget) hreadable (Nat.zero_le _)
    rw [h] at hwalk
    obtain ⟨kinds, hcursor, hkinds, -, hspells, -⟩ := hwalk
    rw [Nat.zero_add] at hcursor
    exact ⟨kinds, hkinds, hspells, hcursor, Reader.body_ok h⟩
  · obtain ⟨error, after, hrun, -⟩ := readFrom_of_invalid budget hreadable
    rw [hrun] at h
    cases h

/-- Tokens that have not been read are those of the beginning of a program, up to the one that the
error is about. Together with this one they cannot be read in whatever way they go on. -/
theorem readFrom_error {error : GrammarError} {cursor : Cursor}
    (h : readFrom budget tokens = .error error cursor)
    (hdeep : ¬error.StopsAtNesting tokens budget) :
    ∃ kinds, KindsAt tokens 0 kinds ∧ (∃ more, Phrase.program.Spells (kinds ++ more)) ∧
      error.IsAt tokens kinds.length cursor ∧
      ∀ others larger, budget ≤ larger → Alike tokens others 0 kinds.length →
        ∀ tree last, readFrom larger others ≠ .ok tree last := by
  by_cases hreadable : Readable tokens 0
  · rw [readFrom_eq budget hreadable] at h
    have hwalk (others : List Token) {larger : Nat} (hle : budget ≤ larger) :=
      Reader.walks_body tokens others hle hreadable (Nat.zero_le _)
    simp only [h, Nat.zero_add] at hwalk
    obtain ⟨kinds, hkinds, hmore, hat, -⟩ := (hwalk tokens (Nat.le_refl _)).resolve_left hdeep
    refine ⟨kinds, hkinds, hmore, hat, fun others larger hle halike tree last hlast => ?_⟩
    obtain ⟨kinds', -, -, hat', hnone⟩ := (hwalk others hle).resolve_left hdeep
    have hsame : kinds.length = kinds'.length := Nat.succ.inj (hat.reads.symm.trans hat'.reads)
    have hother : Readable others 0 := by
      rwa [Readable, ← halike 0 (Nat.le_refl _) (Nat.zero_le _)]
    rw [readFrom_eq larger hother] at hlast
    exact hnone tree last (hsame ▸ halike) hlast
  · obtain ⟨error', after, hrun, hat⟩ := readFrom_of_invalid budget hreadable
    rw [hrun] at h
    cases h
    refine ⟨[], .nil, Phrase.program.exists_spells, hat, ?_⟩
    intro others larger _ halike tree last hlast
    have hother : ¬Readable others 0 := by
      rwa [Readable, ← halike 0 (Nat.le_refl _) (Nat.le_refl _)]
    obtain ⟨error, after, hrun, -⟩ := readFrom_of_invalid larger hother
    rw [hrun] at hlast
    cases hlast

/-- With the token at which the reader fails, the tokens are not the beginning of any program. -/
theorem not_isViable {position : Nat} (hlt : position < tokens.length)
    (h : ∀ others larger, budget ≤ larger → Alike tokens others 0 position →
      ∀ tree last, readFrom larger others ≠ .ok tree last) :
    ¬IsViable ((tokens.take (position + 1)).map Token.kind) := by
  rintro ⟨tree, hderives, rest, hprefix⟩
  let read := tree.spelling.map fun piece => (⟨piece.1, piece.2, 1⟩ : Token)
  let last : Token := ⟨.endOfFile, "", 1⟩
  have hread : read.map Token.piece = tree.spelling := by
    rw [List.map_map]
    exact List.map_id' _
  have hlast : last.kind = .endOfFile := rfl
  have hkinds : (read ++ [last]).map Token.kind = tree.kinds ++ [.endOfFile] := by
    rw [List.map_append, List.map_map]
    rfl
  have halike : Alike tokens (read ++ [last]) 0 position := by
    intro index _ hle
    have hlength : index < ((tokens.take (position + 1)).map Token.kind).length := by
      rw [List.length_map, List.length_take]
      omega
    rw [← List.getElem?_map, ← List.getElem?_map, hkinds, ← hprefix,
      List.getElem?_append_left hlength, List.map_take,
      List.getElem?_take_of_lt (Nat.lt_succ_of_le hle)]
  rcases hderives.readFrom (max budget (Phrase.program.need tree)) hread hlast with
    ⟨result, cursor, hrun, -⟩ | ⟨hneed, -⟩
  · exact h _ _ (Nat.le_max_left _ _) halike _ _ hrun
  · exact absurd hneed (Nat.not_lt.2 (Nat.le_max_right _ _))

/-- Reading ends at the first end token. -/
theorem cut_of_readFrom_ok {tree : Tree} {cursor : Cursor}
    (h : readFrom budget tokens = .ok tree cursor) :
    ∃ before last after, tokens = before ++ last :: after ∧
      (∀ token ∈ before, token.kind ≠ .endOfFile) ∧ last.kind = .endOfFile ∧
      cursor.reads = before.length + 1 ∧ cursor.unread = after := by
  obtain ⟨kinds, hkinds, hspells, rfl, hend⟩ := readFrom_ok h
  obtain ⟨last, hlast, hkind⟩ := Option.map_eq_some_iff.1 (getElem?_of_kind_place hend nofun)
  obtain ⟨htokens, hlength⟩ := cut_at hlast
  refine ⟨_, last, _, htokens, fun token hmem hkind => ?_, hkind, ?_, rfl⟩
  · refine hspells.endOfFile_not_mem ?_
    rw [hkinds.eq_take.1, ← hkind]
    exact List.mem_map_of_mem hmem
  · rw [hlength]
    rfl

/-- A reader that fails, and not because of a small budget, has stopped at a token that does not
fit, or at the end of tokens that fit. -/
theorem stops_of_readFrom_error {error : GrammarError} {cursor : Cursor}
    (h : readFrom budget tokens = .error error cursor)
    (hdeep : ¬error.StopsAtNesting tokens budget) :
    error.StopsAtToken tokens cursor ∨ (IsViable (tokens.map Token.kind) ∧
      (∀ token ∈ tokens, token.kind ≠ .endOfFile) ∧ error.StopsAtEnd tokens cursor) := by
  obtain ⟨kinds, hkinds, ⟨more, hmore⟩, hat, hnone⟩ := readFrom_error h hdeep
  obtain ⟨htake, hle⟩ := hkinds.eq_take
  cases htoken : tokens[kinds.length]? with
  | some token =>
    obtain ⟨htokens, hlength⟩ := cut_at htoken
    have hviable := not_isViable (List.getElem?_eq_some_iff.1 htoken).1 hnone
    rw [List.take_add_one, htoken] at hviable
    refine .inl ⟨_, token, _, htokens, htake ▸ hmore.isViable, hviable, hat.token htoken, ?_,
      hat.unread⟩
    rw [hat.reads, hlength]
  | none =>
    have hall : kinds.length = tokens.length :=
      Nat.le_antisymm hle (List.getElem?_eq_none_iff.1 htoken)
    rw [hall, List.take_length] at htake
    obtain ⟨what, rfl⟩ := hat.ended htoken
    refine .inr ⟨htake ▸ hmore.isViable, fun token hmem hkind => ?_, ⟨what, rfl⟩, ?_⟩
    · refine hmore.endOfFile_not_mem (List.mem_append_left _ ?_)
      rw [htake, ← hkind]
      exact List.mem_map_of_mem hmem
    · rw [hat.reads, hall]

/-- The reader has the correct-prefix property.

When it succeeds, it has asked for the tokens up to the first end token and for no others. When it
fails, and not because of the nesting, it has stopped at the first token with which the tokens are
not the beginning of a program, or at the end of the tokens because they all are one and none of
them ends the file. And whenever they are like that, it does stop at their end. The nesting is a
reason only if the budget is small beside the number of tokens. -/
theorem readFrom_error_position (budget : Nat) (tokens : List Token) :
    (∀ tree cursor, readFrom budget tokens = .ok tree cursor →
      ∃ before last after, tokens = before ++ last :: after ∧
        (∀ token ∈ before, token.kind ≠ .endOfFile) ∧ last.kind = .endOfFile ∧
        cursor.reads = before.length + 1 ∧ cursor.unread = after) ∧
    (∀ error cursor, readFrom budget tokens = .error error cursor →
      error.StopsAtNesting tokens budget ∨ error.StopsAtToken tokens cursor ∨
        (IsViable (tokens.map Token.kind) ∧ (∀ token ∈ tokens, token.kind ≠ .endOfFile) ∧
          error.StopsAtEnd tokens cursor)) ∧
    (IsViable (tokens.map Token.kind) → (∀ token ∈ tokens, token.kind ≠ .endOfFile) →
      ∃ error cursor, readFrom budget tokens = .error error cursor ∧
        (error.StopsAtNesting tokens budget ∨ error.StopsAtEnd tokens cursor)) := by
  refine ⟨fun _ _ => cut_of_readFrom_ok, fun error cursor hrun => ?_, fun hviable hend => ?_⟩
  · by_cases hdeep : error.StopsAtNesting tokens budget
    · exact .inl hdeep
    · exact .inr (stops_of_readFrom_error hrun hdeep)
  cases hrun : readFrom budget tokens with
  | ok tree cursor =>
    obtain ⟨before, last, after, htokens, -, hlast, -⟩ := cut_of_readFrom_ok hrun
    exact absurd hlast (hend last (htokens ▸ List.mem_append_right _ (.head _)))
  | error error cursor =>
    refine ⟨error, cursor, rfl, ?_⟩
    by_cases hdeep : error.StopsAtNesting tokens budget
    · exact .inl hdeep
    rcases stops_of_readFrom_error hrun hdeep with hstops | ⟨-, -, hstops⟩
    · obtain ⟨before, token, after, rfl, -, hnot, -⟩ := hstops
      refine absurd (hviable.of_prefix ⟨after.map Token.kind, ?_⟩) hnot
      rw [← List.map_append, List.append_assoc]
      rfl
    · exact .inr hstops

/-- The reader stops at the semicolon, and does not ask for the name behind it. -/
example : readFrom 12 [⟨.ident, "x", 1⟩, ⟨.assign, "=", 1⟩, ⟨.semicolon, ";", 2⟩,
      ⟨.ident, "y", 3⟩] = .error (.expected .expression ";" 2)
    ⟨some ⟨.semicolon, ";", 2⟩, [⟨.ident, "y", 3⟩], 2, 3⟩ := rfl

end Tree

end ThreeAddress
