import ThreeAddress.Proofs.Grammar.Derivation
import ThreeAddress.Proofs.Text.Breaks
import ThreeAddress.Proofs.Token.Partition

/-!
# Tokens that are written apart

Tokens written one behind the other, with blanks or line feeds between any two, are found again
(`tokenize_printed`). What one of them is does not depend on the others: in front of a blank and at
the end of a line each is the longest match, and none of them begins a comment or holds a line
break.
-/

namespace ThreeAddress

open Text

/-- Tokens, written one behind the other with separators between them. -/
def printed : List Piece → List String → String
  | [], _ => ""
  | piece :: pieces, [] => piece.2 ++ printed pieces []
  | piece :: pieces, separator :: separators => piece.2 ++ separator ++ printed pieces separators

/-- How many line feeds are written in front of a token. -/
def feedsBefore (pieces : List Piece) (separators : List String) (index : Nat) : Nat :=
  (printed (pieces.take index) (separators.take index)).toList.count '\n'

/-- A separator: blanks and line feeds, at least one of them. -/
def IsSeparator (text : String) : Prop := text ≠ "" ∧ ∀ c ∈ text.toList, c = ' ' ∨ c = '\n'

instance (text : String) : Decidable (IsSeparator text) :=
  have := List.decidableBAll (fun c => c = ' ' ∨ c = '\n') text.toList
  inferInstanceAs (Decidable (_ ∧ _))

/-- A token of some source, other than the end token and an invalid one. -/
def Piece.IsProper (piece : Piece) : Prop :=
  piece.1 ≠ .endOfFile ∧ piece.1 ≠ .invalid ∧
    ∃ source, ∃ token ∈ tokenize source, token.piece = piece

section
variable {line : Line} {kind : TokenKind} {lexeme rest text : List Char}

/-! ## One token -/

/-- No text is admitted for the end of a text, or where nothing is found. -/
theorem TokenKind.Admits.kind_ne (h : kind.Admits lexeme) :
    kind ≠ .endOfFile ∧ kind ≠ .invalid := by
  constructor <;> rintro rfl <;> cases h with
  | spelled h => cases h

/-- A token is no beginning of a comment, unless a slash follows. -/
theorem TokenKind.Admits.not_isComment (h : kind.Admits lexeme) (hrest : rest.head? ≠ some '/') :
    ¬IsComment (lexeme ++ rest) := by
  obtain ⟨c, others, rfl⟩ := h.exists_cons
  rw [List.cons_append, isComment_cons]
  rintro ⟨rfl, hhead⟩
  obtain rfl : others = [] := by
    cases h with
    | spelled h =>
      cases kind <;> cases h
      rfl
    | name hc | whole hc | point hc => exact absurd hc (by decide)
    | truth h => exact absurd (word_of_mem_truthWords h).1 (by decide)
  exact hrest hhead

/-- In front of a blank and at the end of a line a token is found again. -/
theorem scanLine_append (h : kind.Admits lexeme) (hrest : ∀ d ∈ rest.head?, d = ' ') :
    scanLine line 0 (lexeme ++ rest) =
      ⟨kind, String.ofList lexeme, line⟩ :: scanLine line 0 rest := by
  refine scanLine_token (h.not_isComment fun hhead => ?_) (h.isLongest hrest)
  exact absurd (hrest '/' hhead) (by decide)

/-- In front of a separator and at the end of a text a token is found again. -/
theorem scanLines_append (h : kind.Admits lexeme) (hunbroken : ∀ c ∈ lexeme, isLineBreak c = false)
    (htext : ∀ d ∈ text.head?, d = ' ' ∨ d = '\n') :
    scanLines line (splitLines (lexeme ++ text)) =
      ⟨kind, String.ofList lexeme, line⟩ :: scanLines line (splitLines text) := by
  have hfirst (first : List Char) (others : List (List Char))
      (hblank : ∀ d ∈ first.head?, d = ' ') :
      scanLines line (lexeme.foldr consLine (first :: others)) =
        ⟨kind, String.ofList lexeme, line⟩ :: scanLines line (first :: others) := by
    rw [foldr_consLine_cons, scanLines, scanLines, scanLine_append h hblank, List.cons_append]
  rw [splitLines_append hunbroken]
  cases text with
  | nil =>
    obtain ⟨c, others, rfl⟩ := h.exists_cons
    rw [splitLines, foldr_consLine_nil (List.cons_ne_nil c others)]
    have hlast := hfirst [] [] (by simp)
    rwa [foldr_consLine_cons, List.append_nil] at hlast
  | cons d text =>
    rcases htext d rfl with rfl | rfl
    · rw [splitLines_cons (by decide)]
      cases splitLines text with
      | nil => exact hfirst [' '] [] (by simp)
      | cons first others => exact hfirst (' ' :: first) others (by simp)
    · rw [splitLines_feed]
      exact hfirst [] _ (by simp)

/-! ## One separator -/

/-- A blank in front of a text adds no token. -/
theorem scanLines_consLine {c : Char} (hc : isBlank c = true) (texts : List (List Char)) :
    scanLines line (consLine c texts) = scanLines line texts := by
  have hfirst (first : List Char) : scanLine line 0 (c :: first) = scanLine line 0 first := by
    rw [scanLine, if_pos hc]
  cases texts with
  | nil => exact congrArg (· ++ []) (hfirst [])
  | cons first others => exact congrArg (· ++ scanLines (line + 1) others) (hfirst first)

/-- A separator adds no token, and its line feeds move on what follows it. -/
theorem scanLines_separator {separator : List Char} (h : ∀ c ∈ separator, c = ' ' ∨ c = '\n') :
    scanLines line (splitLines (separator ++ text)) =
      scanLines (line + (separator.count '\n' : Nat)) (splitLines text) := by
  induction separator generalizing line with
  | nil => rw [List.nil_append, List.count_nil, Int.natCast_zero, Int.add_zero]
  | cons c separator ih =>
    obtain ⟨hc, hseparator⟩ := List.forall_mem_cons.1 h
    rw [List.cons_append]
    rcases hc with rfl | rfl
    · rw [splitLines_cons (by decide), scanLines_consLine (by decide), ih hseparator,
        List.count_cons_of_ne (by decide)]
    · rw [splitLines_feed, scanLines, ih hseparator, List.count_cons_self, line_succ]
      rfl

end

/-! ## All tokens -/

/-- The proper tokens are those of a kind that admits their text, without line breaks. -/
theorem Piece.isProper_iff {piece : Piece} :
    piece.IsProper ↔ piece.1.Admits piece.2.toList ∧ IsUnbroken piece.2 := by
  constructor
  · rintro ⟨hinner, hvalid, source, token, hmem, rfl⟩
    obtain ⟨hlexeme, hunbroken⟩ := isLexeme_of_mem_tokenize hmem
    exact ⟨hlexeme.admits hvalid hinner, hunbroken⟩
  · rintro ⟨hadmits, hunbroken⟩
    refine ⟨hadmits.kind_ne.1, hadmits.kind_ne.2, piece.2, ⟨piece.1, piece.2, 1⟩, ?_, rfl⟩
    have hscan : scanLines 1 (splitLines (piece.2.toList ++ [])) =
        [⟨piece.1, String.ofList piece.2.toList, 1⟩] := scanLines_append hadmits hunbroken nofun
    rw [List.append_nil, String.ofList_toList] at hscan
    rw [tokenize, hscan]
    exact .head _

section
variable {piece : Piece} {pieces : List Piece} {separator : String} {separators : List String}

/-- Behind a token and a separator, the line feeds of the separator are in front. -/
theorem feedsBefore_succ (hunbroken : IsUnbroken piece.2) (index : Nat) :
    feedsBefore (piece :: pieces) (separator :: separators) (index + 1) =
      separator.toList.count '\n' + feedsBefore pieces separators index := by
  have hnone : piece.2.toList.count '\n' = 0 :=
    List.count_eq_zero.2 fun hmem => absurd (hunbroken '\n' hmem) (by decide)
  rw [feedsBefore, List.take_succ_cons, List.take_succ_cons, printed, String.toList_append,
    String.toList_append, List.count_append, List.count_append, hnone, Nat.zero_add, feedsBefore]

/-- The tokens are found again, from any line on. -/
theorem scanLines_printed (hpieces : ∀ piece ∈ pieces, piece.IsProper)
    (hseparators : ∀ separator ∈ separators, IsSeparator separator)
    (hcount : separators.length = pieces.length - 1) (line : Line) :
    scanLines line (splitLines (printed pieces separators).toList) =
      pieces.mapIdx fun index piece =>
        ⟨piece.1, piece.2, line + feedsBefore pieces separators index⟩ := by
  induction pieces generalizing separators line with
  | nil => rfl
  | cons piece pieces ih =>
    obtain ⟨hpiece, hpieces⟩ := List.forall_mem_cons.1 hpieces
    obtain ⟨hadmits, hunbroken⟩ := Piece.isProper_iff.1 hpiece
    rw [List.length_cons, Nat.add_sub_cancel] at hcount
    cases separators with
    | nil =>
      -- Without a separator this is the last token, and the text ends behind it.
      obtain rfl : pieces = [] := List.length_eq_zero_iff.1 hcount.symm
      have hend : ∀ d ∈ (printed [] []).toList.head?, d = ' ' ∨ d = '\n' := nofun
      rw [printed, String.toList_append, scanLines_append hadmits hunbroken hend,
        String.ofList_toList]
      exact congrArg (fun line => [Token.mk piece.1 piece.2 line]) (Int.add_zero line).symm
    | cons separator separators =>
      -- A separator is not empty, so nothing but a blank or a line feed follows the token.
      obtain ⟨⟨hne, hchars⟩, hseparators⟩ := List.forall_mem_cons.1 hseparators
      have hhead : ∀ d ∈ (separator.toList ++ (printed pieces separators).toList).head?,
          d = ' ' ∨ d = '\n' := by
        obtain ⟨c, others, hcons⟩ :=
          List.exists_cons_of_ne_nil fun hnil => hne (String.toList_eq_nil_iff.1 hnil)
        rw [hcons] at hchars ⊢
        intro d hd
        cases hd
        exact hchars c (.head _)
      have hfirst : line + (feedsBefore (piece :: pieces) (separator :: separators) 0 : Line) =
          line := Int.add_zero line
      rw [printed, String.toList_append, String.toList_append, List.append_assoc,
        scanLines_append hadmits hunbroken hhead, scanLines_separator hchars,
        ih hpieces hseparators (by rw [← hcount]; rfl), List.mapIdx_cons, String.ofList_toList,
        hfirst]
      congr 2
      funext index other
      rw [feedsBefore_succ hunbroken, Int.natCast_add, Int.add_assoc]

end

/-- Tokens that are written apart are found again, in order, with one end token behind them, each
on the line behind the line feeds in front of it. -/
theorem tokenize_printed {pieces : List Piece} {separators : List String}
    (hpieces : ∀ piece ∈ pieces, piece.IsProper)
    (hseparators : ∀ separator ∈ separators, IsSeparator separator)
    (hcount : separators.length = pieces.length - 1) :
    tokenize (printed pieces separators) =
      (pieces ++ [(TokenKind.endOfFile, "end of file")]).mapIdx fun index (piece : Piece) =>
        ⟨piece.1, piece.2, 1 + feedsBefore pieces separators index⟩ := by
  have hall : feedsBefore pieces separators pieces.length =
      (printed pieces separators).toList.count '\n' := by
    rw [feedsBefore, List.take_length, List.take_of_length_le (by omega)]
  rw [tokenize, scanLines_printed hpieces hseparators hcount, List.mapIdx_append]
  congr 1
  rw [List.mapIdx_singleton, endToken, Nat.zero_add, hall, Int.add_comm]

/-- Divisions that are written apart begin no comment, and neither do slashes in a string. -/
theorem tokenize_printed_slashes :
    let pieces : List Piece :=
      [(.slash, "/"), (.slash, "/"), (.stringLit, "\"//\""), (.floatLit, "1."), (.ident, "x")]
    let separators := [" ", "\n \n", " ", "\n"]
    (∀ piece ∈ pieces, piece.IsProper) ∧ (∀ separator ∈ separators, IsSeparator separator) ∧
      printed pieces separators = "/ /\n \n\"//\" 1.\nx" ∧
      tokenize (printed pieces separators) = [⟨.slash, "/", 1⟩, ⟨.slash, "/", 1⟩,
        ⟨.stringLit, "\"//\"", 3⟩, ⟨.floatLit, "1.", 3⟩, ⟨.ident, "x", 4⟩,
        ⟨.endOfFile, "end of file", 4⟩] := by
  intro pieces separators
  have hproduced : ∀ piece ∈ pieces, piece.1 ≠ .endOfFile ∧ piece.1 ≠ .invalid ∧
      ∃ token ∈ tokenize piece.2, token.piece = piece := by decide +kernel
  have hpieces : ∀ piece ∈ pieces, piece.IsProper := fun piece hmem =>
    let ⟨hinner, hvalid, hmem⟩ := hproduced piece hmem
    ⟨hinner, hvalid, piece.2, hmem⟩
  have hseparators : ∀ separator ∈ separators, IsSeparator separator := by decide +kernel
  exact ⟨hpieces, hseparators, by decide +kernel,
    (tokenize_printed hpieces hseparators rfl).trans (by decide +kernel)⟩

end ThreeAddress
