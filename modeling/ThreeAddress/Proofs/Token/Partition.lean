import ThreeAddress.Proofs.Token.LongestMatch

/-!
# A line is cut into its tokens

A line is gaps of blanks with tokens between them, each of which is the longest match where it
stands; behind the last token there is nothing, or a comment, or text that is skipped because no
kind admits how it begins (`CutsInto`). A line can be cut in one way only, and the scanner does it
(`cutsInto_iff`). In a text every line is cut on its own, and one end token follows them all
(`tokenize_cutsInto`).
-/

namespace ThreeAddress

open Text

/-- Nothing but blanks. -/
def IsGap (gap : List Char) : Prop := ∀ c ∈ gap, isBlank c = true

/-- A comment begins here. -/
def IsComment (text : List Char) : Prop := ['/', '/'] <+: text

/-- What the token says where no kind admits how a text begins: all of it if a mark opens a literal
that is not closed, and otherwise its first character. -/
def IsOffending (c : Char) (text skipped : List Char) : Prop :=
  if c = '\x22' ∨ c = '\x27' then skipped = [] else text = []

/-- How a line is cut into tokens. -/
inductive CutsInto (line : Line) : List Char → List Token → Prop where
  | nothing {gap : List Char} : IsGap gap → CutsInto line gap []
  | comment {gap text : List Char} : IsGap gap → IsComment text → CutsInto line (gap ++ text) []
  | invalid {gap text skipped : List Char} {c : Char} : IsGap gap → isBlank c = false →
      ¬IsComment (c :: (text ++ skipped)) →
      (∀ (kind : TokenKind) (lexeme : List Char), kind.Admits lexeme →
        ¬lexeme <+: c :: (text ++ skipped)) →
      IsOffending c text skipped →
      CutsInto line (gap ++ c :: (text ++ skipped)) [⟨.invalid, String.ofList (c :: text), line⟩]
  | token {gap lexeme rest : List Char} {kind : TokenKind} {tokens : List Token} : IsGap gap →
      ¬IsComment (lexeme ++ rest) → IsLongest kind lexeme (lexeme ++ rest) →
      CutsInto line rest tokens →
      CutsInto line (gap ++ (lexeme ++ rest)) (⟨kind, String.ofList lexeme, line⟩ :: tokens)

/-- A comment begins with two slashes. -/
theorem isComment_cons {c : Char} {rest : List Char} :
    IsComment (c :: rest) ↔ c = '/' ∧ rest.head? = some '/' := by
  cases rest <;> simp [IsComment, eq_comm]

section
variable {line : Line} {gap text rest : List Char} {tokens : List Token} {c : Char}

/-! ## Cutting as the scanner does -/

/-- A gap may be empty. -/
theorem isGap_nil : IsGap [] := nofun

/-- A gap may begin with one more blank. -/
theorem CutsInto.blank (hc : isBlank c = true) (h : CutsInto line text tokens) :
    CutsInto line (c :: text) tokens := by
  have hcons {gap : List Char} (hgap : IsGap gap) : IsGap (c :: gap) :=
    List.forall_mem_cons.2 ⟨hc, hgap⟩
  cases h with
  | nothing hgap => exact .nothing (hcons hgap)
  | comment hgap hcomment => exact .comment (hcons hgap) hcomment
  | invalid hgap hblank hcomment hnone hoffending =>
    exact .invalid (hcons hgap) hblank hcomment hnone hoffending
  | token hgap hcomment hlongest htokens => exact .token (hcons hgap) hcomment hlongest htokens

/-- What offends is told by the text. -/
theorem IsOffending.unique {first second skipped skipped' : List Char}
    (h : IsOffending c first skipped) (h' : IsOffending c second skipped')
    (hsame : first ++ skipped = second ++ skipped') : first = second := by
  rw [IsOffending] at h h'
  split at h
  · next hmark =>
    rw [if_pos hmark] at h'
    rwa [h, h', List.append_nil, List.append_nil] at hsame
  · next hmark =>
    rw [if_neg hmark] at h'
    rw [h, h']

/-- A string that is not closed takes up the line. -/
theorem stringFront_invalid (h : (stringFront rest).1 = .invalid) :
    (stringFront rest).2 = rest.length := by
  simp only [stringFront] at h ⊢
  split at h
  · cases h
  · next hclosed => rw [if_neg hclosed]

/-- A character that is not closed takes up the line. -/
theorem charFront_invalid (h : (charFront rest).1 = .invalid) :
    (charFront rest).2 = rest.length := by
  unfold charFront at h ⊢
  split at h
  · cases h
  · split at h
    · next hmark => rw [if_pos hmark]
    · cases h
  · rfl

/-- A character that begins no operator stands alone. -/
theorem operatorFront_invalid (h : (operatorFront c rest).1 = .invalid) :
    (operatorFront c rest).2 = 0 := by
  unfold operatorFront at h ⊢
  split at h
  · next kind hfind =>
    obtain rfl : kind = .invalid := h
    obtain ⟨_, hspelling, -⟩ := spelling?_of_operatorAt? hfind
    cases hspelling
  · rfl

/-- Where nothing is found, the token says what offends. -/
theorem isOffending_front (h : (front c rest).1 = .invalid) :
    IsOffending c (rest.take (front c rest).2) (rest.drop (front c rest).2) := by
  have hstart : ¬isNameStart c = true := fun hstart => by
    rw [front_word hstart] at h
    exact wordKind_ne_invalid _ h
  have hdigit : ¬isDigit c = true := fun hdigit => by
    rw [front_number hdigit] at h
    exact numberFront_ne_invalid _ h
  rw [front, if_neg hstart, if_neg hdigit] at h ⊢
  rw [IsOffending]
  split at h
  · next hmark =>
    rw [if_pos (.inl hmark), if_pos hmark, stringFront_invalid h, List.drop_length]
  split at h
  · next hstring hmark =>
    rw [if_pos (.inr hmark), if_neg hstring, if_pos hmark, charFront_invalid h, List.drop_length]
  · next hstring hchar =>
    rw [if_neg (by simp [hstring, hchar]), if_neg hstring, if_neg hchar, operatorFront_invalid h,
      List.take_zero]

/-- The scanner cuts a line into its tokens. -/
theorem scanLine_cutsInto (line : Line) (skip : Nat) (text : List Char) :
    CutsInto line (text.drop skip) (scanLine line skip text) := by
  induction text generalizing skip with
  | nil =>
    rw [List.drop_nil]
    cases skip <;> exact .nothing nofun
  | cons c rest ih =>
    cases skip with
    | succ skip => exact ih skip
    | zero =>
      rw [List.drop_zero]
      simp only [scanLine]
      split
      · next hblank => exact (ih 0).blank hblank
      split
      · next hcomment => exact .comment isGap_nil (isComment_cons.2 hcomment)
      next hblank hcomment =>
      rw [← isComment_cons] at hcomment
      -- What is found and what is behind it make up the text again, found or not.
      have hcut : c :: rest =
          c :: (rest.take (front c rest).2 ++ rest.drop (front c rest).2) := by
        rw [List.take_append_drop]
      split
      · next hinvalid =>
        have hnone := front_eq_invalid_iff.1 hinvalid
        have hoffending := isOffending_front hinvalid
        rw [hcut] at hcomment hnone ⊢
        rw [hinvalid]
        exact .invalid isGap_nil (by simpa using hblank) hcomment hnone hoffending
      · next hvalid =>
        have hlongest := front_isLongest hvalid
        rw [hcut] at hcomment hlongest ⊢
        exact .token isGap_nil hcomment hlongest (ih _)

/-! ## No other way to cut -/

/-- The scanner passes over a gap. -/
theorem scanLine_gap (hgap : IsGap gap) (text : List Char) :
    scanLine line 0 (gap ++ text) = scanLine line 0 text := by
  induction gap with
  | nil => rfl
  | cons c gap ih =>
    obtain ⟨hc, hgap⟩ := List.forall_mem_cons.1 hgap
    rw [List.cons_append, scanLine, if_pos hc, ih hgap]

/-- The scanner stops at a comment. -/
theorem scanLine_comment (h : IsComment text) : scanLine line 0 text = [] := by
  obtain ⟨rest, rfl⟩ := h
  rfl

/-- The scanner takes the longest match. -/
theorem scanLine_token {kind : TokenKind} {lexeme : List Char}
    (hcomment : ¬IsComment (lexeme ++ rest))
    (hlongest : IsLongest kind lexeme (lexeme ++ rest)) :
    scanLine line 0 (lexeme ++ rest) =
      ⟨kind, String.ofList lexeme, line⟩ :: scanLine line 0 rest := by
  obtain ⟨c, others, rfl⟩ := hlongest.admits.exists_cons
  rw [List.cons_append] at hlongest hcomment ⊢
  have hvalid : (front c (others ++ rest)).1 ≠ .invalid := fun hinvalid =>
    front_eq_invalid_iff.1 hinvalid kind _ hlongest.admits hlongest.begins
  obtain ⟨rfl, hlexeme⟩ := hlongest.unique (front_isLongest hvalid)
  have htake : (others ++ rest).take (front c (others ++ rest)).2 = others :=
    (List.cons.inj hlexeme).2.symm
  have hdrop : (others ++ rest).drop (front c (others ++ rest)).2 = rest := by
    have hcut := List.take_append_drop (front c (others ++ rest)).2 (others ++ rest)
    rw [htake] at hcut
    exact List.append_cancel_left hcut
  have hblank := hlongest.admits.isBlank_head
  rw [isComment_cons] at hcomment
  rw [scanLine, if_neg (by simp [hblank]), if_neg hcomment]
  simp only [htake, if_neg hvalid]
  rw [scanLine_eq_drop, hdrop]

/-- The scanner gives up a line where no kind admits how it goes on. -/
theorem scanLine_invalid {skipped : List Char} (hblank : isBlank c = false)
    (hcomment : ¬IsComment (c :: (text ++ skipped)))
    (hnone : ∀ (kind : TokenKind) (lexeme : List Char), kind.Admits lexeme →
      ¬lexeme <+: c :: (text ++ skipped))
    (hoffending : IsOffending c text skipped) :
    scanLine line 0 (c :: (text ++ skipped)) = [⟨.invalid, String.ofList (c :: text), line⟩] := by
  have hinvalid := front_eq_invalid_iff.2 hnone
  have htake : (text ++ skipped).take (front c (text ++ skipped)).2 = text :=
    (isOffending_front hinvalid).unique hoffending (List.take_append_drop _ _)
  rw [isComment_cons] at hcomment
  rw [scanLine, if_neg (by simp [hblank]), if_neg hcomment]
  simp only [htake, hinvalid, if_true]

/-- A line is cut in one way only, and the scanner does it. -/
theorem cutsInto_iff : CutsInto line text tokens ↔ tokens = scanLine line 0 text := by
  constructor
  · intro h
    induction h with
    | @nothing gap hgap =>
      rw [← gap.append_nil, scanLine_gap hgap]
      rfl
    | comment hgap hcomment => rw [scanLine_gap hgap, scanLine_comment hcomment]
    | invalid hgap hblank hcomment hnone hoffending =>
      rw [scanLine_gap hgap, scanLine_invalid hblank hcomment hnone hoffending]
    | token hgap hcomment hlongest _ ih =>
      rw [scanLine_gap hgap, scanLine_token hcomment hlongest, ih]
  · rintro rfl
    exact scanLine_cutsInto line 0 text

end

/-! ## The lines of a text -/

section
variable {line : Line} {texts : List (List Char)} {token : Token}

/-- The tokens of a line stand on it. -/
theorem line_of_mem_scanLine {skip : Nat} {text : List Char}
    (h : token ∈ scanLine line skip text) : token.line = line := by
  obtain ⟨c, rest, -, rfl⟩ := exists_front_of_mem_scanLine h
  rfl

/-- The tokens of lines stand on these lines. -/
theorem line_of_mem_scanLines (h : token ∈ scanLines line texts) :
    line ≤ token.line ∧ token.line < line + texts.length := by
  obtain ⟨index, text, htext, h⟩ := mem_scanLines_iff.1 h
  have hindex : index < texts.length := (List.getElem?_eq_some_iff.1 htext).1
  rw [line_of_mem_scanLine h]
  dsimp only [Line]
  omega

/-- The tokens on one of several lines are those of this line. -/
theorem filter_scanLines {index : Nat} {text : List Char} (h : texts[index]? = some text) :
    (scanLines line texts).filter (fun token => token.line = line + index) =
      scanLine (line + index) 0 text := by
  induction texts generalizing line index with
  | nil => cases h
  | cons first texts ih =>
    rw [scanLines, List.filter_append]
    cases index with
    | zero =>
      obtain rfl := Option.some.inj h
      have hline : line + (0 : Nat) = line := Int.add_zero line
      have hfirst : ∀ token ∈ scanLine line 0 first, decide (token.line = line) = true :=
        fun token hmem => decide_eq_true (line_of_mem_scanLine hmem)
      have hothers : ∀ token ∈ scanLines (line + 1) texts, ¬decide (token.line = line) = true := by
        intro token hmem
        have hlater : line < token.line := (line_of_mem_scanLines hmem).1
        simpa using Int.ne_of_gt hlater
      rw [hline, List.filter_eq_self.2 hfirst, List.filter_eq_nil_iff.2 hothers, List.append_nil]
    | succ index =>
      have hfirst : ∀ token ∈ scanLine line 0 first,
          ¬decide (token.line = line + 1 + (index : Line)) = true := by
        intro token hmem
        rw [line_of_mem_scanLine hmem, decide_eq_true_eq]
        dsimp only [Line]
        omega
      rw [← line_succ, List.filter_eq_nil_iff.2 hfirst, List.nil_append]
      exact ih h

end

/-- Every text is cut into tokens line by line, by longest match. Behind all other tokens there is
one end token. The other tokens stand on the lines of the text, and those on a line are the only
ones that this line can be cut into. -/
theorem tokenize_cutsInto (source : String) :
    (∃ tokens last, tokenize source = tokens ++ [last] ∧ last.kind = .endOfFile ∧
      ∀ token ∈ tokens, token.kind ≠ .endOfFile ∧ 1 ≤ token.line ∧
        token.line ≤ ((splitLines source.toList).length : Line)) ∧
    ∀ (index : Nat) (text : List Char), (splitLines source.toList)[index]? = some text →
      ∀ tokens, CutsInto (index + 1) text tokens ↔
        tokens = (tokenize source).filter fun token =>
          token.kind ≠ .endOfFile ∧ token.line = (index + 1 : Line) := by
  refine ⟨⟨_, _, rfl, rfl, fun token hmem => ?_⟩, fun index text htext tokens => ?_⟩
  · obtain ⟨hfirst, hlast⟩ := line_of_mem_scanLines hmem
    refine ⟨kind_ne_endOfFile_of_mem_scanLines hmem, hfirst, ?_⟩
    dsimp only [Line] at *
    omega
  · have hend : [endToken source.toList].filter (fun token : Token =>
        token.kind ≠ .endOfFile ∧ token.line = (index + 1 : Line)) = [] := by
      simp [endToken]
    have hinner : (scanLines 1 (splitLines source.toList)).filter (fun token : Token =>
          token.kind ≠ .endOfFile ∧ token.line = (index + 1 : Line)) =
        (scanLines 1 (splitLines source.toList)).filter fun token : Token =>
          token.line = (1 + index : Line) := by
      refine List.filter_congr fun token hmem => ?_
      have hkind := kind_ne_endOfFile_of_mem_scanLines hmem
      simp [hkind, Int.add_comm]
    rw [tokenize, List.filter_append, hend, List.append_nil, hinner, filter_scanLines htext,
      Int.add_comm, cutsInto_iff]

/-- Of three ampersands the first two are an operator, and the third begins nothing. -/
theorem tokenize_cutsInto_ampersands :
    CutsInto 2 "a &&&b".toList [⟨.ident, "a", 2⟩, ⟨.and, "&&", 2⟩, ⟨.invalid, "&", 2⟩] :=
  ((tokenize_cutsInto "let x = 10.;// c\na &&&b").2 1 "a &&&b".toList (by decide +kernel) _).2
    (by decide +kernel)

end ThreeAddress
