import Mathlib.Data.List.TakeWhile
import ThreeAddress.Proofs.Text.Classes
import ThreeAddress.Token.Channel

/-!
# The texts of tokens

Which text a token of each kind has when it was cut out of a source: names and keywords are words,
numbers are digits with at most one point, and what stands between quotation marks holds none.
No token holds a line break.
-/

namespace ThreeAddress

open Text

/-- The texts that the tokens of a kind are written with. -/
inductive IsLexeme : TokenKind → List Char → Prop where
  | spelled {kind : TokenKind} {text : List Char} : kind.spelling? = some text →
      IsLexeme kind text
  | name {c : Char} {rest : List Char} : isNameStart c = true →
      (∀ d ∈ rest, isNameChar d = true) → wordKind (c :: rest) = .ident →
      IsLexeme .ident (c :: rest)
  | yes : IsLexeme .boolLit ['t', 'r', 'u', 'e']
  | no : IsLexeme .boolLit ['f', 'a', 'l', 's', 'e']
  | whole {c : Char} {rest : List Char} : isDigit c = true → (∀ d ∈ rest, isDigit d = true) →
      IsLexeme .intLit (c :: rest)
  | point {c : Char} {rest fraction : List Char} : isDigit c = true →
      (∀ d ∈ rest, isDigit d = true) → (∀ d ∈ fraction, isDigit d = true) →
      IsLexeme .floatLit (c :: (rest ++ '.' :: fraction))
  | plain {c : Char} : c ≠ '\x27' → c ≠ '\\' → IsLexeme .charLit ['\x27', c, '\x27']
  | escaped {c : Char} : IsLexeme .charLit ['\x27', '\\', c, '\x27']
  | string {body : List Char} : '\x22' ∉ body →
      IsLexeme .stringLit ('\x22' :: (body ++ ['\x22']))
  | endOfFile {text : List Char} : IsLexeme .endOfFile text
  | invalid {text : List Char} : IsLexeme .invalid text

/-! ## Cutting out one token -/

/-- As many characters as the longest row of a class has are this row. -/
theorem take_length_takeWhile (isMember : Char → Bool) (text : List Char) :
    text.take (text.takeWhile isMember).length = text.takeWhile isMember :=
  (List.prefix_iff_eq_take.1 (List.takeWhile_prefix isMember)).symm

/-- A row of characters that stops, and what follows it. -/
theorem takeWhile_append_stop {isMember : Char → Bool} {text : List Char}
    (htext : ∀ c ∈ text, isMember c = true) (rest : List Char)
    (hrest : ∀ c ∈ rest.head?, isMember c = false) :
    (text ++ rest).takeWhile isMember = text ∧ (text ++ rest).dropWhile isMember = rest := by
  rw [List.takeWhile_append_of_pos htext, List.dropWhile_append_of_pos htext]
  cases rest with
  | nil => simp
  | cons c rest =>
    have hc := hrest c rfl
    simp [hc]

/-- What is taken of two texts beyond the first one is taken of the second one. -/
theorem take_of_append {text first second : List Char} (h : first ++ second = text)
    (count : Nat) : text.take (first.length + count) = first ++ second.take count := by
  rw [← h, List.take_length_add_append]

/-- A word is a keyword, a truth value or a name. -/
theorem isLexeme_word {c : Char} {rest : List Char} (hc : isNameStart c = true)
    (hrest : ∀ d ∈ rest, isNameChar d = true) : IsLexeme (wordKind (c :: rest)) (c :: rest) := by
  generalize hkind : wordKind (c :: rest) = kind
  have hword := hkind
  unfold wordKind at hkind
  split at hkind
  · next htruth =>
    subst hkind
    rcases htruth with htruth | htruth
    · rw [htruth]
      exact .yes
    · rw [htruth]
      exact .no
  · cases hfind : TokenKind.keywords.find? fun kind => kind.spelling? == some (c :: rest) with
    | some found =>
      rw [hfind, Option.getD_some] at hkind
      subst hkind
      have hfound := List.find?_some hfind
      exact .spelled (eq_of_beq hfound)
    | none =>
      rw [hfind, Option.getD_none] at hkind
      subst hkind
      exact .name hc hrest hword

/-- A number is digits with at most one point. -/
theorem isLexeme_number {c : Char} (hc : isDigit c = true) (rest : List Char) :
    IsLexeme (numberFront rest).1 (c :: rest.take (numberFront rest).2) := by
  have hsplit := List.takeWhile_append_dropWhile (p := isDigit) (l := rest)
  have hwhole : ∀ d ∈ rest.takeWhile isDigit, isDigit d = true := fun d => List.mem_takeWhile_imp
  simp only [numberFront]
  split
  · next fraction hdrop =>
    have htake : rest.take ((rest.takeWhile isDigit).length + 1 +
        (fraction.takeWhile isDigit).length) =
        rest.takeWhile isDigit ++ '.' :: fraction.takeWhile isDigit := by
      rw [hdrop] at hsplit
      rw [Nat.add_assoc, take_of_append hsplit, Nat.add_comm, List.take_succ_cons,
        take_length_takeWhile]
    rw [htake]
    exact .point hc hwhole fun d => List.mem_takeWhile_imp
  · rw [take_length_takeWhile]
    exact .whole hc hwhole

/-- A string ends at the next mark. -/
theorem isLexeme_string (rest : List Char) :
    IsLexeme (stringFront rest).1 ('\x22' :: rest.take (stringFront rest).2) := by
  simp only [stringFront]
  split
  · next hlt =>
    have hsplit := List.takeWhile_append_dropWhile (p := (· != '\x22')) (l := rest)
    cases hdrop : rest.dropWhile (· != '\x22') with
    | nil =>
      rw [hdrop, List.append_nil] at hsplit
      rw [hsplit] at hlt
      exact absurd hlt (Nat.lt_irrefl _)
    | cons mark others =>
      have hmark : mark = '\x22' := by
        have := List.head?_dropWhile_not (· != '\x22') rest
        rw [hdrop] at this
        simpa using this
      have htake : rest.take ((rest.takeWhile (· != '\x22')).length + 1) =
          rest.takeWhile (· != '\x22') ++ ['\x22'] := by
        rw [hdrop, hmark] at hsplit
        exact take_of_append hsplit 1
      rw [htake]
      refine .string fun hmem => ?_
      have := List.mem_takeWhile_imp hmem
      simp at this
  · exact .invalid

/-- A character literal is one character or a backslash and one, between marks. -/
theorem isLexeme_char (rest : List Char) :
    IsLexeme (charFront rest).1 ('\x27' :: rest.take (charFront rest).2) := by
  unfold charFront
  split
  · exact .escaped
  · split
    · exact .invalid
    · next h =>
      simp only [Bool.or_eq_true, beq_iff_eq, not_or] at h
      exact .plain h.1 h.2
  · exact .invalid

/-- An operator that is found stands at the front of the text. -/
theorem spelling?_of_operatorAt? {c : Char} {rest : List Char} {kind : TokenKind}
    (h : operatorAt? (c :: rest) = some kind) :
    ∃ others, kind.spelling? = some (c :: others) ∧ others <+: rest := by
  have hprefix := List.find?_some h
  have hoperator : kind ∈ TokenKind.operators := List.mem_of_find?_eq_some h
  obtain ⟨first, others, hspelling⟩ : ∃ first others,
      kind.spelling? = some (first :: others) := by
    have hall : ∀ kind ∈ TokenKind.operators,
        ∃ first others, kind.spelling? = some (first :: others) := by
      simp [TokenKind.operators, TokenKind.spelling?]
    exact hall kind hoperator
  rw [hspelling, Option.getD_some, List.isPrefixOf_iff_prefix, List.cons_prefix_cons] at hprefix
  obtain ⟨rfl, hothers⟩ := hprefix
  exact ⟨others, hspelling, hothers⟩

/-- An operator has its spelling. -/
theorem isLexeme_operator (c : Char) (rest : List Char) :
    IsLexeme (operatorFront c rest).1 (c :: rest.take (operatorFront c rest).2) := by
  unfold operatorFront
  split
  · next kind hkind =>
    obtain ⟨others, hspelling, hprefix⟩ := spelling?_of_operatorAt? hkind
    refine .spelled ?_
    rw [hspelling, Option.getD_some]
    exact congrArg (some <| c :: ·) (List.prefix_iff_eq_take.1 hprefix)
  · exact .invalid

/-- What stands at the front of a line is a token of its kind. -/
theorem isLexeme_front (c : Char) (rest : List Char) :
    IsLexeme (front c rest).1 (c :: rest.take (front c rest).2) := by
  unfold front
  split
  · next hc =>
    rw [take_length_takeWhile]
    exact isLexeme_word hc fun d => List.mem_takeWhile_imp
  split
  · next hc => exact isLexeme_number hc rest
  split
  · next hc =>
    subst hc
    exact isLexeme_string rest
  split
  · next hc =>
    subst hc
    exact isLexeme_char rest
  · exact isLexeme_operator c rest

/-! ## All tokens of a text -/

/-- A token of a line is what stands in front of some rest of it. -/
theorem exists_front_of_mem_scanLine {line : Line} {skip : Nat} {text : List Char} {token : Token}
    (h : token ∈ scanLine line skip text) : ∃ c rest, c :: rest <:+ text ∧
      token = ⟨(front c rest).1, String.ofList (c :: rest.take (front c rest).2), line⟩ := by
  induction text generalizing skip with
  | nil => cases skip <;> cases h
  | cons c rest ih =>
    have hlater {skip : Nat} (h : token ∈ scanLine line skip rest) : ∃ d others,
        d :: others <:+ c :: rest ∧ token =
          ⟨(front d others).1, String.ofList (d :: others.take (front d others).2), line⟩ := by
      obtain ⟨d, others, hsuffix, htoken⟩ := ih h
      exact ⟨d, others, hsuffix.trans (List.suffix_cons c rest), htoken⟩
    cases skip with
    | succ skip => exact hlater h
    | zero =>
      simp only [scanLine] at h
      split at h
      · exact hlater h
      split at h
      · cases h
      split at h
      · exact ⟨c, rest, List.suffix_rfl, List.mem_singleton.1 h⟩
      · cases h with
        | head => exact ⟨c, rest, List.suffix_rfl, rfl⟩
        | tail _ h => exact hlater h

/-- A token that is cut out of a line has a text of its kind, whose characters are of the line. -/
theorem isLexeme_of_mem_scanLine {line : Line} {skip : Nat} {text : List Char} {token : Token}
    (h : token ∈ scanLine line skip text) :
    IsLexeme token.kind token.lexeme.toList ∧ ∀ c ∈ token.lexeme.toList, c ∈ text := by
  obtain ⟨c, rest, hsuffix, rfl⟩ := exists_front_of_mem_scanLine h
  rw [String.toList_ofList]
  exact ⟨isLexeme_front c rest, fun d hd =>
    hsuffix.subset (List.cons_subset_cons c (List.take_subset _ rest) hd)⟩

/-- No line holds a line break. -/
theorem isLineBreak_of_mem_splitLines {text line : List Char} (h : line ∈ splitLines text) :
    ∀ c ∈ line, isLineBreak c = false := by
  induction text using splitLines.induct generalizing line with
  | case1 => cases h
  | case2 rest ih =>
    rw [splitLines] at h
    cases h with
    | head => exact nofun
    | tail _ h => exact ih h
  | case3 c rest hpair hbreak ih =>
    rw [splitLines, if_pos hbreak] at h
    · cases h with
      | head => exact nofun
      | tail _ h => exact ih h
    · exact hpair
  | case4 c rest hpair hbreak ih =>
    rw [splitLines, if_neg hbreak] at h
    · cases hlines : splitLines rest with
      | nil =>
        rw [hlines] at h
        rw [List.mem_singleton.1 h]
        simpa using hbreak
      | cons first others =>
        rw [hlines, consLine] at h
        cases h with
        | head =>
          rw [List.forall_mem_cons]
          exact ⟨by simpa using hbreak, ih (hlines ▸ .head _)⟩
        | tail _ h => exact ih (hlines ▸ .tail _ h)
    · exact hpair

/-- The tokens of lines without line breaks. -/
theorem isLexeme_of_mem_scanLines {line : Line} {texts : List (List Char)} {token : Token}
    (htexts : ∀ text ∈ texts, ∀ c ∈ text, isLineBreak c = false)
    (h : token ∈ scanLines line texts) :
    IsLexeme token.kind token.lexeme.toList ∧
      ∀ c ∈ token.lexeme.toList, isLineBreak c = false := by
  induction texts generalizing line with
  | nil => cases h
  | cons text texts ih =>
    obtain ⟨htext, htexts⟩ := List.forall_mem_cons.1 htexts
    rcases List.mem_append.1 h with h | h
    · obtain ⟨hlexeme, hchars⟩ := isLexeme_of_mem_scanLine h
      exact ⟨hlexeme, fun c hc => htext c (hchars c hc)⟩
    · exact ih htexts h

/-- Every token of a source has a text of its kind, without line breaks. -/
theorem isLexeme_of_mem_tokenize {source : String} {token : Token} (h : token ∈ tokenize source) :
    IsLexeme token.kind token.lexeme.toList ∧
      ∀ c ∈ token.lexeme.toList, isLineBreak c = false := by
  rcases List.mem_append.1 h with h | h
  · exact isLexeme_of_mem_scanLines (fun text => isLineBreak_of_mem_splitLines) h
  · rw [List.mem_singleton.1 h]
    have hbreaks : "end of file".toList.all (!isLineBreak ·) = true := rfl
    refine ⟨.endOfFile, fun c hc => ?_⟩
    simpa using List.all_eq_true.1 hbreaks c hc

/-! ## How many tokens there are -/

/-- A line has at most as many tokens as characters. -/
theorem length_scanLine_le (line : Line) (skip : Nat) (text : List Char) :
    (scanLine line skip text).length ≤ text.length := by
  induction text generalizing skip with
  | nil => cases skip <;> exact Nat.le_refl _
  | cons c rest ih =>
    cases skip with
    | succ skip => exact Nat.le_succ_of_le (ih skip)
    | zero =>
      simp only [scanLine]
      split
      · exact Nat.le_succ_of_le (ih 0)
      split
      · exact Nat.zero_le _
      split
      · exact Nat.succ_le_succ (Nat.zero_le _)
      · exact Nat.succ_le_succ (ih _)

/-- The lines of a text have no more characters than the text. -/
theorem length_splitLines_le (text : List Char) :
    (splitLines text).flatten.length ≤ text.length := by
  induction text using splitLines.induct with
  | case1 => exact Nat.le_refl _
  | case2 rest ih =>
    rw [splitLines, List.flatten_cons, List.nil_append]
    exact Nat.le_succ_of_le (Nat.le_succ_of_le ih)
  | case3 c rest hpair hbreak ih =>
    rw [splitLines, if_pos hbreak, List.flatten_cons, List.nil_append]
    · exact Nat.le_succ_of_le ih
    · exact hpair
  | case4 c rest hpair hbreak ih =>
    rw [splitLines, if_neg hbreak]
    · cases hlines : splitLines rest with
      | nil => simp [consLine]
      | cons first others =>
        rw [hlines] at ih
        simpa [consLine] using ih
    · exact hpair

/-- Lines have at most as many tokens as characters. -/
theorem length_scanLines_le (line : Line) (texts : List (List Char)) :
    (scanLines line texts).length ≤ texts.flatten.length := by
  induction texts generalizing line with
  | nil => exact Nat.le_refl _
  | cons text texts ih =>
    rw [scanLines, List.length_append, List.flatten_cons, List.length_append]
    exact Nat.add_le_add (length_scanLine_le line 0 text) (ih _)

/-- A source has at most as many tokens as characters, and the end of file. -/
theorem length_tokenize_le (source : String) : (tokenize source).length ≤ source.length + 1 := by
  rw [tokenize, List.length_append, List.length_singleton]
  have hlines := length_scanLines_le 1 (splitLines source.toList)
  have htext := length_splitLines_le source.toList
  rw [String.length_toList] at htext
  omega

/-! ## What the tokens are handed over as -/

/-- A receiver gets the tokens of the source. -/
theorem Exchange.feed_start (source : String) : (start source).feed = tokenize source := by
  unfold start
  cases tokenize source with
  | nil => rfl
  | cons token tokens => rfl

end ThreeAddress
