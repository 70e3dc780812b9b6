import ThreeAddress.Proofs.Token.Lexemes

/-!
# The text of a token tells its kind

A token that is cut out of a line is cut in the same way out of its own text (`front_take`). So the
kind of a token of a source can be told from its text alone (`kind_of_mem_tokenize`), and two
sources whose tokens have the same texts have the same tokens up to lines.
-/

namespace ThreeAddress

open Text

/-- Characters of a class stay where they are when what follows them is cut off. -/
theorem takeWhile_take_length (isMember : Char → Bool) (text : List Char) :
    (text.take (text.takeWhile isMember).length).takeWhile isMember = text.takeWhile isMember := by
  rw [take_length_takeWhile]
  exact List.takeWhile_eq_self_iff.2 fun c => List.mem_takeWhile_imp

/-! ## Cutting out a token twice -/

/-- A number that is cut out again. -/
theorem numberFront_take (rest : List Char) :
    numberFront (rest.take (numberFront rest).2) = numberFront rest := by
  have hsplit := List.takeWhile_append_dropWhile (p := isDigit) (l := rest)
  have hwhole : ∀ d ∈ rest.takeWhile isDigit, isDigit d = true := fun d => List.mem_takeWhile_imp
  have hpoint : isDigit '.' = false := by decide
  cases hdrop : rest.dropWhile isDigit with
  | nil =>
    rw [hdrop, List.append_nil] at hsplit
    have hfront : numberFront rest = (.intLit, rest.length) := by
      simp only [numberFront, hdrop, hsplit]
    rw [hfront, List.take_length, hfront]
  | cons c fraction =>
    rw [hdrop] at hsplit
    by_cases hc : c = '.'
    · subst hc
      have hfront : numberFront rest = (.floatLit,
          (rest.takeWhile isDigit).length + 1 + (fraction.takeWhile isDigit).length) := by
        simp only [numberFront, hdrop]
      have htake : rest.take (numberFront rest).2 =
          rest.takeWhile isDigit ++ '.' :: fraction.takeWhile isDigit := by
        rw [hfront, Nat.add_assoc, take_of_append hsplit, Nat.add_comm, List.take_succ_cons,
          take_length_takeWhile]
      have hfraction : (fraction.takeWhile isDigit).takeWhile isDigit =
          fraction.takeWhile isDigit :=
        List.takeWhile_eq_self_iff.2 fun d => List.mem_takeWhile_imp
      rw [htake, hfront, numberFront, List.takeWhile_append_of_pos hwhole,
        List.dropWhile_append_of_pos hwhole]
      simp [hpoint, hfraction]
    · have hfront : numberFront rest = (.intLit, (rest.takeWhile isDigit).length) := by
        simp only [numberFront, hdrop]
        split
        · next heq => exact absurd (List.cons.inj heq).1 hc
        · rfl
      rw [hfront, take_length_takeWhile]
      have hself : (rest.takeWhile isDigit).takeWhile isDigit = rest.takeWhile isDigit :=
        List.takeWhile_eq_self_iff.2 hwhole
      have hnone : (rest.takeWhile isDigit).dropWhile isDigit = [] :=
        List.dropWhile_eq_nil_iff.2 hwhole
      simp only [numberFront, hself, hnone]

/-- A string that is cut out again. -/
theorem stringFront_take (rest : List Char) :
    stringFront (rest.take (stringFront rest).2) = stringFront rest := by
  have hsplit := List.takeWhile_append_dropWhile (p := (· != '\x22')) (l := rest)
  have hbody : ∀ d ∈ rest.takeWhile (· != '\x22'), (d != '\x22') = true :=
    fun d => List.mem_takeWhile_imp
  cases hdrop : rest.dropWhile (· != '\x22') with
  | nil =>
    rw [hdrop, List.append_nil] at hsplit
    have hfront : stringFront rest = (.invalid, rest.length) := by
      simp only [stringFront, hsplit, Nat.lt_irrefl, if_false]
    rw [hfront, List.take_length, hfront]
  | cons mark others =>
    have hmark : (mark != '\x22') = false := by
      have := List.head?_dropWhile_not (· != '\x22') rest
      rw [hdrop] at this
      simpa using this
    rw [hdrop] at hsplit
    have hlt : (rest.takeWhile (· != '\x22')).length < rest.length := by
      have hlength := congrArg List.length hsplit
      rw [List.length_append, List.length_cons] at hlength
      omega
    have hfront : stringFront rest =
        (.stringLit, (rest.takeWhile (· != '\x22')).length + 1) := by
      simp only [stringFront, if_pos hlt]
    have htake : rest.take (stringFront rest).2 = rest.takeWhile (· != '\x22') ++ [mark] := by
      rw [hfront]
      exact take_of_append hsplit 1
    rw [htake, hfront, stringFront, List.takeWhile_append_of_pos hbody]
    simp [hmark]

/-- A character that is cut out again. -/
theorem charFront_take (rest : List Char) :
    charFront (rest.take (charFront rest).2) = charFront rest := by
  by_cases hinvalid : charFront rest = (.invalid, rest.length)
  · rw [hinvalid, List.take_length, hinvalid]
  · unfold charFront at hinvalid ⊢
    split at hinvalid
    · rfl
    · split at hinvalid
      · exact absurd rfl hinvalid
      · next h => simp [h]
    · exact absurd rfl hinvalid

/-- The spelling of an operator begins with no operator in front of it in the list. -/
theorem operatorAt?_spelling {kind : TokenKind} (h : kind ∈ TokenKind.operators) :
    operatorAt? (kind.spelling?.getD []) = some kind := by
  revert kind
  decide

/-- An operator that is cut out again. -/
theorem operatorFront_take (c : Char) (rest : List Char) :
    operatorFront c (rest.take (operatorFront c rest).2) = operatorFront c rest := by
  cases hfind : operatorAt? (c :: rest) with
  | none =>
    have hfront : operatorFront c rest = (.invalid, 0) := by rw [operatorFront, hfind]
    have hnone : operatorAt? [c] = none := by
      refine List.find?_eq_none.2 fun kind hkind hprefix => ?_
      refine List.find?_eq_none.1 hfind kind hkind ?_
      rw [List.isPrefixOf_iff_prefix] at hprefix ⊢
      exact hprefix.trans (List.cons_prefix_cons.2 ⟨rfl, List.nil_prefix⟩)
    rw [hfront, List.take_zero, operatorFront, hnone]
  | some kind =>
    obtain ⟨others, hspelling, hprefix⟩ := spelling?_of_operatorAt? hfind
    have hfront : operatorFront c rest = (kind, others.length) := by
      rw [operatorFront, hfind]
      simp only [hspelling, Option.getD_some, List.length_cons, Nat.add_sub_cancel]
    have hagain : operatorAt? (c :: others) = some kind := by
      rw [← operatorAt?_spelling (List.mem_of_find?_eq_some hfind), hspelling, Option.getD_some]
    rw [hfront, ← List.prefix_iff_eq_take.1 hprefix, operatorFront, hagain]
    simp only [hspelling, Option.getD_some, List.length_cons, Nat.add_sub_cancel]

/-- A token that is cut out again. -/
theorem front_take (c : Char) (rest : List Char) :
    front c (rest.take (front c rest).2) = front c rest := by
  unfold front
  split
  · rw [takeWhile_take_length]
  split
  · exact numberFront_take rest
  split
  · exact stringFront_take rest
  split
  · exact charFront_take rest
  · exact operatorFront_take c rest

/-! ## Tokens of a text -/

/-- A line further down, counted from the next line. -/
theorem line_succ (line : Line) (index : Nat) : line + 1 + index = line + (index + 1 : Nat) := by
  rw [Int.natCast_succ, Int.add_assoc, Int.add_comm 1]

/-- The tokens of lines are those of each of them. -/
theorem mem_scanLines_iff {line : Line} {texts : List (List Char)} {token : Token} :
    token ∈ scanLines line texts ↔
      ∃ (index : Nat) (text : List Char), texts[index]? = some text ∧
        token ∈ scanLine (line + index) 0 text := by
  induction texts generalizing line with
  | nil => exact ⟨nofun, fun ⟨_, _, htext, _⟩ => nomatch htext⟩
  | cons text texts ih =>
    have hfirst : line + (0 : Nat) = line := Int.add_zero line
    rw [scanLines, List.mem_append, ih]
    constructor
    · rintro (h | ⟨index, later, hlater, h⟩)
      · exact ⟨0, text, rfl, hfirst.symm ▸ h⟩
      · exact ⟨index + 1, later, hlater, line_succ line index ▸ h⟩
    · rintro ⟨_ | index, later, hlater, h⟩
      · cases hlater
        exact .inl (hfirst ▸ h)
      · exact .inr ⟨index, later, hlater, (line_succ line index).symm ▸ h⟩

/-- A word is a truth value, a name or a keyword. -/
theorem wordKind_cases (word : List Char) : wordKind word = .boolLit ∨ wordKind word = .ident ∨
    wordKind word ∈ TokenKind.keywords := by
  unfold wordKind
  split
  · exact .inl rfl
  · cases hfind : TokenKind.keywords.find? fun kind => kind.spelling? == some word with
    | none => exact .inr (.inl rfl)
    | some kind => exact .inr (.inr (List.mem_of_find?_eq_some hfind))

/-- A word is no end of file. -/
theorem wordKind_ne_endOfFile (word : List Char) : wordKind word ≠ .endOfFile := by
  intro h
  have hkind := wordKind_cases word
  rw [h] at hkind
  revert hkind
  decide

/-- Nothing in a line is an end of file. -/
theorem front_ne_endOfFile (c : Char) (rest : List Char) : (front c rest).1 ≠ .endOfFile := by
  unfold front
  split
  · exact wordKind_ne_endOfFile _
  split
  · unfold numberFront
    dsimp only
    split <;> nofun
  split
  · unfold stringFront
    dsimp only
    split <;> nofun
  split
  · unfold charFront
    split
    · nofun
    · split <;> nofun
    · nofun
  · unfold operatorFront
    split
    · next kind hfind =>
      have hoperator : kind ∈ TokenKind.operators := List.mem_of_find?_eq_some hfind
      rintro rfl
      revert hoperator
      decide
    · nofun

/-- The tokens of lines are no ends of files. -/
theorem kind_ne_endOfFile_of_mem_scanLines {line : Line} {texts : List (List Char)} {token : Token}
    (h : token ∈ scanLines line texts) : token.kind ≠ .endOfFile := by
  obtain ⟨index, text, -, h⟩ := mem_scanLines_iff.1 h
  obtain ⟨c, rest, -, rfl⟩ := exists_front_of_mem_scanLine h
  exact front_ne_endOfFile c rest

/-- What the end token says. -/
def endText : List Char := ['e', 'n', 'd', ' ', 'o', 'f', ' ', 'f', 'i', 'l', 'e']

/-- The kind of a token with the given text. -/
def kindOf (text : List Char) : TokenKind :=
  if text = endText then .endOfFile else
    match text with
    | [] => .invalid
    | c :: rest => (front c rest).1

/-- The text of the end token holds blanks, so it is no word. -/
theorem front_ne_endText (c : Char) (rest : List Char) :
    c :: rest.take (front c rest).2 ≠ endText := by
  intro heq
  obtain ⟨rfl, htake⟩ := List.cons.inj heq
  have hfront := front_take 'e' rest
  rw [htake] at hfront
  have hword : front 'e' endText.tail = (.ident, 2) := by decide
  have htwo : front 'e' rest = (.ident, 2) := hfront.symm.trans hword
  rw [htwo] at htake
  have hlength := List.length_take_le 2 rest
  rw [htake] at hlength
  revert hlength
  decide

/-- The kind of a token of a source is told by its text. -/
theorem kind_of_mem_tokenize {source : String} {token : Token} (h : token ∈ tokenize source) :
    token.kind = kindOf token.lexeme.toList := by
  rcases List.mem_append.1 h with h | h
  · obtain ⟨index, text, -, h⟩ := mem_scanLines_iff.1 h
    obtain ⟨c, rest, -, rfl⟩ := exists_front_of_mem_scanLine h
    rw [String.toList_ofList, kindOf, if_neg (front_ne_endText c rest)]
    exact congrArg Prod.fst (front_take c rest).symm
  · have hend : "end of file".toList = endText := rfl
    rw [List.mem_singleton.1 h]
    exact (if_pos hend).symm

end ThreeAddress
