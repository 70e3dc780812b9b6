import ThreeAddress.Proofs.Token.Recognition

/-!
# The longest match

Which texts the tokens of a kind may have is said without the scanner, by one rule for each way to
write a token (`TokenKind.Admits`). What stands at the front of a text is the longest beginning of
it that some kind admits, and its kind is the only one that admits it (`front_isLongest`). No kind
admits any beginning of the text exactly where the scanner says so (`front_eq_invalid_iff`).
-/

namespace ThreeAddress

open Text

/-- The words that are truth values. -/
def truthWords : List (List Char) := [['t', 'r', 'u', 'e'], ['f', 'a', 'l', 's', 'e']]

/-- Which texts the tokens of a kind may have. Operators, brackets, separators and keywords have
their spelling. A name is a word that is no keyword and no truth value. A number is digits, with at
most one point among or behind them. A character stands between marks, with a backslash in front
if it is a mark or a backslash itself. A string is what stands between two marks. -/
inductive TokenKind.Admits : TokenKind → List Char → Prop where
  | spelled {kind : TokenKind} {text : List Char} : kind.spelling? = some text → kind.Admits text
  | name {c : Char} {rest : List Char} : isNameStart c = true →
      (∀ d ∈ rest, isNameChar d = true) → (∀ kind : TokenKind, kind.spelling? ≠ some (c :: rest)) →
      c :: rest ∉ truthWords → ident.Admits (c :: rest)
  | truth {text : List Char} : text ∈ truthWords → boolLit.Admits text
  | whole {c : Char} {rest : List Char} : isDigit c = true → (∀ d ∈ rest, isDigit d = true) →
      intLit.Admits (c :: rest)
  | point {c : Char} {rest fraction : List Char} : isDigit c = true →
      (∀ d ∈ rest, isDigit d = true) → (∀ d ∈ fraction, isDigit d = true) →
      floatLit.Admits (c :: (rest ++ '.' :: fraction))
  | plain {c : Char} : c ≠ '\x27' → c ≠ '\\' → charLit.Admits ['\x27', c, '\x27']
  | escaped {c : Char} : charLit.Admits ['\x27', '\\', c, '\x27']
  | string {body : List Char} : '\x22' ∉ body →
      stringLit.Admits ('\x22' :: (body ++ ['\x22']))

/-- The longest beginning of a text that some kind admits. -/
structure IsLongest (kind : TokenKind) (lexeme text : List Char) : Prop where
  begins : lexeme <+: text
  admits : kind.Admits lexeme
  longest : ∀ (other : TokenKind) (longer : List Char), other.Admits longer → longer <+: text →
    longer.length ≤ lexeme.length

/-! ## Words -/

namespace TokenKind

/-- What has a spelling is a keyword or an operator. -/
theorem mem_of_spelling? {kind : TokenKind} {text : List Char} (h : kind.spelling? = some text) :
    kind ∈ keywords ∨ kind ∈ operators := by
  cases kind <;> first | decide | cases h

/-- A keyword is a word. -/
theorem word_of_mem_keywords {kind : TokenKind} {c : Char} {rest : List Char}
    (hkind : kind ∈ keywords) (h : kind.spelling? = some (c :: rest)) :
    isNameStart c = true ∧ (∀ d ∈ rest, isNameChar d = true) ∧ wordKind (c :: rest) = kind := by
  cases kind <;> first
  | exact absurd hkind (by decide)
  | cases h
    exact ⟨rfl, List.all_eq_true.1 rfl, rfl⟩

/-- No operator begins like something else. -/
theorem head_of_mem_operators {kind : TokenKind} {c : Char} {rest : List Char}
    (hkind : kind ∈ operators) (h : kind.spelling? = some (c :: rest)) :
    isNameStart c = false ∧ isDigit c = false ∧ c ≠ '\x22' ∧ c ≠ '\x27' := by
  cases kind <;> first | exact absurd hkind (by decide) | (cases h; decide)

end TokenKind

/-- A truth value is a word. -/
theorem word_of_mem_truthWords {c : Char} {rest : List Char} (h : c :: rest ∈ truthWords) :
    isNameStart c = true ∧ (∀ d ∈ rest, isNameChar d = true) ∧ wordKind (c :: rest) = .boolLit := by
  rcases List.mem_cons.1 h with h | h
  · cases h
    exact ⟨rfl, List.all_eq_true.1 rfl, rfl⟩
  · cases List.mem_singleton.1 h
    exact ⟨rfl, List.all_eq_true.1 rfl, rfl⟩

/-- A word is a name iff it is no keyword and no truth value. -/
theorem wordKind_eq_ident_iff {word : List Char} :
    wordKind word = .ident ↔
      word ∉ truthWords ∧ ∀ kind ∈ TokenKind.keywords, kind.spelling? ≠ some word := by
  have htruth : word ∈ truthWords ↔
      word = ['t', 'r', 'u', 'e'] ∨ word = ['f', 'a', 'l', 's', 'e'] := by simp [truthWords]
  rw [htruth, wordKind]
  split
  · next h => simp [h]
  · next h =>
    simp only [h, not_false_iff, true_and]
    cases hfind : TokenKind.keywords.find? fun kind => kind.spelling? == some word with
    | none => simpa using hfind
    | some kind =>
      have hmem : kind ∈ TokenKind.keywords := List.mem_of_find?_eq_some hfind
      have hspelling := List.find?_some hfind
      refine iff_of_false ?_ fun hnone => hnone kind hmem (eq_of_beq hspelling)
      rintro rfl
      revert hmem
      decide

/-- A text of a kind that is a class is admitted by it. -/
theorem IsLexeme.admits {kind : TokenKind} {text : List Char} (h : IsLexeme kind text)
    (hvalid : kind ≠ .invalid) (hinner : kind ≠ .endOfFile) : kind.Admits text := by
  cases h with
  | spelled h => exact .spelled h
  | name hc hrest hword =>
    obtain ⟨htruth, hkeyword⟩ := wordKind_eq_ident_iff.1 hword
    refine .name hc hrest (fun kind hspelling => ?_) htruth
    rcases TokenKind.mem_of_spelling? hspelling with hkind | hkind
    · exact hkeyword kind hkind hspelling
    · obtain ⟨hstart, -⟩ := TokenKind.head_of_mem_operators hkind hspelling
      rw [hc] at hstart
      cases hstart
  | yes => exact .truth (.head _)
  | no => exact .truth (.tail _ (.head _))
  | whole hc hrest => exact .whole hc hrest
  | point hc hrest hfraction => exact .point hc hrest hfraction
  | plain hmark hbackslash => exact .plain hmark hbackslash
  | escaped => exact .escaped
  | string hbody => exact .string hbody
  | endOfFile => exact absurd rfl hinner
  | invalid => exact absurd rfl hvalid

namespace TokenKind.Admits

variable {kind other : TokenKind} {c : Char} {text rest others : List Char}

/-- No kind admits the empty text. -/
theorem exists_cons (h : kind.Admits text) : ∃ c rest, text = c :: rest := by
  cases h with
  | @spelled _ text h =>
    cases text with
    | nil => cases kind <;> cases h
    | cons c rest => exact ⟨c, rest, rfl⟩
  | truth h =>
    rcases List.mem_cons.1 h with rfl | h
    · exact ⟨_, _, rfl⟩
    · exact ⟨_, _, List.mem_singleton.1 h⟩
  | _ => exact ⟨_, _, rfl⟩

/-- What is admitted and begins like a name is a word. -/
theorem word (h : kind.Admits (c :: rest)) (hc : isNameStart c = true) :
    (∀ d ∈ rest, isNameChar d = true) ∧ wordKind (c :: rest) = kind := by
  cases h with
  | spelled h =>
    rcases mem_of_spelling? h with hkind | hkind
    · exact (word_of_mem_keywords hkind h).2
    · rw [(head_of_mem_operators hkind h).1] at hc
      cases hc
  | name _ hrest hspelling htruth =>
    exact ⟨hrest, wordKind_eq_ident_iff.2 ⟨htruth, fun kind _ => hspelling kind⟩⟩
  | truth h => exact (word_of_mem_truthWords h).2
  | whole hdigit | point hdigit =>
    rw [isNameStart_of_isDigit hdigit] at hc
    cases hc
  | plain | escaped | string => exact absurd hc (by decide)

/-- No kind admits a blank in front. -/
theorem isBlank_head (h : kind.Admits (c :: rest)) : isBlank c = false := by
  cases h with
  | spelled h =>
    cases kind <;> cases h <;> decide
  | name hc => exact isBlank_of_isNameStart hc
  | truth h => exact isBlank_of_isNameStart (word_of_mem_truthWords h).1
  | whole hc | point hc => exact isBlank_of_isDigit hc
  | plain | escaped | string => decide

end TokenKind.Admits

/-! ## What the scanner finds in front of a text -/

section
variable {c : Char} {rest : List Char}

/-- A word. -/
theorem front_word (hc : isNameStart c = true) (rest : List Char) : front c rest =
    (wordKind (c :: rest.takeWhile isNameChar), (rest.takeWhile isNameChar).length) := if_pos hc

/-- A number. -/
theorem front_number (hc : isDigit c = true) (rest : List Char) :
    front c rest = numberFront rest := by
  rw [front, isNameStart_of_isDigit hc, if_neg (by decide), if_pos hc]

/-- An operator. -/
theorem front_operator {kind : TokenKind} {others : List Char}
    (h : operatorAt? (c :: rest) = some kind) (hspelling : kind.spelling? = some (c :: others)) :
    front c rest = (kind, others.length) := by
  have hkind : kind ∈ TokenKind.operators := List.mem_of_find?_eq_some h
  obtain ⟨hstart, hdigit, hstring, hchar⟩ := TokenKind.head_of_mem_operators hkind hspelling
  rw [front, hstart, if_neg (by decide), hdigit, if_neg (by decide), if_neg hstring, if_neg hchar,
    operatorFront, h]
  simp only [hspelling, Option.getD_some, List.length_cons, Nat.add_sub_cancel]

/-- A word is of some kind. -/
theorem wordKind_ne_invalid (word : List Char) : wordKind word ≠ .invalid := by
  intro h
  have hkind := wordKind_cases word
  rw [h] at hkind
  revert hkind
  decide

/-- A number is of some kind. -/
theorem numberFront_ne_invalid (rest : List Char) : (numberFront rest).1 ≠ .invalid := by
  simp only [numberFront]
  split <;> simp

/-- A number without a point. -/
theorem numberFront_whole {whole : List Char} (hwhole : ∀ d ∈ whole, isDigit d = true)
    (hrest : ∀ d ∈ rest.head?, isDigit d = false ∧ d ≠ '.') :
    numberFront (whole ++ rest) = (.intLit, whole.length) := by
  obtain ⟨htake, hdrop⟩ := takeWhile_append_stop hwhole rest fun d hd => (hrest d hd).1
  simp only [numberFront, htake, hdrop]
  split
  · exact absurd rfl (hrest '.' rfl).2
  · rfl

/-- A number with a point. -/
theorem numberFront_point {whole : List Char} (hwhole : ∀ d ∈ whole, isDigit d = true)
    (rest : List Char) : numberFront (whole ++ '.' :: rest) =
      (.floatLit, whole.length + (rest.takeWhile isDigit).length + 1) := by
  obtain ⟨htake, hdrop⟩ := takeWhile_append_stop hwhole ('.' :: rest) fun d hd => by
    cases hd
    decide
  simp only [numberFront, htake, hdrop, Nat.add_right_comm]

/-- A string ends at the next mark. -/
theorem stringFront_append {body : List Char} (hbody : '\x22' ∉ body) (rest : List Char) :
    stringFront (body ++ '\x22' :: rest) = (.stringLit, body.length + 1) := by
  have hrow : ∀ d ∈ body, (d != '\x22') = true := by
    rintro d hd
    exact bne_iff_ne.2 fun hmark => hbody (hmark ▸ hd)
  obtain ⟨htake, -⟩ := takeWhile_append_stop hrow ('\x22' :: rest) fun d hd => by
    cases hd
    decide
  simp only [stringFront, htake]
  rw [if_pos (by simp)]

/-- A character between marks. -/
theorem charFront_plain (hmark : c ≠ '\x27') (hbackslash : c ≠ '\\') (rest : List Char) :
    charFront (c :: '\x27' :: rest) = (.charLit, 2) := by
  rw [charFront, if_neg (by simp [hmark, hbackslash])]
  exact fun _ hc => absurd hc hbackslash

/-- Of the operators that a text begins with, none is longer than the one that is found. -/
theorem length_le_of_operatorAt? {text : List Char} {found kind : TokenKind}
    (h : operatorAt? text = some found) (hkind : kind ∈ TokenKind.operators)
    (hbegins : (kind.spelling?.getD []).isPrefixOf text = true) :
    (kind.spelling?.getD []).length ≤ (found.spelling?.getD []).length := by
  have hsorted : TokenKind.operators.Pairwise fun first second =>
      (second.spelling?.getD []).length ≤ (first.spelling?.getD []).length := by decide
  obtain ⟨-, front, back, hsplit, hfront⟩ := List.find?_eq_some_iff_append.1 h
  rw [hsplit] at hkind hsorted
  rcases List.mem_append.1 hkind with hkind | hkind
  · have hnot := hfront kind hkind
    rw [hbegins] at hnot
    cases hnot
  · rcases List.mem_cons.1 hkind with rfl | hkind
    · exact Nat.le_refl _
    · exact List.rel_of_pairwise_cons (List.pairwise_append.1 hsorted).2.1 hkind

/-- An operator is found in front of a blank. -/
theorem operatorAt?_append {kind : TokenKind} (hkind : kind ∈ TokenKind.operators)
    (hrest : ∀ d ∈ rest.head?, d = ' ') :
    operatorAt? (kind.spelling?.getD [] ++ rest) = some kind := by
  cases rest with
  | nil => rw [List.append_nil, operatorAt?_spelling hkind]
  | cons d rest =>
    obtain rfl := hrest d rfl
    cases kind <;> first | exact absurd hkind (by decide) | rfl

end

namespace TokenKind.Admits

variable {kind other : TokenKind} {c : Char} {text rest others : List Char}

/-- What is admitted is found, or more than that. -/
theorem le_front (h : kind.Admits (c :: others)) (rest : List Char) :
    (front c (others ++ rest)).1 ≠ .invalid ∧ others.length ≤ (front c (others ++ rest)).2 := by
  have hlonger {isMember : Char → Bool} {row : List Char} (hrow : ∀ d ∈ row, isMember d = true)
      (rest : List Char) : row.length ≤ ((row ++ rest).takeWhile isMember).length := by
    rw [List.takeWhile_append_of_pos hrow, List.length_append]
    exact Nat.le_add_right _ _
  by_cases hc : isNameStart c = true
  · rw [front_word hc]
    exact ⟨wordKind_ne_invalid _, hlonger (h.word hc).1 rest⟩
  cases h with
  | spelled h =>
    rcases mem_of_spelling? h with hkind | hkind
    · exact absurd (word_of_mem_keywords hkind h).1 hc
    · have hbegins : (kind.spelling?.getD []).isPrefixOf (c :: (others ++ rest)) = true := by
        rw [h, Option.getD_some, List.isPrefixOf_iff_prefix]
        exact ⟨rest, rfl⟩
      cases hfind : operatorAt? (c :: (others ++ rest)) with
      | none => exact absurd hbegins (List.find?_eq_none.1 hfind kind hkind)
      | some found =>
        obtain ⟨further, hspelling, -⟩ := spelling?_of_operatorAt? hfind
        have hlength := length_le_of_operatorAt? hfind hkind hbegins
        rw [h, hspelling] at hlength
        rw [front_operator hfind hspelling]
        refine ⟨?_, Nat.le_of_succ_le_succ hlength⟩
        rintro rfl
        cases hspelling
  | name hstart => exact absurd hstart hc
  | truth h => exact absurd (word_of_mem_truthWords h).1 hc
  | whole hdigit hothers =>
    rw [front_number hdigit]
    refine ⟨numberFront_ne_invalid _, ?_⟩
    have := hlonger hothers rest
    simp only [numberFront]
    split <;> omega
  | @point _ whole fraction hdigit hwhole hfraction =>
    rw [front_number hdigit, List.append_assoc, List.cons_append, numberFront_point hwhole]
    refine ⟨by simp, ?_⟩
    have := hlonger hfraction rest
    simp only [List.length_append, List.length_cons]
    omega
  | plain hmark hbackslash =>
    have hfront : front '\x27' ([_, '\x27'] ++ rest) = (.charLit, 2) :=
      charFront_plain hmark hbackslash rest
    rw [hfront]
    exact ⟨by simp, Nat.le_refl 2⟩
  | @escaped d =>
    have hfront : front '\x27' (['\\', d, '\x27'] ++ rest) = (.charLit, 3) := rfl
    rw [hfront]
    exact ⟨by simp, Nat.le_refl 3⟩
  | @string body hbody =>
    have hfront : front '\x22' (body ++ ['\x22'] ++ rest) = (.stringLit, body.length + 1) := by
      rw [List.append_assoc]
      exact stringFront_append hbody rest
    rw [hfront, List.length_append]
    exact ⟨by simp, Nat.le_refl _⟩

/-- What is admitted is found in front of a blank and at the end of a line. -/
theorem front_eq (h : kind.Admits (c :: others)) (hrest : ∀ d ∈ rest.head?, d = ' ') :
    front c (others ++ rest) = (kind, others.length) := by
  by_cases hc : isNameStart c = true
  · obtain ⟨hothers, hkind⟩ := h.word hc
    obtain ⟨htake, -⟩ := takeWhile_append_stop hothers rest fun d hd => by
      rw [hrest d hd]
      decide
    rw [front_word hc, htake, hkind]
  cases h with
  | spelled h =>
    rcases mem_of_spelling? h with hkind | hkind
    · exact absurd (word_of_mem_keywords hkind h).1 hc
    · have hfind := operatorAt?_append hkind hrest
      rw [h, Option.getD_some] at hfind
      exact front_operator hfind h
  | name hstart => exact absurd hstart hc
  | truth h => exact absurd (word_of_mem_truthWords h).1 hc
  | whole hdigit hothers =>
    rw [front_number hdigit, numberFront_whole hothers fun d hd => ?_]
    rw [hrest d hd]
    decide
  | @point _ whole fraction hdigit hwhole hfraction =>
    obtain ⟨htake, -⟩ := takeWhile_append_stop hfraction rest fun d hd => by
      rw [hrest d hd]
      decide
    rw [front_number hdigit, List.append_assoc, List.cons_append, numberFront_point hwhole, htake,
      List.length_append, List.length_cons]
    rfl
  | plain hmark hbackslash => exact charFront_plain hmark hbackslash rest
  | escaped => rfl
  | @string body hbody =>
    rw [List.append_assoc, List.length_append]
    exact stringFront_append hbody rest

/-- A text has one kind. -/
theorem unique (h : kind.Admits text) (h' : other.Admits text) : kind = other := by
  obtain ⟨c, rest, rfl⟩ := h.exists_cons
  have hfront {kind : TokenKind} (h : kind.Admits (c :: rest)) :
      front c (rest ++ []) = (kind, rest.length) := h.front_eq nofun
  exact congrArg Prod.fst ((hfront h).symm.trans (hfront h'))

end TokenKind.Admits

/-! ## The front of a text is its longest match -/

section
variable {c : Char} {rest : List Char}

/-- What is found is the longest beginning that some kind admits. -/
theorem front_isLongest (h : (front c rest).1 ≠ .invalid) :
    IsLongest (front c rest).1 (c :: rest.take (front c rest).2) (c :: rest) where
  begins := List.cons_prefix_cons.2 ⟨rfl, List.take_prefix _ _⟩
  admits := (isLexeme_front c rest).admits h (front_ne_endOfFile c rest)
  longest other longer hadmits hbegins := by
    obtain ⟨d, others, rfl⟩ := hadmits.exists_cons
    obtain ⟨rfl, further, rfl⟩ := List.cons_prefix_cons.1 hbegins
    have hfound := (hadmits.le_front further).2
    rw [List.length_cons, List.length_cons, List.length_take, List.length_append]
    omega

/-- Nothing is found where no kind admits any beginning. -/
theorem front_eq_invalid_iff : (front c rest).1 = .invalid ↔
    ∀ (kind : TokenKind) (lexeme : List Char), kind.Admits lexeme → ¬lexeme <+: c :: rest := by
  constructor
  · intro hinvalid kind lexeme hadmits hbegins
    obtain ⟨d, others, rfl⟩ := hadmits.exists_cons
    obtain ⟨rfl, further, rfl⟩ := List.cons_prefix_cons.1 hbegins
    exact (hadmits.le_front further).1 hinvalid
  · intro hnone
    by_contra hvalid
    obtain ⟨hbegins, hadmits, -⟩ := front_isLongest hvalid
    exact hnone _ _ hadmits hbegins

namespace IsLongest

variable {kind other : TokenKind} {lexeme longer text : List Char}

/-- A text has one longest beginning that is admitted, and one kind admits it. -/
theorem unique (h : IsLongest kind lexeme text) (h' : IsLongest other longer text) :
    kind = other ∧ lexeme = longer := by
  have hlength : lexeme.length = longer.length :=
    Nat.le_antisymm (h'.longest kind lexeme h.admits h.begins)
      (h.longest other longer h'.admits h'.begins)
  have hlexeme : lexeme = longer :=
    (List.prefix_of_prefix_length_le h.begins h'.begins hlength.le).eq_of_length hlength
  exact ⟨h.admits.unique (hlexeme ▸ h'.admits), hlexeme⟩

end IsLongest

/-- What is admitted is the longest match in front of a blank and at the end of a line. -/
theorem TokenKind.Admits.isLongest {kind : TokenKind} {lexeme : List Char}
    (h : kind.Admits lexeme) (hrest : ∀ d ∈ rest.head?, d = ' ') :
    IsLongest kind lexeme (lexeme ++ rest) := by
  obtain ⟨c, others, rfl⟩ := h.exists_cons
  have hfront := h.front_eq hrest
  have hvalid : (front c (others ++ rest)).1 ≠ .invalid := (h.le_front rest).1
  have hlongest := front_isLongest hvalid
  rw [hfront, List.take_left] at hlongest
  exact hlongest

end

end ThreeAddress
