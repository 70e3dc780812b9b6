import Mathlib.Data.List.TakeWhile
import ThreeAddress.CUnit.Emission
import ThreeAddress.Code.Lowering
import ThreeAddress.Proofs.Code.Names
import ThreeAddress.Proofs.Token.Lexemes

/-!
# Instructions are read back

The text of an instruction whose names and operands can be read as such is read back as this
instruction. The forms are tried in order, so for each of them the ones before it must be seen to
fail. No form tells itself by its first word, since names and operands may be written like any word
of a form, and operands like the arrow and the operators too. What tells the forms apart are the
spaces: an operand that is no character holds none.
-/

namespace ThreeAddress

open Text

/-! ## Words and operands -/

namespace Text

/-- A word: the start of a name and characters of a name. -/
def IsWord (text : List Char) : Prop :=
  ∃ c rest, text = c :: rest ∧ isNameStart c = true ∧ ∀ d ∈ rest, isNameChar d = true

/-- A text whose characters are those of a name is a word. -/
theorem IsWord.of_all {c : Char} {rest : List Char} (hc : isNameStart c = true)
    (hrest : rest.all isNameChar = true) : IsWord (c :: rest) :=
  ⟨c, rest, rfl, hc, List.all_eq_true.1 hrest⟩

/-- The characters of a name are word characters. -/
theorem isWordChar_of_isNameChar {c : Char} (h : isNameChar c = true) : isWordChar c = true := by
  rcases Bool.or_eq_true _ _ ▸ h with h | h
  · exact isWordChar_of_isNameStart h
  · exact isWordChar_of_isDigit h

/-- The characters of a name are not blank. -/
theorem isBlank_of_isNameChar {c : Char} (h : isNameChar c = true) : isBlank c = false := by
  rcases Bool.or_eq_true _ _ ▸ h with h | h
  · exact isBlank_of_isNameStart h
  · exact isBlank_of_isDigit h

/-- The start of a name may stand anywhere in it. -/
theorem isNameChar_of_isNameStart {c : Char} (h : isNameStart c = true) : isNameChar c = true := by
  rw [isNameChar, h, Bool.true_or]

/-- All characters of a word are characters of a name. -/
theorem IsWord.isNameChar {text : List Char} (h : IsWord text) :
    ∀ c ∈ text, isNameChar c = true := by
  obtain ⟨c, rest, rfl, hc, hrest⟩ := h
  exact List.forall_mem_cons.2 ⟨isNameChar_of_isNameStart hc, hrest⟩

/-- A name in code: the start of a name, and word characters of any script behind it. -/
def IsName (text : List Char) : Prop :=
  ∃ c rest, text = c :: rest ∧ isNameStart c = true ∧ ∀ d ∈ rest, isWordChar d = true

/-- A word is a name. -/
theorem IsWord.isName {text : List Char} (h : IsWord text) : IsName text := by
  obtain ⟨c, rest, rfl, hc, hrest⟩ := h
  exact ⟨c, rest, rfl, hc, fun d hd => isWordChar_of_isNameChar (hrest d hd)⟩

/-- All characters of a name are word characters. -/
theorem IsName.isWordChar {text : List Char} (h : IsName text) :
    ∀ c ∈ text, isWordChar c = true := by
  obtain ⟨c, rest, rfl, hc, hrest⟩ := h
  exact List.forall_mem_cons.2 ⟨isWordChar_of_isNameStart hc, hrest⟩

end Text

/-- The operands of instructions: words, numbers and characters between marks. -/
inductive IsOperandText : List Char → Prop where
  | word {text : List Char} : IsWord text → IsOperandText text
  | number {c : Char} {rest : List Char} : isDigit c = true →
      (∀ d ∈ rest, isDigit d = true ∨ d = '.') → IsOperandText (c :: rest)
  | plain {c : Char} : c ≠ '\x27' → c ≠ '\\' → IsOperandText ['\x27', c, '\x27']
  | escaped {c : Char} : c ≠ '\n' → IsOperandText ['\x27', '\\', c, '\x27']

/-- The operands that can be read: rows of characters without blanks and marks, and characters
between marks. -/
inductive IsOperand : List Char → Prop where
  | bare {text : List Char} : text ≠ [] → (∀ c ∈ text, Scanner.isBare c = true) → IsOperand text
  | plain {c : Char} : c ≠ '\x27' → c ≠ '\\' → IsOperand ['\x27', c, '\x27']
  | escaped {c : Char} : c ≠ '\n' → IsOperand ['\x27', '\\', c, '\x27']

/-- The characters of a name may stand in an operand. -/
theorem Scanner.isBare_of_isWordChar {c : Char} (h : isWordChar c = true) : isBare c = true := by
  rw [isBare, isBlank_of_isWordChar h]
  simp only [Bool.not_false, Bool.true_and, bne_iff_ne]
  rintro rfl
  exact absurd h (by decide +kernel)

/-- A name is an operand. -/
theorem Text.IsName.isOperand {text : List Char} (h : IsName text) : IsOperand text := by
  refine .bare ?_ fun c hc => Scanner.isBare_of_isWordChar (h.isWordChar c hc)
  obtain ⟨c, rest, rfl, -⟩ := h
  exact List.cons_ne_nil c rest

/-- The operands of written instructions can be read. -/
theorem IsOperandText.isOperand {text : List Char} (h : IsOperandText text) : IsOperand text := by
  cases h with
  | word h => exact h.isName.isOperand
  | @number c digits hc hdigits =>
    have hbare : ∀ d, isDigit d = true → Scanner.isBare d = true := fun d hd =>
      Scanner.isBare_of_isWordChar (isWordChar_of_isDigit hd)
    refine .bare (List.cons_ne_nil c digits) (List.forall_mem_cons.2 ⟨hbare c hc, fun d hd => ?_⟩)
    rcases hdigits d hd with hd | rfl
    · exact hbare d hd
    · rfl
  | plain hmark hescape => exact .plain hmark hescape
  | escaped hbreak => exact .escaped hbreak

namespace Scanner

variable {Value Other : Type} {text rest : List Char}

/-! ## Scanners one after the other -/

/-- A scanner that fits, and what follows it. -/
theorem bind_some {scanner : Scanner Value} {next : Value → Scanner Other} {value : Value}
    (h : scanner text = some (value, rest)) : (scanner >>= next) text = next value rest := by
  show (scanner text).bind _ = _
  rw [h]
  rfl

/-- A scanner that does not fit. -/
theorem bind_none {scanner : Scanner Value} {next : Value → Scanner Other}
    (h : scanner text = none) : (scanner >>= next) text = none := by
  show (scanner text).bind _ = _
  rw [h]
  rfl

/-- The second scanner is tried if the first one does not fit. -/
theorem orElse_none {first second : Scanner Value} (h : first text = none) :
    (first <|> second) text = second text := by
  show (first text).orElse _ = _
  rw [h]
  rfl

/-- The first scanner that fits is taken. -/
theorem orElse_some {first second : Scanner Value} {result : Value × List Char}
    (h : first text = some result) : (first <|> second) text = some result := by
  show (first text).orElse _ = _
  rw [h]
  rfl

/-! ## Single scanners -/

/-- A given text is taken off. -/
theorem exactly_append (text rest : List Char) : exactly text (text ++ rest) = some ((), rest) := by
  rw [exactly, if_pos (List.isPrefixOf_iff_prefix.2 (List.prefix_append text rest)),
    List.drop_left]

/-- What a given text is taken off begins with it. -/
theorem exactly_eq_some {given : List Char} (h : exactly given text = some ((), rest)) :
    text = given ++ rest := by
  unfold exactly at h
  split at h
  · next hprefix =>
    cases h
    exact (List.prefix_iff_eq_append.1 (List.isPrefixOf_iff_prefix.1 hprefix)).symm
  · cases h

/-- A given text does not fit another first character. -/
theorem exactly_ne {c d : Char} {given : List Char} (h : c ≠ d) :
    exactly (c :: given) (d :: text) = none := by
  have hprefix : (c :: given).isPrefixOf (d :: text) = false := by
    rw [List.isPrefixOf_cons_cons, beq_false_of_ne h, Bool.false_and]
  rw [exactly, hprefix]
  rfl

/-- A row of characters of a class is taken off. -/
theorem run_append {isMember : Char → Bool} (hne : text ≠ [])
    (htext : ∀ c ∈ text, isMember c = true) (rest : List Char)
    (hrest : ∀ c ∈ rest.head?, isMember c = false) :
    run isMember (text ++ rest) = some (text, rest) := by
  obtain ⟨htake, hdrop⟩ := takeWhile_append_stop htext rest hrest
  rw [run, htake, hdrop, List.isEmpty_eq_false_iff.2 hne]
  rfl

/-- What a row of characters is taken off begins with it. -/
theorem run_eq_some {isMember : Char → Bool} {taken : List Char}
    (h : run isMember text = some (taken, rest)) :
    text = taken ++ rest ∧ taken ≠ [] ∧ ∀ c ∈ taken, isMember c = true := by
  simp only [run] at h
  split at h
  · cases h
  · next hne =>
    cases h
    refine ⟨List.takeWhile_append_dropWhile.symm, fun hnil => hne (by rw [hnil]; rfl), ?_⟩
    exact fun c hc => List.all_eq_true.1 List.all_takeWhile c hc

/-- A name is taken off. -/
theorem name_append (h : IsName text) (rest : List Char)
    (hrest : ∀ c ∈ rest.head?, isWordChar c = false) :
    name (text ++ rest) = some (String.ofList text, rest) := by
  obtain ⟨c, word, rfl, hc, hword⟩ := h
  obtain ⟨htake, hdrop⟩ := takeWhile_append_stop hword rest hrest
  rw [List.cons_append, name, if_pos hc, htake, hdrop]

/-- No name starts with another character. -/
theorem name_eq_none {c : Char} (h : isNameStart c = false) : name (c :: rest) = none := by
  rw [name, h]
  rfl

/-- A row of characters that are not blank is taken off as an operand. -/
theorem operand_bare (hne : text ≠ []) (htext : ∀ c ∈ text, isBare c = true)
    (hrest : ∀ c ∈ rest.head?, isBare c = false) :
    operand (text ++ rest) = some (String.ofList text, rest) := by
  have hhead : ∀ others, text ++ rest ≠ '\x27' :: others := by
    intro others heq
    cases text with
    | nil => exact hne rfl
    | cons c word =>
      cases (List.cons.inj heq).1
      cases htext _ (.head _)
  have hrun : operand (text ++ rest) = ((run isBare).map String.ofList) (text ++ rest) := by
    unfold operand
    split
    · next heq => exact absurd heq (hhead _)
    · next heq => exact absurd heq (hhead _)
    · next heq => exact absurd heq (hhead _)
    · rfl
  rw [hrun]
  show ((run isBare (text ++ rest)).bind _) = _
  rw [run_append hne htext rest hrest]
  rfl

/-- An operand is taken off. -/
theorem operand_append (h : IsOperand text) (rest : List Char)
    (hrest : ∀ c ∈ rest.head?, isBare c = false) :
    operand (text ++ rest) = some (String.ofList text, rest) := by
  cases h with
  | bare hne htext => exact operand_bare hne htext hrest
  | plain hmark hescape =>
    show operand ('\x27' :: _ :: '\x27' :: rest) = _
    unfold operand
    split
    · next heq =>
      cases heq
      exact absurd rfl hescape
    · next heq =>
      cases heq
      rw [if_neg (by simp [hmark, hescape])]
    · next hplain heq =>
      cases heq
      exact (hplain _ _ rfl).elim
    · next hmark => exact absurd rfl (hmark _)
  | escaped hbreak =>
    show operand ('\x27' :: '\\' :: _ :: '\x27' :: rest) = _
    rw [operand, if_neg hbreak]

/-- A row of characters stops at a character that is not of the class. -/
theorem stops {isMember : Char → Bool} {c : Char} (h : isMember c = false) :
    ∀ d ∈ (c :: rest).head?, isMember d = false := by
  intro d hd
  cases hd
  exact h

/-- The digits of a numeral are the decimal digits of ASCII. -/
theorem bounds_of_mem_toString {count : Nat} {c : Char} (h : c ∈ (toString count).toList) :
    48 ≤ c.toNat ∧ c.toNat ≤ 57 := by
  have hmem : c ∈ Nat.toDigits 10 count := by
    rw [← Nat.toList_repr]
    exact h
  have hdigit := Nat.isDigit_of_mem_toDigits (by omega) (by omega) hmem
  simp only [Char.isDigit, Bool.and_eq_true, decide_eq_true_eq, UInt32.le_iff_toNat_le] at hdigit
  exact hdigit

/-- The digits of a numeral are decimal. -/
theorem isDecimal_of_mem_toString {count : Nat} {c : Char} (h : c ∈ (toString count).toList) :
    isDecimal c = true :=
  Ranges.contains_iff.2 ⟨(0x30, 0x39), .head _, bounds_of_mem_toString h⟩

/-- Digits of ASCII are read as such. -/
theorem decimalNumber_eq {digits : List Char} (h : ∀ c ∈ digits, 48 ≤ c.toNat ∧ c.toNat ≤ 57) :
    decimalNumber digits = Nat.ofDigitChars 10 digits 0 := by
  have hvalue : ∀ number, ∀ c ∈ digits,
      10 * number + decimalValue c = 10 * number + (c.toNat - '0'.toNat) := by
    intro number c hc
    have hbounds := h c hc
    have hstart : decimalRanges.start? c = some 0x30 := by
      simp [decimalRanges, Ranges.start?, hbounds]
    rw [decimalValue, hstart]
    show 10 * number + (c.toNat - 48) % 10 = 10 * number + (c.toNat - 48)
    omega
  rw [decimalNumber, List.foldl_ext _ _ _ hvalue, Nat.ofDigitChars_eq_foldl]

/-- A numeral is read as its number. -/
theorem decimalNumber_toString (count : Nat) : decimalNumber (toString count).toList = count := by
  rw [decimalNumber_eq fun c => bounds_of_mem_toString]
  show Nat.ofDigitChars 10 (Nat.repr count).toList 0 = count
  rw [Nat.toList_repr, Nat.ofDigitChars_ten_toDigits]

/-- A numeral is taken off. -/
theorem number_toString (count : Nat) : number (toString count).toList = some (count, []) := by
  have hne : (toString count).toList ≠ [] := by
    show (Nat.repr count).toList ≠ []
    rw [Nat.toList_repr]
    exact Nat.toDigits_ne_nil
  have hrun := run_append hne (fun c => isDecimal_of_mem_toString) [] nofun
  rw [List.append_nil] at hrun
  show (run isDecimal (toString count).toList).bind _ = _
  rw [hrun]
  show some (decimalNumber (toString count).toList, []) = _
  rw [decimalNumber_toString]

/-- A space is in no word. -/
theorem isWordChar_space : isWordChar ' ' = false := by decide +kernel

/-- A colon is in no word. -/
theorem isWordChar_colon : isWordChar ':' = false := by decide +kernel

/-- A comma is in no word. -/
theorem isWordChar_comma : isWordChar ',' = false := by decide +kernel

/-- A name in front of a space is taken off. -/
theorem name_space (h : IsName text) (rest : List Char) :
    name (text ++ ' ' :: rest) = some (String.ofList text, ' ' :: rest) :=
  name_append h _ (stops isWordChar_space)

/-- An operand in front of a space is taken off. -/
theorem operand_space (h : IsOperand text) (rest : List Char) :
    operand (text ++ ' ' :: rest) = some (String.ofList text, ' ' :: rest) :=
  operand_append h _ (stops rfl)

/-- A whole name is taken off. -/
theorem name_whole (h : IsName text) : name text = some (String.ofList text, []) := by
  have hname := name_append h [] nofun
  rwa [List.append_nil] at hname

/-- A whole operand is taken off. -/
theorem operand_whole (h : IsOperand text) : operand text = some (String.ofList text, []) := by
  have hoperand := operand_append h [] nofun
  rwa [List.append_nil] at hoperand

end Scanner

/-! ## Forms of instructions -/

namespace Instruction

open Scanner

variable {text rest word first second sign : List Char}

/-- There is no arrow where the second character is no equals sign. -/
theorem arrow_eq_none (h : ∀ others, rest ≠ ' ' :: '=' :: others) : arrow rest = none := by
  cases harrow : arrow rest with
  | none => rfl
  | some result => exact absurd (exactly_eq_some harrow) (h _)

/-- A name does not begin with the sign of an arrow. -/
theorem arrow_name (h : IsName text) (rest : List Char) : arrow (' ' :: (text ++ rest)) = none := by
  obtain ⟨c, others, rfl, hc, -⟩ := h
  refine arrow_eq_none fun others' heq => ?_
  cases (List.cons.inj (List.cons.inj heq).2).1
  cases hc

/-- An operand that begins like an arrow is its sign, and a space follows it. -/
theorem eq_of_arrow {result : Unit × List Char} (h : IsOperand text)
    (hrest : ∀ c ∈ rest.head?, isBare c = false)
    (harrow : arrow (' ' :: (text ++ rest)) = some result) :
    text = ['='] ∧ rest = ' ' :: result.2 := by
  have htext : text ++ rest = '=' :: ' ' :: result.2 :=
    (List.cons.inj (exactly_eq_some harrow)).2
  cases h with
  | bare hne htextBare =>
    have hsplit := takeWhile_append_stop htextBare rest hrest
    rw [htext] at hsplit
    exact ⟨hsplit.1.symm, hsplit.2.symm⟩
  | plain | escaped => cases (List.cons.inj htext).1

/-- What has no target is of one of the other forms. -/
theorem scan_eq {name' : String} (hname : name text = some (name', rest))
    (harrow : arrow rest = none) :
    scan text = (scanCall none <|> scanLabel <|> scanJump <|> scanBranch <|> scanParam) text := by
  have hstored : scanStoredCall text = none := by
    rw [scanStoredCall, bind_some hname, bind_none harrow]
  have hbinary : scanBinary text = none := by rw [scanBinary, bind_some hname, bind_none harrow]
  have hunary : scanUnary text = none := by rw [scanUnary, bind_some hname, bind_none harrow]
  have hcopy : scanCopy text = none := by rw [scanCopy, bind_some hname, bind_none harrow]
  rw [scan, orElse_none hstored]
  cases hcall : scanCall none text with
  | some result => rw [orElse_some hcall, orElse_some hcall]
  | none =>
    rw [orElse_none hcall, orElse_none hcall, orElse_none hbinary, orElse_none hunary,
      orElse_none hcopy]

/-- The word that begins a call. -/
theorem isName_call : IsName ['c', 'a', 'l', 'l'] := (IsWord.of_all rfl rfl).isName

/-- There is no call where the first word is not followed by a space and another word. -/
theorem scanCall_eq_none {name' : String} (target : Option String)
    (hname : name text = some (name', rest)) (hrest : ∀ others, rest = ' ' :: others →
      name others = none) : scanCall target text = none := by
  unfold scanCall
  cases hexactly : exactly ['c', 'a', 'l', 'l', ' '] text with
  | none => exact bind_none hexactly
  | some result =>
    have htext := exactly_eq_some hexactly
    have hword : name (['c', 'a', 'l', 'l'] ++ ' ' :: result.2) =
        some ("call", ' ' :: result.2) := name_space isName_call result.2
    rw [htext] at hname
    cases hname.symm.trans hword
    rw [bind_some hexactly, bind_none (hrest _ rfl)]

/-- There is no call where the first character is another one. -/
theorem scanCall_ne {c : Char} (target : Option String) (h : 'c' ≠ c) :
    scanCall target (c :: rest) = none :=
  bind_none (exactly_ne h)

/-- An operand begins no call, unless a name follows behind a space. -/
theorem scanCall_operand (target : Option String) (h : IsOperand text) (rest : List Char)
    (hstop : ∀ c ∈ rest.head?, isBare c = false)
    (hrest : ∀ others, rest = ' ' :: others → name others = none) :
    scanCall target (text ++ rest) = none := by
  cases h with
  | bare hne htext =>
    unfold scanCall
    cases hexactly : exactly ['c', 'a', 'l', 'l', ' '] (text ++ rest) with
    | none => exact bind_none hexactly
    | some result =>
      obtain ⟨-, hdrop⟩ := takeWhile_append_stop htext rest hstop
      rw [exactly_eq_some hexactly] at hdrop
      rw [bind_some hexactly]
      exact bind_none (hrest result.2 hdrop.symm)
  | plain | escaped => exact scanCall_ne target (by simp)

/-! ## Forms without a target -/

/-- A label. -/
theorem scan_label (h : IsName word) :
    scan (word ++ [':']) = some (.label (String.ofList word), []) := by
  have hname := name_append h [':'] (stops isWordChar_colon)
  rw [scan_eq hname (arrow_eq_none nofun), orElse_none (scanCall_eq_none none hname nofun)]
  refine orElse_some ?_
  rw [scanLabel, bind_some hname]
  rfl

/-- There is no label where the first word is followed by something else than a colon. -/
theorem scanLabel_eq_none {name' : String} {c : Char} (hname : name text = some (name', c :: rest))
    (h : ':' ≠ c) : scanLabel text = none := by
  rw [scanLabel, bind_some hname, bind_none (exactly_ne h)]

/-- What begins with a word and a space, and is no call, has one of the last three forms. -/
theorem scan_eq_of_space {name' : String} (hname : name text = some (name', ' ' :: rest))
    (harrow : arrow (' ' :: rest) = none) (hcall : scanCall none text = none) :
    scan text = (scanJump <|> scanBranch <|> scanParam) text := by
  rw [scan_eq hname harrow, orElse_none hcall, orElse_none (scanLabel_eq_none hname (by simp))]

/-- A jump. -/
theorem scan_jump (h : IsName word) :
    scan (['g', 'o', 't', 'o', ' '] ++ word) = some (.jump (String.ofList word), []) := by
  have hgoto : IsName ['g', 'o', 't', 'o'] := (IsWord.of_all rfl rfl).isName
  have hname : name (['g', 'o', 't', 'o', ' '] ++ word) = some ("goto", ' ' :: word) :=
    name_space hgoto word
  have harrow := arrow_name h []
  rw [List.append_nil] at harrow
  rw [scan_eq_of_space hname harrow (scanCall_ne none (by simp))]
  refine orElse_some ?_
  rw [scanJump, bind_some (exactly_append ['g', 'o', 't', 'o', ' '] word), bind_some (name_whole h)]
  rfl

/-- A parameter. -/
theorem scan_param (hne : text ≠ []) (hbreak : '\n' ∉ text)
    (harrow : arrow (' ' :: text) = none) :
    scan (['p', 'a', 'r', 'a', 'm', ' '] ++ text) = some (.param (String.ofList text), []) := by
  have hparam : IsName ['p', 'a', 'r', 'a', 'm'] := (IsWord.of_all rfl rfl).isName
  have hname : name (['p', 'a', 'r', 'a', 'm', ' '] ++ text) = some ("param", ' ' :: text) :=
    name_space hparam text
  have hrest : restOfLine text = some (String.ofList text, []) := by
    rw [restOfLine, if_neg]
    simp [hne, hbreak]
  rw [scan_eq_of_space hname harrow (scanCall_ne none (by simp))]
  have hjump : scanJump (['p', 'a', 'r', 'a', 'm', ' '] ++ text) = none :=
    bind_none (exactly_ne (by simp))
  have hbranch : scanBranch (['p', 'a', 'r', 'a', 'm', ' '] ++ text) = none :=
    bind_none (exactly_ne (by simp))
  rw [orElse_none hjump, orElse_none hbranch, scanParam,
    bind_some (exactly_append ['p', 'a', 'r', 'a', 'm', ' '] text), bind_some hrest]
  rfl

/-- What a call reads of its count. -/
theorem scanCall_append (target : Option String) (h : IsName word) (count : Nat) :
    scanCall target (['c', 'a', 'l', 'l', ' '] ++ (word ++ ([',', ' '] ++
      (toString count).toList))) = some (.call (String.ofList word) count target, []) := by
  have hname : name (word ++ ([',', ' '] ++ (toString count).toList)) =
      some (String.ofList word, [',', ' '] ++ (toString count).toList) :=
    name_append h _ (stops isWordChar_comma)
  rw [scanCall, bind_some (exactly_append _ _), bind_some hname,
    bind_some (exactly_append [',', ' '] _), bind_some (number_toString count)]
  rfl

/-- A call. -/
theorem scan_call (h : IsName word) (count : Nat) :
    scan (['c', 'a', 'l', 'l', ' '] ++ (word ++ ([',', ' '] ++ (toString count).toList))) =
      some (.call (String.ofList word) count none, []) := by
  have hname : name (['c', 'a', 'l', 'l', ' '] ++ (word ++ ([',', ' '] ++
      (toString count).toList))) = some ("call", ' ' :: (word ++ ([',', ' '] ++
      (toString count).toList))) := name_space isName_call _
  rw [scan_eq hname (arrow_name h _)]
  exact orElse_some (scanCall_append none h count)

/-! ## Forms with a target -/

/-- What follows the name of a target. -/
theorem name_target (h : IsName word) (rest : List Char) :
    name (word ++ ([' ', '=', ' '] ++ rest)) = some (String.ofList word, [' ', '=', ' '] ++ rest) :=
  name_space h _

/-- A call whose value is stored. -/
theorem scan_storedCall (htarget : IsName word) (h : IsName first) (count : Nat) :
    scan (word ++ ([' ', '=', ' '] ++ (['c', 'a', 'l', 'l', ' '] ++ (first ++ ([',', ' '] ++
      (toString count).toList))))) =
      some (.call (String.ofList first) count (some (String.ofList word)), []) := by
  refine orElse_some ?_
  rw [scanStoredCall, bind_some (name_target htarget _), arrow, bind_some (exactly_append _ _),
    scanCall_append _ h count]

/-- The operators of all assignments. -/
def signs : List (List Char) := binaryOperators ++ unaryOperators

/-- An operator is written like an operand, without spaces, and begins no name. -/
theorem of_mem_signs (h : sign ∈ signs) : sign ≠ [] ∧ (∀ c ∈ sign, isBare c = true) ∧
    (∀ c ∈ sign, (c != ' ') = true) ∧ ∀ rest, name (sign ++ rest) = none := by
  have hall : signs.all (fun sign => sign.all (fun c => isBare c && c != ' ') &&
      sign.head?.any fun c => !isNameStart c) = true := rfl
  have hsign := List.all_eq_true.1 hall sign h
  rw [Bool.and_eq_true, List.all_eq_true] at hsign
  cases sign with
  | nil => cases hsign.2
  | cons c others =>
    refine ⟨List.cons_ne_nil c others, fun d hd => ?_, fun d hd => ?_, fun rest => ?_⟩
    · exact (Bool.and_eq_true _ _ ▸ hsign.1 d hd).1
    · exact (Bool.and_eq_true _ _ ▸ hsign.1 d hd).2
    · exact name_eq_none (by simpa using hsign.2)

/-- An operator and a space are taken off. -/
theorem operator_append {operators : List (List Char)} (hmem : sign ∈ operators)
    (h : sign ∈ signs) :
    operator operators (sign ++ ' ' :: rest) = some (String.ofList sign, ' ' :: rest) := by
  obtain ⟨hne, -, hspace, -⟩ := of_mem_signs h
  have hrun : run (· != ' ') (sign ++ ' ' :: rest) = some (sign, ' ' :: rest) :=
    run_append hne hspace _ (stops rfl)
  rw [operator, bind_some hrun, if_pos hmem]
  rfl

/-- In an operand no space follows an operator. -/
theorem operator_operand {Value : Type} {operators : List (List Char)}
    (hoperators : operators ⊆ signs) (h : IsOperand text) (next : String → Scanner Value) :
    (do
      let sign ← operator operators
      exactly [' ']
      next sign) text = none := by
  cases hoperator : operator operators text with
  | none => exact bind_none hoperator
  | some result =>
    obtain ⟨sign, left⟩ := result
    rw [bind_some hoperator]
    refine bind_none ?_
    cases hrun : run (· != ' ') text with
    | none =>
      rw [operator, bind_none hrun] at hoperator
      cases hoperator
    | some taken =>
      rw [operator, bind_some hrun] at hoperator
      split at hoperator
      · next hmem =>
        cases hoperator
        cases h with
        | bare hne htext =>
          have hspace : ∀ c ∈ text, (c != ' ') = true := by
            intro c hc
            rw [bne_iff_ne]
            rintro rfl
            cases htext _ hc
          have hall := run_append hne hspace [] nofun
          rw [List.append_nil] at hall
          cases hrun.symm.trans hall
          rfl
        | plain | escaped =>
          obtain ⟨-, hbare, -⟩ := of_mem_signs (hoperators hmem)
          obtain ⟨htext, hne, -⟩ := run_eq_some hrun
          obtain ⟨c, others, htaken⟩ := List.exists_cons_of_ne_nil hne
          rw [htaken] at htext hbare
          cases (List.cons.inj htext).1
          cases hbare _ (.head _)
      · cases hoperator

/-- What has a target and is no call is an assignment or of a later form. -/
theorem scan_eq_of_arrow (htarget : IsName word)
    (hcall : scanCall (some (String.ofList word)) rest = none) :
    scan (word ++ ([' ', '=', ' '] ++ rest)) = (scanBinary <|> scanUnary <|> scanCopy <|>
      scanLabel <|> scanJump <|> scanBranch <|> scanParam) (word ++ ([' ', '=', ' '] ++ rest)) := by
  have hname := name_target htarget rest
  have hstored : scanStoredCall (word ++ ([' ', '=', ' '] ++ rest)) = none := by
    rw [scanStoredCall, bind_some hname, arrow, bind_some (exactly_append _ _), hcall]
  have hplain : scanCall none (word ++ ([' ', '=', ' '] ++ rest)) = none := by
    refine scanCall_eq_none none hname fun others heq => ?_
    cases heq
    exact name_eq_none rfl
  rw [scan, orElse_none hstored, orElse_none hplain]

/-- An assignment with two operands. -/
theorem scan_binary (htarget : IsName word) (hfirst : IsOperand first)
    (hsign : sign ∈ binaryOperators) (hsecond : IsOperand second) :
    scan (word ++ ([' ', '=', ' '] ++ (first ++ ([' '] ++ (sign ++ ([' '] ++ second)))))) =
      some (.assign (String.ofList word) (some (String.ofList first)) (some (String.ofList sign))
        (some (String.ofList second)), []) := by
  have hsign' : sign ∈ signs := List.mem_append_left _ hsign
  have hcall : scanCall (some (String.ofList word))
      (first ++ ([' '] ++ (sign ++ ([' '] ++ second)))) = none := by
    refine scanCall_operand _ hfirst _ (stops rfl) fun others heq => ?_
    cases heq
    exact (of_mem_signs hsign').2.2.2 _
  have hoperand : operand (first ++ ([' '] ++ (sign ++ ([' '] ++ second)))) =
      some (String.ofList first, [' '] ++ (sign ++ ([' '] ++ second))) :=
    operand_space hfirst _
  have hoperator : operator binaryOperators (sign ++ ([' '] ++ second)) =
      some (String.ofList sign, [' '] ++ second) := operator_append hsign hsign'
  rw [scan_eq_of_arrow htarget hcall]
  refine orElse_some ?_
  rw [scanBinary, bind_some (name_target htarget _), arrow, bind_some (exactly_append _ _),
    bind_some hoperand, bind_some (exactly_append _ _), bind_some hoperator,
    bind_some (exactly_append _ _), bind_some (operand_whole hsecond)]
  rfl

/-- An assignment with an operator in front of its operand. -/
theorem scan_unary (htarget : IsName word) (hsign : sign ∈ unaryOperators)
    (hfirst : IsOperand first) :
    scan (word ++ ([' ', '=', ' '] ++ (sign ++ ([' '] ++ first)))) =
      some (.assign (String.ofList word) (some (String.ofList first)) (some (String.ofList sign))
        none, []) := by
  have hsign' : sign ∈ signs := List.mem_append_right _ hsign
  obtain ⟨hne, hbare, -⟩ := of_mem_signs hsign'
  have hcall : scanCall (some (String.ofList word)) (sign ++ ([' '] ++ first)) = none := by
    have hall : unaryOperators.all (fun sign => sign.head?.all fun c => !('c' == c)) = true := rfl
    have hhead := List.all_eq_true.1 hall sign hsign
    cases sign with
    | nil => exact absurd rfl hne
    | cons c others => exact scanCall_ne _ (bne_iff_ne.1 hhead)
  have hoperand : operand (sign ++ ([' '] ++ first)) =
      some (String.ofList sign, [' '] ++ first) :=
    operand_bare hne hbare (stops rfl)
  -- The operator may be read as the first operand of a binary form, and then its own operand, be
  -- it written like an operator, is not followed by a second one.
  have hbinary : scanBinary (word ++ ([' ', '=', ' '] ++ (sign ++ ([' '] ++ first)))) = none := by
    rw [scanBinary, bind_some (name_target htarget _), arrow, bind_some (exactly_append _ _),
      bind_some hoperand, bind_some (exactly_append _ _),
      operator_operand (List.subset_append_left _ _) hfirst]
  have hoperator : operator unaryOperators (sign ++ ([' '] ++ first)) =
      some (String.ofList sign, [' '] ++ first) := operator_append hsign hsign'
  rw [scan_eq_of_arrow htarget hcall, orElse_none hbinary]
  refine orElse_some ?_
  rw [scanUnary, bind_some (name_target htarget _), arrow, bind_some (exactly_append _ _),
    bind_some hoperator, bind_some (exactly_append _ _), bind_some (operand_whole hfirst)]
  rfl

/-- An assignment without an operator. -/
theorem scan_copy (htarget : IsName word) (hfirst : IsOperand first) :
    scan (word ++ ([' ', '=', ' '] ++ first)) =
      some (.assign (String.ofList word) (some (String.ofList first)) none none, []) := by
  have hcall : scanCall (some (String.ofList word)) first = none := by
    have hoperand := scanCall_operand (some (String.ofList word)) hfirst [] nofun nofun
    rwa [List.append_nil] at hoperand
  have hbinary : scanBinary (word ++ ([' ', '=', ' '] ++ first)) = none := by
    rw [scanBinary, bind_some (name_target htarget _), arrow, bind_some (exactly_append _ _),
      bind_some (operand_whole hfirst)]
    rfl
  have hunary : scanUnary (word ++ ([' ', '=', ' '] ++ first)) = none := by
    rw [scanUnary, bind_some (name_target htarget _), arrow, bind_some (exactly_append _ _),
      operator_operand (List.subset_append_right _ _) hfirst]
  rw [scan_eq_of_arrow htarget hcall, orElse_none hbinary, orElse_none hunary]
  refine orElse_some ?_
  rw [scanCopy, bind_some (name_target htarget _), arrow, bind_some (exactly_append _ _),
    bind_some (operand_whole hfirst)]
  rfl

/-! ## Jumps under a condition -/

/-- What follows the sign of an arrow, where it is the condition of a jump, is nothing that could
be stored. -/
theorem scan_eq_of_goto (h : IsName word) :
    scan (['i', 'f'] ++ ([' ', '=', ' '] ++ (['g', 'o', 't', 'o', ' '] ++ word))) =
      (scanJump <|> scanBranch <|> scanParam)
        (['i', 'f'] ++ ([' ', '=', ' '] ++ (['g', 'o', 't', 'o', ' '] ++ word))) := by
  have hif : IsName ['i', 'f'] := (IsWord.of_all rfl rfl).isName
  have hgoto : IsName ['g', 'o', 't', 'o'] := (IsWord.of_all rfl rfl).isName
  have hname := name_target hif (['g', 'o', 't', 'o', ' '] ++ word)
  have hcall : scanCall (some (String.ofList ['i', 'f'])) (['g', 'o', 't', 'o', ' '] ++ word) =
      none := scanCall_ne _ (by simp)
  have hoperand : operand (['g', 'o', 't', 'o', ' '] ++ word) = some ("goto", [' '] ++ word) :=
    operand_space hgoto.isOperand word
  have hbinary : scanBinary (['i', 'f'] ++ ([' ', '=', ' '] ++ (['g', 'o', 't', 'o', ' '] ++
      word))) = none := by
    rw [scanBinary, bind_some hname, arrow, bind_some (exactly_append _ _), bind_some hoperand,
      bind_some (exactly_append [' '] word),
      operator_operand (List.subset_append_left _ _) h.isOperand]
  have hunary : scanUnary (['i', 'f'] ++ ([' ', '=', ' '] ++ (['g', 'o', 't', 'o', ' '] ++
      word))) = none := by
    have hrun : run (· != ' ') (['g', 'o', 't', 'o', ' '] ++ word) =
        some (['g', 'o', 't', 'o'], ' ' :: word) :=
      @run_append ['g', 'o', 't', 'o'] _ nofun (List.all_eq_true.1 rfl) (' ' :: word) (stops rfl)
    have hoperator : operator unaryOperators (['g', 'o', 't', 'o', ' '] ++ word) = none := by
      rw [operator, bind_some hrun]
      rfl
    rw [scanUnary, bind_some hname, arrow, bind_some (exactly_append _ _), bind_none hoperator]
  have hcopy : scanCopy (['i', 'f'] ++ ([' ', '=', ' '] ++ (['g', 'o', 't', 'o', ' '] ++
      word))) = none := by
    rw [scanCopy, bind_some hname, arrow, bind_some (exactly_append _ _), bind_some hoperand]
    rfl
  rw [scan_eq_of_arrow hif hcall, orElse_none hbinary, orElse_none hunary, orElse_none hcopy,
    orElse_none (scanLabel_eq_none hname (by simp))]

/-- A jump under a condition. -/
theorem scan_branch (hfirst : IsOperand first) (h : IsName word) :
    scan (['i', 'f', ' '] ++ (first ++ ([' ', 'g', 'o', 't', 'o', ' '] ++ word))) =
      some (.branch (String.ofList first) (String.ofList word), []) := by
  have hif : IsName ['i', 'f'] := (IsWord.of_all rfl rfl).isName
  have hname : name (['i', 'f', ' '] ++ (first ++ ([' ', 'g', 'o', 't', 'o', ' '] ++ word))) =
      some ("if", ' ' :: (first ++ ([' ', 'g', 'o', 't', 'o', ' '] ++ word))) :=
    name_space hif _
  have hoperand : operand (first ++ ([' ', 'g', 'o', 't', 'o', ' '] ++ word)) =
      some (String.ofList first, [' ', 'g', 'o', 't', 'o', ' '] ++ word) := operand_space hfirst _
  have hscan : scan (['i', 'f', ' '] ++ (first ++ ([' ', 'g', 'o', 't', 'o', ' '] ++ word))) =
      (scanJump <|> scanBranch <|> scanParam)
        (['i', 'f', ' '] ++ (first ++ ([' ', 'g', 'o', 't', 'o', ' '] ++ word))) := by
    cases harrow : arrow (' ' :: (first ++ ([' ', 'g', 'o', 't', 'o', ' '] ++ word))) with
    | none => exact scan_eq_of_space hname harrow (scanCall_ne none (by simp))
    | some result =>
      obtain ⟨rfl, -⟩ := eq_of_arrow hfirst (stops rfl) harrow
      exact scan_eq_of_goto h
  have hjump : scanJump (['i', 'f', ' '] ++ (first ++ ([' ', 'g', 'o', 't', 'o', ' '] ++ word))) =
      none := bind_none (exactly_ne (by simp))
  rw [hscan, orElse_none hjump]
  refine orElse_some ?_
  rw [scanBranch, bind_some (exactly_append ['i', 'f', ' '] _), bind_some hoperand,
    bind_some (exactly_append [' ', 'g', 'o', 't', 'o', ' '] word), bind_some (name_whole h)]
  rfl

end Instruction

end ThreeAddress
