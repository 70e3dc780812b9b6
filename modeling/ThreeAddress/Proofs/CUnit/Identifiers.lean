import ThreeAddress.CUnit.Statement
import ThreeAddress.Proofs.Code.Texts

/-!
# Names that C can declare

A unit declares names as they are given to it. C can declare a name if it is an identifier and not
reserved (`CUnit.IsUsable`). The names of temporaries are of this kind. A name that the lexer knows
is an identifier exactly when its digits are those of ASCII (`CUnit.isUsable_iff`), and which
reserved words the lexer takes for names is a finite list.
-/

namespace ThreeAddress

open Text

namespace CUnit

/-- Whether a text is an identifier of C: letters, digits and underscores, all of ASCII, without a
digit in front. -/
def isIdentifier : List Char → Bool
  | [] => false
  | c :: rest => (c.isAlpha || c == '_') && rest.all fun d => d.isAlphanum || d == '_'

/-- The keywords of C. -/
def keywords : List String :=
  ["auto", "break", "case", "char", "const", "continue", "default", "do", "double", "else", "enum",
   "extern", "float", "for", "goto", "if", "inline", "int", "long", "register", "restrict",
   "return", "short", "signed", "sizeof", "static", "struct", "switch", "typedef", "union",
   "unsigned", "void", "volatile", "while", "_Alignas", "_Alignof", "_Atomic", "_Bool", "_Complex",
   "_Generic", "_Imaginary", "_Noreturn", "_Static_assert", "_Thread_local"]

/-- The macros for truth values, which every unit includes. -/
def macros : List String := ["bool", "true", "false", "__bool_true_false_are_defined"]

/-- The functions that statements call. -/
def functions : List String := ["printf", "scanf", "fmodf"]

/-- The words that a unit must not declare. -/
def reserved : List String := keywords ++ macros ++ functions

/-- What a unit can declare: an identifier of C that is not reserved. -/
structure IsUsable (name : String) : Prop where
  spelled : isIdentifier name.toList = true
  free : name ∉ reserved

instance (name : String) : Decidable (IsUsable name) :=
  decidable_of_iff (isIdentifier name.toList = true ∧ name ∉ reserved)
    ⟨fun h => ⟨h.1, h.2⟩, fun h => ⟨h.spelled, h.free⟩⟩

/-- The reserved words that the lexer takes for names. -/
def foreignWords : List String := reserved.filter fun word => wordKind word.toList = .ident

/-- Only the words that are reserved in both languages cannot be names. -/
example : reserved.filter (· ∉ foreignWords) = ["else", "if", "while", "true", "false"] := by
  decide

/-- A name starts as an identifier does. -/
theorem isNameStart_eq (c : Char) : isNameStart c = (c.isAlpha || c == '_') := by
  have hupper : c.isUpper = ('A' ≤ c && c ≤ 'Z') := Bool.decide_and _ _
  have halpha : c.isAlpha = (c.isUpper || ('a' ≤ c && c ≤ 'z')) := rfl
  rw [isNameStart, halpha, hupper, Bool.or_comm (decide _ && decide _), Bool.or_assoc,
    Bool.or_assoc, Bool.or_comm (c == '_'), Bool.or_assoc]

/-- A character inside a name may stand in an identifier unless it is a digit of another script. -/
theorem isAlphanum_iff {c : Char} (h : isNameChar c = true) :
    (c.isAlphanum || c == '_') = true ↔ (isDigit c = true → c.isDigit = true) := by
  have hsplit : (c.isAlphanum || c == '_') = (isNameStart c || c.isDigit) := by
    rw [isNameStart_eq, Char.isAlphanum, Bool.or_right_comm]
  rw [hsplit]
  by_cases hdigit : isDigit c = true
  · rw [isNameStart_of_isDigit hdigit, Bool.false_or]
    exact ⟨fun h _ => h, fun h => h hdigit⟩
  · have hstart : isNameStart c = true := by simpa [isNameChar, hdigit] using h
    rw [hstart, Bool.true_or]
    exact ⟨fun _ h => absurd h hdigit, fun _ => rfl⟩

/-- A name that the lexer knows is an identifier of C iff its digits are those of ASCII. -/
theorem isIdentifier_iff {name : List Char} (h : IsLexeme .ident name) :
    isIdentifier name = true ↔ ∀ c ∈ name, isDigit c = true → c.isDigit = true := by
  cases h with
  | spelled hspelling => cases hspelling
  | @name c rest hc hrest =>
    have hstart : ¬isDigit c = true := fun hdigit => by
      rw [isNameStart_of_isDigit hdigit] at hc
      cases hc
    rw [isIdentifier, ← isNameStart_eq, hc, Bool.true_and, List.all_eq_true, List.forall_mem_cons]
    constructor
    · exact fun hall => ⟨fun hdigit => absurd hdigit hstart,
        fun d hd => (isAlphanum_iff (hrest d hd)).1 (hall d hd)⟩
    · exact fun hall d hd => (isAlphanum_iff (hrest d hd)).2 (hall.2 d hd)

/-- A word that the lexer takes for a name is foreign if it is reserved. -/
theorem mem_foreignWords {name : String} (h : IsLexeme .ident name.toList) :
    name ∈ foreignWords ↔ name ∈ reserved := by
  have hkind : wordKind name.toList = .ident := by
    cases hname : name.toList with
    | nil =>
      rw [hname] at h
      cases h with
      | spelled hspelling => cases hspelling
    | cons c rest =>
      rw [hname] at h
      cases h with
      | spelled hspelling => cases hspelling
      | name _ _ hkind => exact hkind
  simp [foreignWords, hkind]

/-- A name that the lexer knows can be declared iff its digits are those of ASCII and it is none of
the words that are reserved in C only. -/
theorem isUsable_iff {name : String} (h : IsLexeme .ident name.toList) :
    IsUsable name ↔ (∀ c ∈ name.toList, isDigit c = true → c.isDigit = true) ∧
      name ∉ foreignWords := by
  rw [← isIdentifier_iff h, mem_foreignWords h]
  exact ⟨fun h => ⟨h.spelled, h.free⟩, fun h => ⟨h.1, h.2⟩⟩

/-- A temporary can be declared. -/
theorem isUsable_nameOf (number : Nat) : IsUsable (Temporaries.nameOf number) := by
  have hname : (Temporaries.nameOf number).toList = 't' :: (toString number).toList := by
    rw [Temporaries.nameOf, String.toList_append]
    rfl
  have hdigits : ∀ c ∈ (toString number).toList, c.isDigit = true := fun c hc =>
    Char.isDigit_iff_toNat.2 (Scanner.bounds_of_mem_toString hc)
  refine ⟨?_, fun hmem => ?_⟩
  · rw [hname, isIdentifier, Bool.and_eq_true, List.all_eq_true]
    refine ⟨rfl, fun c hc => ?_⟩
    rw [Char.isAlphanum, hdigits c hc, Bool.or_true, Bool.true_or]
  · have hletters : ∀ word ∈ reserved, word.toList.tail.all Char.isDigit = false := by decide
    have hall : (Temporaries.nameOf number).toList.tail.all Char.isDigit = true := by
      rw [hname, List.tail_cons, List.all_eq_true]
      exact hdigits
    rw [hletters _ hmem] at hall
    cases hall

end CUnit

end ThreeAddress
