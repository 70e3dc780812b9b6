import Mathlib.Data.List.Induction
import ThreeAddress.Proofs.Code.Reading
import ThreeAddress.Proofs.Token.Lexemes

/-!
# Integer constants of C

A row of digits is a constant of C in one of two forms. With a zero in front it is octal, and
otherwise it is decimal. So it has the value that it has as a literal iff its digits are those of
ASCII, the value is below eight if there is a zero in front, and some type of C holds it
(`CUnit.integerConstant?_eq_some_iff`).
-/

namespace ThreeAddress.CUnit

open Text

/-- The largest values of the signed and of the unsigned integer types. -/
structure IntegerLimits where
  signed : Nat := 9223372036854775807
  unsigned : Nat := 18446744073709551615
  /-- There is a signed type of 64 bits. -/
  signed_ge : 9223372036854775807 ≤ signed := by decide
  /-- There is an unsigned type of 64 bits. -/
  unsigned_ge : 18446744073709551615 ≤ unsigned := by decide

/-- A value up to a limit. -/
def within? (limit value : Nat) : Option Nat := if value ≤ limit then some value else none

/-- Whether a character is an octal digit. -/
def isOctal (c : Char) : Bool := '0' ≤ c && c ≤ '7'

/-- The value of a row of digits as a constant, if it is one. Constants with letters, which are
hexadecimal or have a suffix, are left out. -/
def integerConstant? (limits : IntegerLimits) : List Char → Option Nat
  | [] => none
  | c :: rest =>
    if c = '0' then
      if rest.all isOctal then within? limits.unsigned (Nat.ofDigitChars 8 rest 0) else none
    else if (c :: rest).all Char.isDigit then
      within? limits.signed (Nat.ofDigitChars 10 (c :: rest) 0)
    else none

/-- A zero in front makes a constant octal, or none. -/
example : integerConstant? {} ['1', '0'] = some 10 ∧ integerConstant? {} ['0', '1', '0'] = some 8 ∧
    integerConstant? {} ['0', '8'] = none := by decide

variable {digits : List Char}

/-- One more digit. -/
theorem ofDigitChars_append_singleton (base : Nat) (digits : List Char) (c : Char) :
    Nat.ofDigitChars base (digits ++ [c]) 0 =
      base * Nat.ofDigitChars base digits 0 + (c.toNat - 48) := by
  rw [Nat.ofDigitChars_append]
  rfl

/-- The octal value of digits is at most their decimal value. -/
theorem ofDigitChars_eight_le (digits : List Char) :
    Nat.ofDigitChars 8 digits 0 ≤ Nat.ofDigitChars 10 digits 0 := by
  induction digits using List.reverseRecOn with
  | nil => exact Nat.le_refl _
  | append_singleton digits c ih =>
    rw [ofDigitChars_append_singleton, ofDigitChars_append_singleton]
    omega

/-- The octal digits are those digits of ASCII whose value is below eight. -/
theorem isOctal_iff {c : Char} : isOctal c = true ↔ c.isDigit = true ∧ c.toNat - 48 < 8 := by
  have hseven : c ≤ '7' ↔ c.toNat ≤ 55 := Iff.rfl
  have hzero : '0' ≤ c ↔ 48 ≤ c.toNat := Iff.rfl
  have hdigit : c.isDigit = true ↔ 48 ≤ c.toNat ∧ c.toNat ≤ 57 := Char.isDigit_iff_toNat
  rw [isOctal, Bool.and_eq_true, decide_eq_true_iff, decide_eq_true_iff, hseven, hzero, hdigit]
  omega

/-- Digits are octal and have their decimal value iff this value is below eight. -/
theorem octal_iff (h : ∀ c ∈ digits, c.isDigit = true) :
    (digits.all isOctal = true ∧ Nat.ofDigitChars 8 digits 0 = Nat.ofDigitChars 10 digits 0) ↔
      Nat.ofDigitChars 10 digits 0 < 8 := by
  induction digits using List.reverseRecOn with
  | nil => simp
  | append_singleton digits c ih =>
    obtain ⟨hdigits, hc⟩ := List.forall_mem_append.1 h
    have hle := ofDigitChars_eight_le digits
    rw [List.all_append, Bool.and_eq_true, List.all_cons, List.all_nil, Bool.and_true, isOctal_iff,
      ofDigitChars_append_singleton, ofDigitChars_append_singleton]
    constructor
    · rintro ⟨⟨-, -, hlt⟩, heq⟩
      omega
    · intro hlt
      obtain ⟨hall, heq⟩ := (ih hdigits).2 (by omega)
      exact ⟨⟨hall, hc c (.head _), by omega⟩, by omega⟩

/-- A value up to a limit is that value. -/
theorem within?_eq_some_iff {limit value wanted : Nat} :
    within? limit value = some wanted ↔ value = wanted ∧ wanted ≤ limit := by
  rw [within?]
  split
  · next hle => exact ⟨fun h => by cases h; exact ⟨rfl, hle⟩, fun h => congrArg some h.1⟩
  · next hlt => exact ⟨nofun, fun h => absurd (h.1 ▸ h.2) hlt⟩

/-- A literal is a constant with its value iff its digits are those of ASCII, the value is below
eight if there is a zero in front, and a signed type holds the value. -/
theorem integerConstant?_eq_some_iff {text : List Char} (h : IsLexeme .intLit text)
    (limits : IntegerLimits) : integerConstant? limits text = some (decimalNumber text) ↔
      (∀ c ∈ text, c.isDigit = true) ∧ (text.head? = some '0' → decimalNumber text < 8) ∧
        decimalNumber text ≤ limits.signed := by
  have hvalue {digits : List Char} (h : ∀ c ∈ digits, c.isDigit = true) :
      decimalNumber digits = Nat.ofDigitChars 10 digits 0 :=
    Scanner.decimalNumber_eq fun c hc => Char.isDigit_iff_toNat.1 (h c hc)
  cases h with
  | spelled hspelling => cases hspelling
  | @whole c rest hc hrest =>
    rw [integerConstant?, List.head?_cons]
    by_cases hzero : c = '0'
    · subst hzero
      have hdecimal (hrest : ∀ d ∈ rest, d.isDigit = true) :
          decimalNumber ('0' :: rest) = Nat.ofDigitChars 10 rest 0 :=
        hvalue (List.forall_mem_cons.2 ⟨rfl, hrest⟩)
      have hsigned := limits.signed_ge
      have hunsigned := limits.unsigned_ge
      rw [if_pos rfl]
      constructor
      · intro hread
        split at hread
        · next hoctal =>
          have hdigits : ∀ d ∈ rest, d.isDigit = true := fun d hd =>
            (isOctal_iff.1 (List.all_eq_true.1 hoctal d hd)).1
          obtain ⟨heq, -⟩ := within?_eq_some_iff.1 hread
          rw [hdecimal hdigits] at heq ⊢
          have hlt := (octal_iff hdigits).1 ⟨hoctal, heq⟩
          exact ⟨List.forall_mem_cons.2 ⟨rfl, hdigits⟩, fun _ => hlt, by omega⟩
        · cases hread
      · rintro ⟨hdigits, hlt, -⟩
        obtain ⟨-, hdigits⟩ := List.forall_mem_cons.1 hdigits
        have hlt := hlt rfl
        rw [hdecimal hdigits] at hlt ⊢
        obtain ⟨hoctal, heq⟩ := (octal_iff hdigits).2 hlt
        rw [if_pos hoctal, within?_eq_some_iff]
        exact ⟨heq, by omega⟩
    · rw [if_neg hzero]
      constructor
      · intro hread
        split at hread
        · next hall =>
          obtain ⟨-, hle⟩ := within?_eq_some_iff.1 hread
          exact ⟨List.all_eq_true.1 hall, fun h => absurd (Option.some.inj h) hzero, hle⟩
        · cases hread
      · rintro ⟨hdigits, -, hle⟩
        rw [if_pos (List.all_eq_true.2 hdigits), within?_eq_some_iff]
        exact ⟨(hvalue hdigits).symm, hle⟩

end ThreeAddress.CUnit
