import Mathlib.Data.List.Induction
import ThreeAddress.CUnit.Statement

/-!
# String literals of C

A string literal of C ends at the first quotation mark that no backslash escapes. So between marks a
text without marks is a whole literal iff there is an even number of backslashes at its end
(`CUnit.isStringLiteral_iff`). After an odd number the mark behind it is escaped, and the literal
goes on into what follows (`CUnit.behindString?_quoted`).
-/

namespace ThreeAddress.CUnit

/-- What stands behind a string literal whose opening mark has been read, if the literal is closed.
A backslash escapes the next character. -/
def behindString? (escaped : Bool) : List Char → Option (List Char)
  | [] => none
  | c :: rest =>
    if escaped then behindString? false rest
    else if c = '\x22' then some rest
    else behindString? (c == '\\') rest

/-- Whether a text is a string literal with nothing behind it. -/
def isStringLiteral : List Char → Bool
  | '\x22' :: rest => behindString? false rest = some []
  | _ => false

/-- How many backslashes stand at the end of a text. -/
def trailingBackslashes (text : List Char) : Nat := (text.reverse.takeWhile (· == '\\')).length

/-- Two pairs of backslashes are two characters, three backslashes escape the mark. -/
example : isStringLiteral ['\x22', '\\', '\\', '\\', '\\', '\x22'] = true ∧
    behindString? false ['\\', '\\', '\\', '\x22', ')', '\x22', ';'] = some [';'] := by decide

/-- Whether the next character is escaped, after a character that is no mark. -/
def escapesNext (escaped : Bool) (c : Char) : Bool := !escaped && c == '\\'

variable {body : List Char}

/-- A text without marks does not end a literal. -/
theorem behindString?_append (h : '\x22' ∉ body) (escaped : Bool) (rest : List Char) :
    behindString? escaped (body ++ rest) = behindString? (body.foldl escapesNext escaped) rest := by
  induction body generalizing escaped with
  | nil => rfl
  | cons c body ih =>
    obtain ⟨hc, hbody⟩ := not_or.1 (List.mem_cons.not.1 h)
    rw [List.cons_append, behindString?, List.foldl_cons, ← ih hbody]
    cases escaped with
    | true => rfl
    | false =>
      rw [if_neg Bool.false_ne_true, if_neg (Ne.symm hc)]
      rfl

/-- A character behind a text is one more backslash, or there is none at the end. -/
theorem trailingBackslashes_append (body : List Char) (c : Char) :
    trailingBackslashes (body ++ [c]) = if c == '\\' then trailingBackslashes body + 1 else 0 := by
  rw [trailingBackslashes, List.reverse_append, List.reverse_singleton, List.singleton_append,
    List.takeWhile_cons]
  split <;> rfl

/-- What stands behind a text without marks is escaped iff the text ends in an odd number of
backslashes. -/
theorem foldl_escapesNext (body : List Char) :
    body.foldl escapesNext false = decide (trailingBackslashes body % 2 = 1) := by
  induction body using List.reverseRecOn with
  | nil => rfl
  | append_singleton body c ih =>
    rw [List.foldl_append, List.foldl_cons, List.foldl_nil, ih, escapesNext,
      trailingBackslashes_append]
    cases c == '\\' with
    | false => simp
    | true =>
      rw [if_pos rfl, Bool.and_true, ← decide_not, decide_eq_decide]
      omega

/-- A text without marks and a mark behind it: the literal ends there, or goes on behind it. -/
theorem behindString?_quoted (h : '\x22' ∉ body) (rest : List Char) :
    behindString? false (body ++ '\x22' :: rest) =
      if trailingBackslashes body % 2 = 0 then some rest else behindString? false rest := by
  rw [behindString?_append h, foldl_escapesNext, behindString?]
  by_cases heven : trailingBackslashes body % 2 = 0
  · simp [heven]
  · have hodd : trailingBackslashes body % 2 = 1 := by omega
    simp [hodd]

/-- A text without marks is a literal between marks iff it ends in an even number of
backslashes. -/
theorem isStringLiteral_iff (h : '\x22' ∉ body) :
    isStringLiteral ('\x22' :: (body ++ ['\x22'])) = true ↔ trailingBackslashes body % 2 = 0 := by
  rw [isStringLiteral, behindString?_quoted h, decide_eq_true_iff]
  split
  · next heven => simp [heven]
  · next hodd => simp [hodd, behindString?]

end ThreeAddress.CUnit
