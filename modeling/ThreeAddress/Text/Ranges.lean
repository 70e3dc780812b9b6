/-!
# Ranges of code points

A character class is given as a list of ranges of code points. Membership is a walk over the
list, so a class is data that can be printed, counted and compared, and whether one class lies
inside another is decided by comparing their ranges.
-/

namespace ThreeAddress.Text

/-- A class of characters: ranges of code points with both ends included. -/
abbrev Ranges := List (Nat × Nat)

/-- Whether the code point of `c` lies in one of the ranges. -/
def Ranges.contains (ranges : Ranges) (c : Char) : Bool :=
  ranges.any fun range => range.1 ≤ c.toNat && c.toNat ≤ range.2

/-- The first code point of the range that holds `c`. -/
def Ranges.start? (ranges : Ranges) (c : Char) : Option Nat :=
  (ranges.find? fun range => range.1 ≤ c.toNat && c.toNat ≤ range.2).map (·.1)

/-- A class of no ranges has no members. -/
@[simp] theorem Ranges.contains_nil (c : Char) : Ranges.contains [] c = false := rfl

end ThreeAddress.Text
