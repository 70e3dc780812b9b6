import ThreeAddress.Report

/-!
# Labels

Labels are named by a stem and a number. The book tells which labels have been placed, each at
most once, and which have been jumped to; it takes names of any form, not only those it has
handed out.
-/

namespace ThreeAddress

/-- The book of labels. -/
structure Labels where
  /-- What the names start with. -/
  stem : String := "L"
  /-- How many names have been handed out. -/
  issued : Nat := 0
  /-- The labels placed, the latest first. -/
  placed : List String := []
  /-- The labels jumped to, each once, in the order of their first jumps. -/
  targets : List String := []
  deriving DecidableEq, Repr

namespace Labels

/-- Hands out the next name. -/
def fresh (labels : Labels) : String × Labels :=
  (labels.stem ++ toString (labels.issued + 1), { labels with issued := labels.issued + 1 })

/-- Enters that a label is placed; there is no place for a second one of the name. -/
def place? (labels : Labels) (name : String) : Option Labels :=
  if name ∈ labels.placed then none else some { labels with placed := name :: labels.placed }

/-- Enters that a label is jumped to. -/
def target (labels : Labels) (name : String) : Labels :=
  if name ∈ labels.targets then labels else { labels with targets := labels.targets ++ [name] }

/-- The labels jumped to and not placed, in the order of their first jumps. -/
def unresolved (labels : Labels) : List String :=
  labels.targets.filter fun name => name ∉ labels.placed

/-- An empty book with the same stem. -/
def reset (labels : Labels) : Labels := { stem := labels.stem }

/-- The report on a label that is placed a second time. -/
def placedTwice (name : String) : Report :=
  .internal "TAC Generator" ("Label " ++ name ++ " defined twice")

end Labels

end ThreeAddress
