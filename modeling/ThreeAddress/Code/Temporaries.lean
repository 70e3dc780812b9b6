/-!
# Temporaries

Temporaries are named `t1`, `t2` and so on and are never handed out twice. A number whose name
is taken when its turn comes is skipped. Among one more number than there are taken names one is
free, so the search for it is bounded.
-/

namespace ThreeAddress

/-- Which numbers have been used. -/
structure Temporaries where
  /-- The last number used. -/
  last : Nat := 0
  /-- The numbers handed out, the latest first. -/
  created : List Nat := []
  /-- The numbers skipped, the latest first. -/
  skipped : List Nat := []
  deriving DecidableEq, Repr

namespace Temporaries

/-- The name of a number. -/
def nameOf (number : Nat) : String := "t" ++ toString number

/-- Takes the next number whose name is not taken, after at most `bound` skipped ones. -/
def next (taken : List String) : Nat → Temporaries → String × Temporaries
  | 0, used =>
    (nameOf (used.last + 1),
      { used with last := used.last + 1, created := (used.last + 1) :: used.created })
  | bound + 1, used =>
    if nameOf (used.last + 1) ∈ taken then
      next taken bound
        { used with last := used.last + 1, skipped := (used.last + 1) :: used.skipped }
    else
      (nameOf (used.last + 1),
        { used with last := used.last + 1, created := (used.last + 1) :: used.created })

/-- Hands out a new name that is not among the taken ones. -/
def allocate (used : Temporaries) (taken : List String) : String × Temporaries :=
  next taken taken.length used

/-- How many names have been handed out. -/
def count (used : Temporaries) : Nat := used.created.length

end Temporaries

end ThreeAddress
