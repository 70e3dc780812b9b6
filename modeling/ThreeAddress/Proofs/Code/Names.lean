import Mathlib.Data.List.Nodup
import Mathlib.Data.List.Perm.Subperm
import Mathlib.Order.Bounds.Basic
import ThreeAddress.Code.Labels
import ThreeAddress.Code.Temporaries

/-!
# Names that are handed out

The names of temporaries and of labels tell their numbers. A temporary that is handed out is never
taken already: among one more number than there are taken names one is free, and the search goes
that far. So the bound on the search does not show: it ends where a search without one does
(`Temporaries.searches_iff`), at the least number above the last whose name is free
(`Temporaries.draws_allocate`).
-/

namespace ThreeAddress

/-- Decimal numerals tell their numbers. -/
theorem numeral_injective {first second : Nat} (h : toString first = toString second) :
    first = second := by
  have hdigits : Nat.toDigits 10 first = Nat.toDigits 10 second := by
    rw [← Nat.toList_repr, ← Nat.toList_repr]
    exact congrArg String.toList h
  rw [← Nat.ofDigitChars_ten_toDigits (n := first), hdigits, Nat.ofDigitChars_ten_toDigits]

/-- Names with one stem tell what follows it. -/
theorem append_right_injective {stem first second : String} (h : stem ++ first = stem ++ second) :
    first = second := by
  have hlist := congrArg String.toList h
  rw [String.toList_append, String.toList_append] at hlist
  exact String.toList_injective (List.append_cancel_left hlist)

namespace Temporaries

variable {taken : List String} {used after after' : Temporaries} {name name' : String}
  {number : Nat}

/-- The name of a temporary tells its number. -/
theorem nameOf_injective {first second : Nat} (h : nameOf first = nameOf second) :
    first = second :=
  numeral_injective (append_right_injective h)

/-- If the name handed out is taken, then so are the names of all numbers that were tried. -/
theorem mem_of_next_mem {bound : Nat} (h : (next taken bound used).1 ∈ taken) :
    ∀ number ≤ bound, nameOf (used.last + 1 + number) ∈ taken := by
  induction bound generalizing used with
  | zero =>
    intro number hle
    rw [Nat.le_zero.1 hle]
    exact h
  | succ bound ih =>
    rw [next] at h
    split at h
    · next htaken =>
      intro number hle
      cases number with
      | zero => exact htaken
      | succ number =>
        have hlater := ih h number (by omega)
        rwa [show used.last + 1 + (number + 1) = used.last + 1 + 1 + number by omega]
    · next hfree => exact absurd h hfree

/-- The name handed out is not taken. -/
theorem allocate_not_mem (used : Temporaries) (taken : List String) :
    (used.allocate taken).1 ∉ taken := by
  intro h
  have htried := mem_of_next_mem h
  let tried := (List.range (taken.length + 1)).map fun number => nameOf (used.last + 1 + number)
  have hnodup : tried.Nodup := by
    refine List.Nodup.map ?_ List.nodup_range
    intro first second heq
    have := nameOf_injective heq
    omega
  have hsubset : tried ⊆ taken := by
    intro name hname
    obtain ⟨number, hnumber, rfl⟩ := List.mem_map.1 hname
    exact htried number (by have := List.mem_range.1 hnumber; omega)
  have hlength := (hnodup.subperm hsubset).length_le
  simp only [tried, List.length_map, List.length_range] at hlength
  omega

/-! ## The search for a free name -/

/-- The next number is handed out. -/
def handOut (used : Temporaries) : Temporaries :=
  { used with last := used.last + 1, created := (used.last + 1) :: used.created }

/-- The next number is skipped. -/
def skip (used : Temporaries) : Temporaries :=
  { used with last := used.last + 1, skipped := (used.last + 1) :: used.skipped }

/-- The search without a bound: the next number is handed out if its name is free, and otherwise it
is skipped and the search goes on. -/
inductive Searches (taken : List String) : Temporaries → String → Temporaries → Prop
  | found {used : Temporaries} (hfree : nameOf (used.last + 1) ∉ taken) :
    Searches taken used (nameOf (used.last + 1)) used.handOut
  | skipped {used after : Temporaries} {name : String} (htaken : nameOf (used.last + 1) ∈ taken)
    (hrest : Searches taken used.skip name after) : Searches taken used name after

/-- A search has one result. -/
theorem Searches.det (h : Searches taken used name after) (h' : Searches taken used name' after') :
    name = name' ∧ after = after' := by
  induction h with
  | found hfree =>
    cases h' with
    | found => exact ⟨rfl, rfl⟩
    | skipped htaken => exact absurd htaken hfree
  | skipped htaken _ ih =>
    cases h' with
    | found hfree => exact absurd htaken hfree
    | skipped _ hrest => exact ih hrest

/-- A search with a bound that comes to a free name is the one without. -/
theorem searches_next {bound : Nat} (hfree : (next taken bound used).1 ∉ taken) :
    Searches taken used (next taken bound used).1 (next taken bound used).2 := by
  induction bound generalizing used with
  | zero => exact .found hfree
  | succ bound ih =>
    rw [next] at hfree ⊢
    split at hfree
    · next htaken =>
      rw [if_pos htaken]
      exact .skipped htaken (ih hfree)
    · next hnext =>
      rw [if_neg hnext]
      exact .found hnext

/-- The search ends, and its result is what is handed out. -/
theorem searches_iff :
    Searches taken used name after ↔ used.allocate taken = (name, after) := by
  have hsearch : Searches taken used (used.allocate taken).1 (used.allocate taken).2 :=
    searches_next (allocate_not_mem used taken)
  constructor
  · intro h
    obtain ⟨hname, hafter⟩ := hsearch.det h
    exact Prod.ext hname hafter
  · intro h
    rwa [h] at hsearch

/-- A number is drawn: it is the least above the last one whose name is free, and the numbers
before it are skipped. -/
structure Draws (taken : List String) (used : Temporaries) (number : Nat) (after : Temporaries) :
    Prop where
  least : IsLeast {other | used.last < other ∧ nameOf other ∉ taken} number
  last : after.last = number
  created : after.created = number :: used.created
  skipped : ∀ other, other ∈ after.skipped ↔
    (used.last < other ∧ other < number) ∨ other ∈ used.skipped

/-- A search draws a number, and its result is the name of it. -/
theorem Searches.draws (h : Searches taken used name after) :
    ∃ number, name = nameOf number ∧ Draws taken used number after := by
  induction h with
  | @found used hfree =>
    refine ⟨used.last + 1, rfl, ⟨⟨Nat.lt_succ_self _, hfree⟩, fun _ h => h.1⟩, rfl, rfl, ?_⟩
    intro other
    rw [or_iff_right (by omega)]
    rfl
  | @skipped used after name htaken _ ih =>
    obtain ⟨number, hname, hdraws⟩ := ih
    obtain ⟨⟨hlt, hfree⟩, hleast⟩ := hdraws.least
    dsimp only [skip] at hlt
    refine ⟨number, hname, ⟨⟨Nat.lt_of_succ_lt hlt, hfree⟩, fun other hother => ?_⟩,
      hdraws.last, hdraws.created, fun other => ?_⟩
    · -- The name of the skipped number is not free, so any other number lies above it.
      have hne : other ≠ used.last + 1 := fun heq => hother.2 (heq ▸ htaken)
      exact hleast ⟨Nat.lt_of_le_of_ne hother.1 hne.symm, hother.2⟩
    · rw [hdraws.skipped, skip, List.mem_cons, ← or_assoc]
      refine or_congr_left ?_
      dsimp only
      omega

/-- What is handed out is the name of a drawn number. -/
theorem draws_allocate (used : Temporaries) (taken : List String) :
    ∃ number, (used.allocate taken).1 = nameOf number ∧
      Draws taken used number (used.allocate taken).2 :=
  (searches_iff.2 rfl).draws

/-- The names of the numbers that are skipped for the drawn one are taken. -/
theorem Draws.mem_skipped (h : Draws taken used number after) {other : Nat} :
    other ∈ after.skipped ↔
      (used.last < other ∧ other < after.last ∧ nameOf other ∈ taken) ∨ other ∈ used.skipped := by
  rw [h.skipped, h.last]
  refine or_congr_left ⟨fun ⟨hlast, hlt⟩ => ⟨hlast, hlt, ?_⟩, fun ⟨hlast, hlt, _⟩ => ⟨hlast, hlt⟩⟩
  by_contra hfree
  have hle : number ≤ other := h.least.2 ⟨hlast, hfree⟩
  omega

end Temporaries

namespace Labels

/-- The label of a number. -/
def nameOf (number : Nat) : String := "L" ++ toString number

/-- A label tells its number. -/
theorem nameOf_injective {first second : Nat} (h : nameOf first = nameOf second) :
    first = second :=
  numeral_injective (append_right_injective h)

end Labels

end ThreeAddress
