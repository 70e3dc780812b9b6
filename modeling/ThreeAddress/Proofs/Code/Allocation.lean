import Mathlib.Data.List.Induction
import ThreeAddress.Code.Builder
import ThreeAddress.Proofs.Code.Names

/-!
# Temporaries in use

While temporaries are drawn, more names may become taken, and the numbers may start again. Each
search for a free name uses up all numbers that it tries, so the book of numbers stays complete
(`Temporaries.IsComplete.searches`): at every moment each number up to the last one has, since the
last reset, either been handed out or been skipped, the latter because its name was taken when its
turn came (`Temporaries.Session.numbers_actAll`).
-/

namespace ThreeAddress

namespace Temporaries

variable {taken : List String} {used after : Temporaries} {name : String} {number : Nat}

/-! ## The book of numbers -/

/-- All numbers up to the last one stand in the book, handed out or skipped. Those handed out
stand in their order. -/
structure IsComplete (used : Temporaries) : Prop where
  falling : used.created.Pairwise (· > ·)
  shared : (used.created ++ used.skipped).Perm (List.range' 1 used.last)

namespace IsComplete

/-- A new book. -/
theorem start : IsComplete {} := ⟨.nil, .nil⟩

/-- The numbers in the book are those up to the last one. -/
theorem mem_iff (h : used.IsComplete) :
    number ∈ used.created ∨ number ∈ used.skipped ↔ 0 < number ∧ number ≤ used.last := by
  rw [← List.mem_append, h.shared.mem_iff, List.mem_range'_1]
  omega

/-- No number has been both handed out and skipped. -/
theorem disjoint (h : used.IsComplete) : used.created.Disjoint used.skipped :=
  (List.nodup_append'.1 (h.shared.nodup_iff.2 List.nodup_range')).2.2

/-- There are as many numbers in the book as the last one tells. -/
theorem counts_add (h : used.IsComplete) :
    used.counts.created + used.counts.skipped = used.counts.last := by
  have hlength := h.shared.length_eq
  rwa [List.length_append, List.length_range'] at hlength

/-- The next number may stand in front of the others. -/
theorem cons_perm (h : used.IsComplete) :
    ((used.last + 1) :: (used.created ++ used.skipped)).Perm (List.range' 1 (used.last + 1)) := by
  rw [List.range'_1_concat, Nat.add_comm 1]
  exact (h.shared.cons _).trans (List.perm_append_singleton _ _).symm

/-- The next number is handed out. -/
theorem handOut (h : used.IsComplete) : used.handOut.IsComplete where
  falling := h.falling.cons fun _ hmem => Nat.lt_succ_of_le (h.mem_iff.1 (.inl hmem)).2
  shared := h.cons_perm

/-- The next number is skipped. -/
theorem skip (h : used.IsComplete) : used.skip.IsComplete where
  falling := h.falling
  shared := List.perm_middle.trans h.cons_perm

/-- After a search the book is complete again. -/
theorem searches (h : used.IsComplete) (hsearch : Searches taken used name after) :
    after.IsComplete := by
  induction hsearch with
  | found => exact h.handOut
  | skipped _ _ ih => exact ih h.skip

end IsComplete

/-! ## Sessions -/

/-- What may be asked for while temporaries are in use. -/
inductive Action where
  /-- A new name. -/
  | new
  /-- That one more name is taken. -/
  | take (name : String)
  /-- That the numbers start again. -/
  | reset
  deriving DecidableEq

/-- Temporaries in use. -/
structure Session where
  /-- The names that are taken. -/
  taken : List String
  used : Temporaries := {}
  /-- The names handed out since the last reset, in order. -/
  names : List String := []
  deriving DecidableEq

namespace Session

variable {session : Session} {history : List Action} {action : Action}

/-- Does what is asked for. -/
def act (session : Session) : Action → Session
  | .new =>
    let (name, used) := session.used.allocate session.taken
    { session with used, names := session.names ++ [name] }
  | .take name => { session with taken := session.taken ++ [name] }
  | .reset => { taken := session.taken }

/-- The session after several actions, one after the other. -/
def actAll (session : Session) (actions : List Action) : Session := actions.foldl act session

/-- The last of several actions. -/
theorem actAll_concat (session : Session) (history : List Action) (action : Action) :
    session.actAll (history ++ [action]) = (session.actAll history).act action := by
  rw [actAll, List.foldl_append]
  rfl

/-- For a new name a number is drawn. -/
theorem draws_new (session : Session) :
    ∃ number, session.used.allocate session.taken = (nameOf number, (session.act .new).used) ∧
      (session.act .new).names = session.names ++ [nameOf number] ∧
      Draws session.taken session.used number (session.act .new).used := by
  obtain ⟨number, hname, hdraws⟩ := draws_allocate session.used session.taken
  have hnames : (session.act .new).names =
      session.names ++ [(session.used.allocate session.taken).1] := rfl
  exact ⟨number, Prod.ext hname rfl, hname ▸ hnames, hdraws⟩

/-! ## What is handed out -/

/-- The books of a session agree: the names are those of the numbers that have been handed out, and
no number has been used behind the last of them. -/
structure Agrees (session : Session) : Prop where
  complete : session.used.IsComplete
  names : session.names = session.used.created.reverse.map nameOf
  last : session.used.created.head?.getD 0 = session.used.last

namespace Agrees

/-- A new session. -/
theorem start (taken : List String) : Agrees { taken } := ⟨.start, rfl, rfl⟩

/-- A name has been handed out iff its number has. -/
theorem mem_names (h : session.Agrees) :
    nameOf number ∈ session.names ↔ number ∈ session.used.created := by
  rw [h.names, List.mem_map_of_injective fun _ _ => nameOf_injective, List.mem_reverse]

/-- Every action leaves the books of a session in agreement. -/
theorem act (h : session.Agrees) (action : Action) : (session.act action).Agrees := by
  cases action with
  | take name => exact ⟨h.complete, h.names, h.last⟩
  | reset => exact .start session.taken
  | new =>
    obtain ⟨number, -, hnames, hdraws⟩ := session.draws_new
    refine ⟨h.complete.searches (searches_iff.2 rfl), ?_, ?_⟩
    · rw [hnames, h.names, hdraws.created, List.reverse_cons, List.map_append]
      rfl
    · rw [hdraws.created, hdraws.last]
      rfl

/-- So do several actions. -/
theorem actAll (h : session.Agrees) (actions : List Action) : (session.actAll actions).Agrees := by
  induction actions generalizing session with
  | nil => exact h
  | cons action actions ih => exact ih (h.act action)

end Agrees

/-! ## What is skipped -/

/-- The next search passes over a number: its turn comes, and its name is taken. -/
def PassesOver (session : Session) (number : Nat) : Prop :=
  session.used.last < number ∧ number < (session.act .new).used.last ∧
    nameOf number ∈ session.taken

/-- In a history, a search since the last reset has passed over a number. -/
def HasPassed (start : Session) (history : List Action) (number : Nat) : Prop :=
  ∃ earlier later, history = earlier ++ .new :: later ∧ .reset ∉ later ∧
    (start.actAll earlier).PassesOver number

/-- One more action is itself such a search, or there was one before it. -/
theorem hasPassed_concat {start : Session} :
    start.HasPassed (history ++ [action]) number ↔
      (action = .new ∧ (start.actAll history).PassesOver number) ∨
        (action ≠ .reset ∧ start.HasPassed history number) := by
  constructor
  · rintro ⟨earlier, later, hsplit, hreset, hpassed⟩
    obtain rfl | ⟨front, last, rfl⟩ := List.eq_nil_or_concat' later
    · obtain ⟨rfl, rfl⟩ := List.append_singleton_inj.1 hsplit
      exact .inl ⟨rfl, hpassed⟩
    · rw [← List.cons_append, ← List.append_assoc, List.append_singleton_inj] at hsplit
      obtain ⟨rfl, rfl⟩ := hsplit
      rw [List.mem_append, not_or, List.mem_singleton] at hreset
      exact .inr ⟨Ne.symm hreset.2, earlier, front, rfl, hreset.1, hpassed⟩
  · rintro (⟨rfl, hpassed⟩ | ⟨hne, earlier, later, rfl, hreset, hpassed⟩)
    · exact ⟨history, [], rfl, nofun, hpassed⟩
    · refine ⟨earlier, later ++ [action], by rw [List.append_assoc]; rfl, ?_, hpassed⟩
      rw [List.mem_append, not_or, List.mem_singleton]
      exact ⟨hreset, hne.symm⟩

/-- The numbers skipped are those that a search has passed over. -/
theorem mem_skipped_actAll (taken : List String) (history : List Action) (number : Nat) :
    number ∈ (actAll { taken } history).used.skipped ↔ HasPassed { taken } history number := by
  induction history using List.reverseRecOn with
  | nil => exact ⟨nofun, fun ⟨earlier, later, hsplit, _⟩ => by simp at hsplit⟩
  | append_singleton history action ih =>
    rw [hasPassed_concat, actAll_concat, ← ih]
    cases action with
    | take name => simp [act]
    | reset => simp [act]
    | new =>
      obtain ⟨drawn, -, -, hdraws⟩ := (actAll { taken } history).draws_new
      rw [hdraws.mem_skipped]
      simp [PassesOver]

/-- Temporaries in use, at any moment of any history in which names are asked for, more names become
taken, and the numbers start again. The search for the next name ends, and it hands out the least
number above the last one used since the last reset whose name is not taken. The names handed out
since then are different and their numbers increase, up to the last one. The counts of the names
handed out and of those skipped add up to the last number, and each number up to it has been either
handed out or skipped, the latter because its name was taken when its turn came. -/
theorem numbers_actAll (taken : List String) (history : List Action) :
    let session := actAll { taken } history
    let last := session.used.last
    (∃ number, IsLeast {other | last < other ∧ nameOf other ∉ session.taken} number ∧
      (session.act .new).names = session.names ++ [nameOf number] ∧
      ∀ name after, Searches session.taken session.used name after ↔
        name = nameOf number ∧ after = (session.act .new).used) ∧
    (∃ numbers : List Nat, session.names = numbers.map nameOf ∧ numbers.Pairwise (· < ·) ∧
      numbers.getLast?.getD 0 = last) ∧
    session.names.Nodup ∧
    session.used.counts.created = session.names.length ∧
    session.used.counts.created + session.used.counts.skipped = session.used.counts.last ∧
    (∀ number, nameOf number ∈ session.names ∨ number ∈ session.used.skipped ↔
      0 < number ∧ number ≤ last) ∧
    (∀ number, ¬(nameOf number ∈ session.names ∧ number ∈ session.used.skipped)) ∧
    ∀ number, number ∈ session.used.skipped ↔ HasPassed { taken } history number := by
  intro session last
  have hagrees : session.Agrees := (Agrees.start taken).actAll history
  have hincreasing : session.used.created.reverse.Pairwise (· < ·) :=
    List.pairwise_reverse.2 hagrees.complete.falling
  refine ⟨?_, ⟨_, hagrees.names, hincreasing, ?_⟩, ?_, ?_, hagrees.complete.counts_add, ?_, ?_,
    mem_skipped_actAll taken history⟩
  · obtain ⟨number, hallocate, hnames, hdraws⟩ := session.draws_new
    refine ⟨number, hdraws.least, hnames, fun name after => ?_⟩
    rw [searches_iff, hallocate, Prod.mk.injEq, eq_comm, eq_comm (b := after)]
  · rw [List.getLast?_reverse]
    exact hagrees.last
  · rw [hagrees.names]
    exact List.Nodup.map (fun _ _ => nameOf_injective) (hincreasing.imp Nat.ne_of_lt)
  · rw [hagrees.names, List.length_map, List.length_reverse]
    rfl
  · intro number
    rw [hagrees.mem_names, hagrees.complete.mem_iff]
  · rintro number ⟨hname, hskipped⟩
    exact hagrees.complete.disjoint (hagrees.mem_names.1 hname) hskipped

/-- The names of 2 and 3 are taken from the start and that of 6 becomes taken later. After a reset
that of 1 is taken as well. -/
example :
    let start : Session := { taken := ["t2", "t3"] }
    let first := start.actAll [.new, .new, .take "t6", .new, .new]
    let second := first.actAll [.take "t1", .reset, .new]
    first.names = ["t1", "t4", "t5", "t7"] ∧ first.used.counts = ⟨4, 3, 7⟩ ∧
    second.names = ["t4"] ∧ second.used.counts = ⟨1, 3, 4⟩ := by decide +kernel

end Session

end Temporaries

end ThreeAddress
