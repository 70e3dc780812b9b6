import ThreeAddress.Proofs.Meaning.Source

/-!
# What can be seen of a run

A machine of any kind makes steps in a world. What can be seen of its run are the prints and reads,
in their order, whether or not the run has an end, and the world at the end if there is one. Two
kinds of machines run alike if one mirrors the other (`Process.Mirrors`): before a step that both
make, the first may make silent ones, but not for ever.
-/

namespace ThreeAddress

/-! ## Related results -/

section

variable {First Second First' Second' Common : Type} {related : First → Second → Prop}
  {related' : First' → Second' → Prop}

/-- If the first result is there, so is the second. -/
theorem exists_of_rel_some_left {first : First} {result : Option Second}
    (h : Option.Rel related (some first) result) :
    ∃ second, result = some second ∧ related first second := by
  cases h with
  | some h => exact ⟨_, rfl, h⟩

/-- If the second result is there, so is the first. -/
theorem exists_of_rel_some_right {second : Second} {result : Option First}
    (h : Option.Rel related result (some second)) :
    ∃ first, result = some first ∧ related first second := by
  cases h with
  | some h => exact ⟨_, rfl, h⟩

/-- If one of two results is missing, so is the other. -/
theorem eq_none_iff_of_rel {result : Option First} {other : Option Second}
    (h : Option.Rel related result other) : result = none ↔ other = none := by
  cases h with
  | some => exact ⟨nofun, nofun⟩
  | none => exact ⟨fun _ => rfl, fun _ => rfl⟩

/-- Related results stay related. -/
theorem rel_map {result : Option First} {other : Option Second} {f : First → First'}
    {g : Second → Second'} (h : Option.Rel related result other)
    (hmap : ∀ {first second}, related first second → related' (f first) (g second)) :
    Option.Rel related' (result.map f) (other.map g) := by
  cases h with
  | some h => exact .some (hmap h)
  | none => exact .none

/-- What is got from one result in two ways is related if it is so for every value. -/
theorem rel_bind {result : Option Common} {f : Common → Option First} {g : Common → Option Second}
    (h : ∀ value, Option.Rel related (f value) (g value)) :
    Option.Rel related (result.bind f) (result.bind g) := by
  cases result with
  | none => exact .none
  | some value => exact h value

end

/-! ## Runs -/

/-- What a machine does for others to see. -/
inductive Effect (Value : Type) where
  | print (event : Event Value)
  | read (value : Value)

/-- What has been done on the way from one world to another by a step, which prints once, reads
once or does neither. -/
def World.effects {Value : Type} (inputs : Nat → Option Value) (before after : World Value) :
    List (Effect Value) :=
  (after.events.drop before.events.length).map .print ++
    ((List.range' before.reads (after.reads - before.reads)).filterMap inputs).map .read

/-- Nothing has been done where the world is the same. -/
@[simp] theorem World.effects_self {Value : Type} (inputs : Nat → Option Value)
    (world : World Value) : World.effects inputs world world = [] := by
  simp [World.effects]

/-- A print is done. -/
@[simp] theorem World.effects_print {Value : Type} (inputs : Nat → Option Value)
    (world : World Value) (event : Event Value) :
    World.effects inputs world (world.print event) = [.print event] := by
  simp [World.effects, World.print]

/-- Machines that make steps in a world. -/
structure Process (State Value : Type) where
  step : State → Option State
  world : State → World Value
  /-- Whether the end of the program has been reached. -/
  isOver : State → Bool

namespace Process

variable {State Value : Type} (process : Process State Value) (inputs : Nat → Option Value)

/-- What is done by the steps from one state to another. -/
inductive Performs : State → List (Effect Value) → State → Prop where
  | refl (state : State) : Performs state [] state
  | step {state next last : State} {effects : List (Effect Value)} :
      process.step state = some next → Performs next effects last →
      Performs state
        (World.effects inputs (process.world state) (process.world next) ++ effects) last

/-- A run that makes no further step: what it has done, the world it leaves, and whether it has
reached the end of the program. -/
def Ends (start : State) (effects : List (Effect Value)) (world : World Value)
    (isOver : Bool) : Prop :=
  ∃ last, process.Performs inputs start effects last ∧ process.step last = none ∧
    process.world last = world ∧ process.isOver last = isOver

variable {process inputs} {state last : State} {effects : List (Effect Value)}

/-- What is done up to a state, and what is done from there. -/
theorem Performs.trans {between : State} {others : List (Effect Value)}
    (h : process.Performs inputs state effects between)
    (h' : process.Performs inputs between others last) :
    process.Performs inputs state (effects ++ others) last := by
  induction h with
  | refl => exact h'
  | step hstep _ ih =>
    rw [List.append_assoc]
    exact .step hstep (ih h')

/-! ## Machines that run alike -/

/-- Related states are in the same world. From there the first machine makes a silent step, of
which there are only so many in a row, or both make a step or none. -/
structure Mirrors {Other : Type} (process : Process State Value) (other : Process Other Value)
    (related : State → Other → Prop) (rank : State → Nat) : Prop where
  world {state : State} {image : Other} : related state image →
    process.world state = other.world image
  step {state : State} {image : Other} : related state image →
    (∃ next, process.step state = some next ∧ process.world next = process.world state ∧
      rank next < rank state ∧ related next image) ∨
    (Option.Rel related (process.step state) (other.step image) ∧
      process.isOver state = other.isOver image)

namespace Mirrors

variable {Other : Type} {other : Process Other Value} {related : State → Other → Prop}
  {rank : State → Nat} {image imageLast : Other}

/-- A silent step. -/
theorem silent {next : State} (hstep : process.step state = some next)
    (hworld : process.world next = process.world state)
    (hperforms : process.Performs inputs next effects last) :
    process.Performs inputs state effects last := by
  have hall := Performs.step hstep hperforms
  rwa [hworld, World.effects_self] at hall

/-- After some silent steps both machines go on alike. -/
theorem settles (h : process.Mirrors other related rank) (inputs : Nat → Option Value)
    (hrelated : related state image) :
    ∃ settled, process.Performs inputs state [] settled ∧ related settled image ∧
      Option.Rel related (process.step settled) (other.step image) ∧
      process.isOver settled = other.isOver image := by
  induction hrank : rank state using Nat.strongRecOn generalizing state with
  | ind bound ih =>
    rcases h.step hrelated with ⟨next, hstep, hworld, hless, hnext⟩ | ⟨hstep, hisOver⟩
    · obtain ⟨settled, hperforms, hsettled⟩ := ih _ (hrank ▸ hless) hnext rfl
      exact ⟨settled, silent hstep hworld hperforms, hsettled⟩
    · exact ⟨state, .refl state, hrelated, hstep, hisOver⟩

/-- The second machine does what the first does. -/
theorem forward (h : process.Mirrors other related rank) (hrelated : related state image)
    (hperforms : process.Performs inputs state effects last) :
    ∃ imageLast, other.Performs inputs image effects imageLast ∧ related last imageLast := by
  induction hperforms generalizing image with
  | refl => exact ⟨image, .refl image, hrelated⟩
  | step hstep _ ih =>
    rcases h.step hrelated with ⟨next, hstep', hworld, -, hnext⟩ | ⟨hboth, -⟩
    · cases hstep.symm.trans hstep'
      rw [hworld, World.effects_self]
      exact ih hnext
    · rw [hstep] at hboth
      obtain ⟨imageNext, himage, hnext⟩ := exists_of_rel_some_left hboth
      obtain ⟨imageLast, himageLast, hlast⟩ := ih hnext
      rw [h.world hrelated, h.world hnext]
      exact ⟨imageLast, .step himage himageLast, hlast⟩

/-- The first machine does what the second does. -/
theorem backward (h : process.Mirrors other related rank) (hrelated : related state image)
    (hperforms : other.Performs inputs image effects imageLast) :
    ∃ last, process.Performs inputs state effects last ∧ related last imageLast := by
  induction hperforms generalizing state with
  | refl => exact ⟨state, .refl state, hrelated⟩
  | step himage _ ih =>
    obtain ⟨settled, hsettles, hsettled, hboth, -⟩ := h.settles inputs hrelated
    rw [himage] at hboth
    obtain ⟨next, hstep, hnext⟩ := exists_of_rel_some_right hboth
    obtain ⟨last, hlast, hrelated'⟩ := ih hnext
    rw [← h.world hsettled, ← h.world hnext]
    exact ⟨last, hsettles.trans (.step hstep hlast), hrelated'⟩

/-- Both machines do the same. -/
theorem performs_iff (h : process.Mirrors other related rank) (hrelated : related state image) :
    (∃ last, process.Performs inputs state effects last) ↔
      ∃ imageLast, other.Performs inputs image effects imageLast := by
  constructor
  · intro ⟨last, hperforms⟩
    obtain ⟨imageLast, himage, -⟩ := h.forward hrelated hperforms
    exact ⟨imageLast, himage⟩
  · intro ⟨imageLast, hperforms⟩
    obtain ⟨last, hlast, -⟩ := h.backward hrelated hperforms
    exact ⟨last, hlast⟩

/-- Both machines end alike. -/
theorem ends_iff (h : process.Mirrors other related rank) (hrelated : related state image)
    {world : World Value} {isOver : Bool} :
    process.Ends inputs state effects world isOver ↔
      other.Ends inputs image effects world isOver := by
  constructor
  · rintro ⟨last, hperforms, hstep, rfl, rfl⟩
    obtain ⟨imageLast, himage, hlast⟩ := h.forward hrelated hperforms
    rcases h.step hlast with ⟨next, hnext, -⟩ | ⟨hboth, hisOver⟩
    · exact nomatch hstep.symm.trans hnext
    · have hnone := (eq_none_iff_of_rel hboth).1 hstep
      exact ⟨imageLast, himage, hnone, (h.world hlast).symm, hisOver.symm⟩
  · rintro ⟨imageLast, himage, hstep, rfl, rfl⟩
    obtain ⟨last, hperforms, hlast⟩ := h.backward hrelated himage
    obtain ⟨settled, hsettles, hsettled, hboth, hisOver⟩ := h.settles inputs hlast
    have hall := hperforms.trans hsettles
    rw [List.append_nil] at hall
    exact ⟨settled, hall, (eq_none_iff_of_rel hboth).2 hstep, h.world hsettled, hisOver⟩

end Mirrors

end Process

end ThreeAddress
