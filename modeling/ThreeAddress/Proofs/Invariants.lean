import ThreeAddress.Proofs.Sequence

/-!
# What computations keep

A computation that fails leaves its state as it is at that moment. So what is said about a history
of computations has to be true of them whether they succeed or not: `Sequence.last` is the state
that a computation leaves in either case, and `Sequence.Keeps` says that a relation holds between
the state before a computation and the one it leaves. A relation that is reflexive and transitive
is kept by a sequence if it is kept by its parts.
-/

namespace ThreeAddress

namespace Sequence

variable {Error State First Second : Type} {rel : State → State → Prop}
  {run : EStateM Error State First} {state after : State}

/-- The state that a computation leaves, whether it has a value or fails. -/
def last (run : EStateM Error State First) (state : State) : State :=
  match run state with
  | .ok _ after => after
  | .error _ after => after

/-- A relation holds between the state before a computation and the one it leaves. -/
def Keeps (rel : State → State → Prop) (run : EStateM Error State First) : Prop :=
  ∀ state, rel state (last run state)

/-- The state left by a computation that has a value. -/
theorem last_of_ok {value : First} (h : run state = .ok value after) : last run state = after := by
  rw [last, h]

/-- The state left by a computation that fails. -/
theorem last_of_error {error : Error} (h : run state = .error error after) :
    last run state = after := by
  rw [last, h]

/-- A sequence leaves what its second part leaves. -/
theorem last_bind_of_ok {next : First → EStateM Error State Second} {value : First}
    (h : run state = .ok value after) : last (run >>= next) state = last (next value) after := by
  rw [last, bind_of_ok h, last]

/-- A sequence whose first part fails leaves what that part leaves. -/
theorem last_bind_of_error {next : First → EStateM Error State Second} {error : Error}
    (h : run state = .error error after) : last (run >>= next) state = after :=
  last_of_error (bind_error.2 (.inl h))

namespace Keeps

/-- What is kept holds of the state behind a value. -/
theorem of_ok {value : First} (h : Keeps rel run) (hrun : run state = .ok value after) :
    rel state after := last_of_ok hrun ▸ h state

/-- What is kept holds of the state behind a failure. -/
theorem of_error {error : Error} (h : Keeps rel run) (hrun : run state = .error error after) :
    rel state after := last_of_error hrun ▸ h state

/-- A plain value leaves the state alone. -/
theorem pure (refl : ∀ state, rel state state) {value : First} :
    Keeps rel (Pure.pure value : EStateM Error State First) := refl

/-- So does a failure. -/
theorem throw (refl : ∀ state, rel state state) {error : Error} :
    Keeps rel (throw error : EStateM Error State First) := refl

/-- A change of the state. -/
theorem modify {change : State → State} (h : ∀ state, rel state (change state)) :
    Keeps rel (modify change : EStateM Error State PUnit) := h

/-- Reading the state, and what follows. -/
theorem get {next : State → EStateM Error State Second} (h : ∀ state, Keeps rel (next state)) :
    Keeps rel (get >>= next) := fun state => h state state

/-- A computation and what follows it. -/
theorem bind {next : First → EStateM Error State Second} (h : Keeps rel run)
    (hnext : ∀ value, Keeps rel (next value))
    (trans : ∀ {first second third}, rel first second → rel second third → rel first third) :
    Keeps rel (run >>= next) := by
  intro state
  cases hrun : run state with
  | ok value between =>
    rw [last_bind_of_ok hrun]
    exact trans (h.of_ok hrun) (hnext value between)
  | error error after =>
    rw [last_bind_of_error hrun]
    exact h.of_error hrun

/-- What follows from a relation that is kept. -/
theorem mono {rel' : State → State → Prop} (h : Keeps rel run)
    (himp : ∀ before after, rel before after → rel' before after) : Keeps rel' run :=
  fun state => himp _ _ (h state)

end Keeps

end Sequence

end ThreeAddress
