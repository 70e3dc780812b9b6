import ThreeAddress.Token

/-!
# Sequenced computations

Readers, checks and pieces of lowering all work on a state that they keep when they fail. How a
sequence of two of them ends: with the value of the second, or with the error of whichever fails
first. What is wanted of the value and the state at the end, and which errors are foreseen, is told
by `Sequence.EndsOr`.
-/

namespace ThreeAddress

namespace Sequence

variable {Error State First Second : Type} {state after : State}

/-- A sequence has a value iff its first part has one and its second part has this one. -/
theorem bind_ok {first : EStateM Error State First} {next : First → EStateM Error State Second}
    {value : Second} :
    (first >>= next) state = .ok value after ↔
      ∃ a between, first state = .ok a between ∧ next a between = .ok value after := by
  show EStateM.bind first next state = _ ↔ _
  unfold EStateM.bind
  cases first state with
  | ok a between =>
    refine ⟨fun h => ⟨a, between, rfl, h⟩, ?_⟩
    rintro ⟨a', between', heq, h⟩
    cases heq
    exact h
  | error e between => simp

/-- A sequence fails iff its first part fails, or its second part fails on the value of the
first. -/
theorem bind_error {first : EStateM Error State First}
    {next : First → EStateM Error State Second} {error : Error} :
    (first >>= next) state = .error error after ↔
      first state = .error error after ∨
        ∃ a between, first state = .ok a between ∧ next a between = .error error after := by
  show EStateM.bind first next state = _ ↔ _
  unfold EStateM.bind
  cases first state with
  | ok a between =>
    refine ⟨fun h => .inr ⟨a, between, rfl, h⟩, ?_⟩
    rintro (heq | ⟨a', between', heq, h⟩)
    · cases heq
    · cases heq
      exact h
  | error e between => simp

/-- A sequence whose first part has a value goes on with its second part. -/
theorem bind_of_ok {first : EStateM Error State First}
    {next : First → EStateM Error State Second} {a : First} {between : State}
    (h : first state = .ok a between) : (first >>= next) state = next a between := by
  show EStateM.bind first next state = _
  rw [EStateM.bind, h]

/-- A plain value leaves the state alone. -/
theorem pure_ok {value result : First} :
    (pure value : EStateM Error State First) state = .ok result after ↔
      value = result ∧ state = after := by
  show EStateM.Result.ok value state = _ ↔ _
  simp

/-- A failure has no value. -/
theorem throw_ok {error : Error} {value : First} :
    (throw error : EStateM Error State First) state = .ok value after ↔ False := by
  show EStateM.Result.error error state = _ ↔ _
  simp

/-- Reading the state leaves it alone. -/
theorem get_ok {value : State} :
    (get : EStateM Error State State) state = .ok value after ↔
      state = value ∧ state = after := by
  show EStateM.Result.ok state state = _ ↔ _
  simp

/-- A change of the state is made. -/
theorem modify_ok {change : State → State} {value : PUnit} :
    (modify change : EStateM Error State PUnit) state = .ok value after ↔
      change state = after := by
  show EStateM.Result.ok PUnit.unit (change state) = _ ↔ _
  simp

/-! ## Results alone -/

/-- A sequence of results has a value iff its first part has one and its second part has this
one. -/
theorem except_bind_ok {first : Except Error First} {next : First → Except Error Second}
    {value : Second} :
    first >>= next = .ok value ↔ ∃ a, first = .ok a ∧ next a = .ok value := by
  cases first with
  | ok a =>
    refine ⟨fun h => ⟨a, rfl, h⟩, ?_⟩
    rintro ⟨_, ⟨⟩, h⟩
    exact h
  | error e => exact iff_of_false nofun (by rintro ⟨_, ⟨⟩, -⟩)

/-- A sequence of results fails iff its first part fails, or its second part fails on the value of
the first. -/
theorem except_bind_error {first : Except Error First} {next : First → Except Error Second}
    {error : Error} :
    first >>= next = .error error ↔
      first = .error error ∨ ∃ a, first = .ok a ∧ next a = .error error := by
  cases first with
  | ok a =>
    refine ⟨fun h => .inr ⟨a, rfl, h⟩, ?_⟩
    rintro (⟨⟨⟩⟩ | ⟨_, ⟨⟩, h⟩)
    exact h
  | error e =>
    refine ⟨fun h => .inl (by cases h; rfl), ?_⟩
    rintro (⟨⟨⟩⟩ | ⟨_, ⟨⟩, -⟩)
    rfl

/-- A function of a result has a value iff it is that of the value of the result. -/
theorem except_map_ok {result : Except Error First} {image : First → Second} {value : Second} :
    image <$> result = .ok value ↔ ∃ a, result = .ok a ∧ image a = value := by
  cases result with
  | ok a =>
    refine ⟨fun h => ⟨a, rfl, by cases h; rfl⟩, ?_⟩
    rintro ⟨_, ⟨⟩, rfl⟩
    rfl
  | error e => exact iff_of_false nofun (by rintro ⟨_, ⟨⟩, -⟩)

/-- A function of a result fails iff the result does. -/
theorem except_map_error {result : Except Error First} {image : First → Second} {error : Error} :
    image <$> result = .error error ↔ result = .error error := by
  cases result with
  | ok a => exact iff_of_false nofun nofun
  | error e => exact ⟨fun h => by cases h; rfl, fun h => by cases h; rfl⟩

/-! ## How computations end -/

/-- The computation has a value and a state as wanted, or fails with one of the foreseen errors. -/
def EndsOr (foreseen : Error → Prop) (run : EStateM Error State First) (state : State)
    (wanted : First → State → Prop) : Prop :=
  (∃ value after, run state = .ok value after ∧ wanted value after) ∨
    ∃ error after, run state = .error error after ∧ foreseen error

namespace EndsOr

variable {foreseen : Error → Prop} {run : EStateM Error State First}
  {wanted wanted' : First → State → Prop}

/-- A plain value. -/
theorem pure {value : First} (h : wanted value state) :
    EndsOr foreseen (Pure.pure value) state wanted :=
  .inl ⟨value, state, rfl, h⟩

/-- A failure. -/
theorem throw {error : Error} (h : foreseen error) :
    EndsOr foreseen (throw error : EStateM Error State First) state wanted :=
  .inr ⟨error, state, rfl, h⟩

/-- A computation and what follows it. -/
theorem bind {next : First → EStateM Error State Second} {wantedNext : Second → State → Prop}
    (h : EndsOr foreseen run state wanted)
    (hnext : ∀ value after, wanted value after →
      EndsOr foreseen (next value) after wantedNext) :
    EndsOr foreseen (run >>= next) state wantedNext := by
  rcases h with ⟨value, after, hrun, hwanted⟩ | ⟨error, after, hrun, herror⟩
  · rcases hnext value after hwanted with ⟨result, last, hlast, hresult⟩ | ⟨error, last, hlast, he⟩
    · exact .inl ⟨result, last, bind_ok.2 ⟨value, after, hrun, hlast⟩, hresult⟩
    · exact .inr ⟨error, last, bind_error.2 (.inr ⟨value, after, hrun, hlast⟩), he⟩
  · exact .inr ⟨error, after, bind_error.2 (.inl hrun), herror⟩

/-- A computation with a value, and what follows it. -/
theorem ok_bind {value : First} {next : First → EStateM Error State Second}
    {wantedNext : Second → State → Prop} (hrun : run state = .ok value after)
    (hnext : EndsOr foreseen (next value) after wantedNext) :
    EndsOr foreseen (run >>= next) state wantedNext := by
  have hfirst : EndsOr foreseen run state fun found last => found = value ∧ last = after :=
    .inl ⟨value, after, hrun, rfl, rfl⟩
  refine hfirst.bind ?_
  rintro _ _ ⟨rfl, rfl⟩
  exact hnext

/-- A function of the value. -/
theorem map {image : First → Second} {wantedImage : Second → State → Prop}
    (h : EndsOr foreseen run state fun value after => wantedImage (image value) after) :
    EndsOr foreseen (image <$> run) state wantedImage :=
  h.bind fun _ _ hvalue => pure hvalue

/-- Reading the state, and what follows. -/
theorem get {next : State → EStateM Error State Second} {wantedNext : Second → State → Prop}
    (h : EndsOr foreseen (next state) state wantedNext) :
    EndsOr foreseen (get >>= next) state wantedNext := h

/-- Weaker demands. -/
theorem mono (h : EndsOr foreseen run state wanted) (hwanted : ∀ value after,
    wanted value after → wanted' value after) : EndsOr foreseen run state wanted' := by
  rcases h with ⟨value, after, hrun, hvalue⟩ | herror
  · exact .inl ⟨value, after, hrun, hwanted value after hvalue⟩
  · exact .inr herror

/-- What is wanted holds of a value that is there. -/
theorem of_ok {value : First} (h : EndsOr foreseen run state wanted)
    (hrun : run state = .ok value after) : wanted value after := by
  rcases h with ⟨_, _, hvalue, hwanted⟩ | ⟨_, _, herror, -⟩
  · rw [hrun] at hvalue
    cases hvalue
    exact hwanted
  · rw [hrun] at herror
    cases herror

/-- An error that is there is foreseen. -/
theorem of_error {error : Error} (h : EndsOr foreseen run state wanted)
    (hrun : run state = .error error after) : foreseen error := by
  rcases h with ⟨_, _, hvalue, -⟩ | ⟨_, _, herror, hforeseen⟩
  · rw [hrun] at hvalue
    cases hvalue
  · rw [hrun] at herror
    cases herror
    exact hforeseen

end EndsOr

end Sequence

end ThreeAddress
