namespace TailscaleRs

variable {State Event : Type} (step : State → Event → State) (meets : State → Event → Prop)
  (start : State)

def run (events : List Event) : State := events.foldl step start

/-- Every event of the run meets a condition on it and the state it arrives in. -/
def Along : State → List Event → Prop
  | _, [] => True
  | s, event :: rest => meets s event ∧ Along (step s event) rest

instance Along.decidable [∀ s event, Decidable (meets s event)] :
    (start : State) → (events : List Event) → Decidable (Along step meets start events)
  | _, [] => isTrue trivial
  | s, event :: rest => @instDecidableAnd _ _ _ (Along.decidable (step s event) rest)

variable (first second : List Event)

theorem run_append : run step start (first ++ second) = run step (run step start first) second :=
  List.foldl_append

theorem along_append :
    Along step meets start (first ++ second) ↔
      Along step meets start first ∧ Along step meets (run step start first) second := by
  induction first generalizing start with
  | nil => simp [Along, run]
  | cons event rest ih =>
    rw [List.cons_append, Along, Along, ih, and_assoc]
    rfl

/-- What every admitted step keeps, every run of admitted steps keeps. -/
theorem run_invariant (inv : State → Prop)
    (keeps : ∀ s event, inv s → meets s event → inv (step s event)) (start : State)
    (events : List Event) (initial : inv start) (admitted : Along step meets start events) :
    inv (run step start events) := by
  induction events generalizing start with
  | nil => exact initial
  | cons event rest ih =>
    exact ih (step start event) (keeps start event initial admitted.1) admitted.2

/-- What an admitted step gives in a state with the invariant, each step of an admitted run does. -/
theorem along_of_invariant (gives : State → Event → Prop) (inv : State → Prop)
    (keeps : ∀ s event, inv s → meets s event → inv (step s event))
    (each : ∀ s event, inv s → meets s event → gives s event) {start : State}
    {events : List Event} (initial : inv start) (admitted : Along step meets start events) :
    Along step gives start events := by
  induction events generalizing start with
  | nil => trivial
  | cons event rest ih =>
    exact ⟨each start event initial admitted.1,
      ih (keeps start event initial admitted.1) admitted.2⟩

variable {Note : Type} (note : State → Event → List Note)

def trace : State → List Event → List Note
  | _, [] => []
  | s, event :: rest => note s event ++ trace (step s event) rest

/-- What an admitted step notes down in a state with the invariant, every admitted run does. -/
theorem forall_mem_trace (inv : State → Prop) (holds : Note → Prop)
    (keeps : ∀ s event, inv s → meets s event → inv (step s event))
    (notes : ∀ s event, inv s → meets s event → ∀ noted ∈ note s event, holds noted) (start : State)
    {events : List Event} (initial : inv start) (admitted : Along step meets start events) :
    ∀ noted ∈ trace step note start events, holds noted := by
  induction events generalizing start with
  | nil => exact List.forall_mem_nil _
  | cons event rest ih =>
    intro noted member
    rcases List.mem_append.mp member with here | later
    · exact notes start event initial admitted.1 noted here
    · exact ih _ (keeps start event initial admitted.1) admitted.2 noted later

/-- What every step keeps of the state and of all that was noted, every run keeps. -/
theorem run_traced (inv : List Note → State → Prop)
    (keeps : ∀ noted s event, inv noted s → inv (noted ++ note s event) (step s event))
    (noted : List Note) (start : State) (events : List Event) (initial : inv noted start) :
    inv (noted ++ trace step note start events) (run step start events) := by
  induction events generalizing noted start with
  | nil =>
    rw [trace, List.append_nil]
    exact initial
  | cons event rest ih =>
    rw [trace, ← List.append_assoc]
    exact ih _ _ (keeps noted start event initial)

end TailscaleRs
