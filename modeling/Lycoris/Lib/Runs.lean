import Mathlib

/-!
Runs of a step function, and properties of all their states. An invariant is kept by the steps that are
allowed; where the property of the state after a step gives back that the step was allowed, the property
holds throughout exactly when every step is allowed. A part of the state that no step acts on stays.
-/

namespace Lycoris.Lib

variable {S A : Type} (step : S → A → S)

/-- The property holds in every state of the run. -/
def Throughout (holds : S → Prop) : S → List A → Prop
  | state, [] => holds state
  | state, action :: rest => holds state ∧ Throughout holds (step state action) rest

/-- Every step of the run is allowed where it is taken. -/
def Steps (allowed : S → A → Prop) : S → List A → Prop
  | _, [] => True
  | state, action :: rest => allowed state action ∧ Steps allowed (step state action) rest

variable {step} {holds inv : S → Prop} {allowed : S → A → Prop} {state : S} {actions : List A}

theorem Throughout.first (all : Throughout step holds state actions) : holds state := by
  cases actions with
  | nil => exact all
  | cons _ _ => exact all.1

theorem Throughout.last (all : Throughout step holds state actions) :
    holds (actions.foldl step state) := by
  induction actions generalizing state with
  | nil => exact all
  | cons action rest ih => exact ih all.2

theorem Throughout.mono {holds' : S → Prop} (weaker : ∀ state, holds state → holds' state)
    (all : Throughout step holds state actions) : Throughout step holds' state actions := by
  induction actions generalizing state with
  | nil => exact weaker state all
  | cons action rest ih => exact ⟨weaker state all.1, ih all.2⟩

theorem Throughout.of_steps (start : inv state)
    (keeps : ∀ state, ∀ action ∈ actions, inv state → allowed state action → inv (step state action))
    (all : Steps step allowed state actions) : Throughout step inv state actions := by
  induction actions generalizing state with
  | nil => exact start
  | cons action rest ih =>
    refine ⟨start, ih (keeps state action List.mem_cons_self start all.1) ?_ all.2⟩
    exact fun state action member => keeps state action (List.mem_cons_of_mem _ member)

/-- An invariant that every step keeps, whatever the run. -/
theorem Throughout.of_invariant (start : inv state)
    (keeps : ∀ state action, inv state → inv (step state action)) : Throughout step inv state actions := by
  induction actions generalizing state with
  | nil => exact start
  | cons action rest ih => exact ⟨start, ih (keeps state action start)⟩

theorem Throughout.steps (gives : ∀ state action, holds state → allowed state action)
    (all : Throughout step holds state actions) : Steps step allowed state actions := by
  induction actions generalizing state with
  | nil => trivial
  | cons action rest ih => exact ⟨gives state action all.1, ih all.2⟩

/-- Under an invariant that the allowed steps keep, what is allowed may be exchanged. -/
theorem Steps.mono {allowed' : S → A → Prop} (inv : S → Prop) (start : inv state)
    (keeps : ∀ state action, inv state → allowed state action → inv (step state action))
    (weaker : ∀ state action, inv state → allowed state action → allowed' state action)
    (all : Steps step allowed state actions) : Steps step allowed' state actions := by
  induction actions generalizing state with
  | nil => trivial
  | cons action rest ih =>
    exact ⟨weaker state action start all.1, ih (keeps state action start all.1) all.2⟩

theorem throughout_iff_steps (inv : S → Prop) (start : inv state)
    (keeps : ∀ state, ∀ action ∈ actions, inv state → allowed state action → inv (step state action))
    (enough : ∀ state, inv state → holds state)
    (needs : ∀ state, ∀ action ∈ actions, inv state → holds (step state action) → allowed state action) :
    Throughout step holds state actions ↔ Steps step allowed state actions := by
  refine ⟨fun all => ?_, fun all => (Throughout.of_steps start keeps all).mono enough⟩
  induction actions generalizing state with
  | nil => trivial
  | cons action rest ih =>
    have next := needs state action List.mem_cons_self start all.2.first
    refine ⟨next, ih (keeps state action List.mem_cons_self start next) ?_ ?_ all.2⟩
    · exact fun state action member => keeps state action (List.mem_cons_of_mem _ member)
    · exact fun state action member => needs state action (List.mem_cons_of_mem _ member)

/-! ### What a run leaves alone -/

section Parts

variable {I V : Type} (step) (actor : S → A → Option I)

/-- The parts of the state that the steps of a run act on. -/
def actors : S → List A → List I
  | _, [] => []
  | state, action :: rest => (actor state action).toList ++ actors (step state action) rest

/-- A part that no step of the run acts on is as it was. -/
theorem foldl_elsewhere (part : S → I → V)
    (still : ∀ state action i, actor state action ≠ some i → part (step state action) i = part state i) {i : I}
    (away : i ∉ actors step actor state actions) : part (actions.foldl step state) i = part state i := by
  induction actions generalizing state with
  | nil => rfl
  | cons action rest ih =>
    rw [actors, List.mem_append, not_or] at away
    have kept := still state action i fun same => away.1 (Option.mem_toList.mpr same)
    exact (ih away.2).trans kept

end Parts

end Lycoris.Lib
