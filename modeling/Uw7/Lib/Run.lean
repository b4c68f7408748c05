import Mathlib.Data.List.Basic

namespace Uw7.Lib

/-!
# Finite runs of labelled transition systems

A run is a finite sequence of steps, extended at its end, so that an invariant
is proved by one induction on the run.  `Guarded` restricts a step relation by
a condition on the state before the step, and `run?` executes a partial
transition function on a list of actions.
-/

open Option

variable {State Action : Type}

/-- A finite run of `step` from `initial`, labelled by its actions in order. -/
inductive Run (step : State → Action → State → Prop) (initial : State) :
    List Action → State → Prop where
  | nil : Run step initial [] initial
  | snoc {actions : List Action} {middle final : State} {action : Action}
      (earlier : Run step initial actions middle) (last : step middle action final) :
      Run step initial (actions ++ [action]) final

def Guarded (step : State → Action → State → Prop) (guard : State → Action → Prop) :
    State → Action → State → Prop :=
  fun before action after =>
    step before action after ∧ guard before action

variable {initial final : State} {actions : List Action}

namespace Run

theorem invariant {step : State → Action → State → Prop} {property : State → Prop}
    (preserved : ∀ before action after, property before → step before action after → property after)
    (start : property initial) (run : Run step initial actions final) : property final := by
  induction run with
  | nil => exact start
  | snoc earlier last ih => exact preserved _ _ _ ih last

variable {step : State → Action → State → Prop} {initial final : State} {actions : List Action}

theorem mono {wider : State → Action → State → Prop}
    (included : ∀ before action after, step before action after → wider before action after)
    (run : Run step initial actions final) : Run wider initial actions final := by
  induction run with
  | nil => exact .nil
  | snoc earlier last ih => exact .snoc ih (included _ _ _ last)

theorem unguarded {guard : State → Action → Prop}
    (run : Run (Guarded step guard) initial actions final) : Run step initial actions final :=
  run.mono fun _ _ _ taken => taken.1

theorem append {middle : State} {leading trailing : List Action}
    (first : Run step initial leading middle) (later : Run step middle trailing final) :
    Run step initial (leading ++ trailing) final := by
  induction later with
  | nil => simpa using first
  | snoc earlier last ih =>
    rw [← List.append_assoc]
    exact .snoc ih last

theorem single {step : State → Action → State → Prop} {before after : State} {action : Action}
    (taken : step before action after) : Run step before [action] after :=
  .snoc .nil taken

end Run

/-- Execute a partial transition function on a list of actions. -/
def run? (step? : State → Action → Option State) : State → List Action → Option State
  | state, [] => some state
  | state, action :: rest =>
    match step? state action with
    | some next => run? step? next rest
    | none => none

theorem Run.of_run? {step? : State → Action → Option State}
    (accepted : run? step? initial actions = some final) :
    Run (fun before action after => step? before action = some after) initial actions final := by
  induction actions generalizing initial with
  | nil =>
    simp only [run?, some.injEq] at accepted
    subst final
    exact .nil
  | cons action rest ih =>
    unfold run? at accepted
    cases taken : step? initial action with
    | none => simp [taken] at accepted
    | some next =>
      simp only [taken] at accepted
      exact (Run.single taken).append (ih accepted)

theorem Run.run?_eq {step? : State → Action → Option State}
    (run : Run (fun before action after => step? before action = some after) initial actions
      final) : run? step? initial actions = some final := by
  have append : ∀ (leading : List Action) (state : State) (last : Action),
      run? step? state (leading ++ [last]) =
        (run? step? state leading).bind fun middle => step? middle last := by
    intro leading
    induction leading with
    | nil =>
      intro state last
      simp only [List.nil_append, run?, bind_some]
      cases step? state last <;> rfl
    | cons first rest ih =>
      intro state last
      simp only [List.cons_append, run?]
      cases step? state first with
      | none => rfl
      | some next => exact ih next last
  induction run with
  | nil => rfl
  | snoc earlier last ih => rw [append, ih, bind_some, last]

end Uw7.Lib
