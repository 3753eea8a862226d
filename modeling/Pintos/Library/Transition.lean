import Mathlib.Logic.Basic

/-! # Runs of a labelled, partial transition function

`step label state` is `none` where the label cannot be taken.  `Reaches` collects the states at the end of
runs whose every step was allowed in the state it was taken from, so that a safety theorem can say what
the environment must not do; `execute` replays a given run.
-/

namespace Pintos.Library

variable {State Label : Type}

inductive Reaches (step : Label → State → Option State) (allowed : Label → State → Prop) (start : State) :
    State → Prop
  | start : Reaches step allowed start start
  | step {label : Label} {state next : State} (before : Reaches step allowed start state)
      (permitted : allowed label state) (taken : step label state = some next) :
      Reaches step allowed start next

/-- Replay a run, stopping at a step that is not allowed or cannot be taken. -/
def execute (step : Label → State → Option State) (allowed : Label → State → Prop)
    [∀ label state, Decidable (allowed label state)] : List Label → State → Option State
  | [], state => some state
  | label :: labels, state =>
    if allowed label state then
      match step label state with
      | some next => execute step allowed labels next
      | none => none
    else none

variable {step : Label → State → Option State} {allowed : Label → State → Prop} {start state : State}

/-- What holds at the start and is kept by every allowed step holds in every state reached. -/
theorem Reaches.invariant (reached : Reaches step allowed start state) (holds : State → Prop) (initially : holds start)
    (kept : ∀ {label state next}, holds state → allowed label state → step label state = some next → holds next) :
    holds state := by
  induction reached with
  | start => exact initially
  | step _ permitted taken ih => exact kept ih permitted taken

theorem Reaches.execute [∀ label state, Decidable (allowed label state)] {labels : List Label} {last : State}
    (reached : Reaches step allowed start state) (replayed : execute step allowed labels state = some last) :
    Reaches step allowed start last := by
  induction labels generalizing state with
  | nil => exact Option.some.inj replayed ▸ reached
  | cons label labels ih =>
    simp only [Library.execute] at replayed
    split at replayed
    next permitted =>
      split at replayed
      next next taken => exact ih (.step reached permitted taken) replayed
      next => cases replayed
    next => cases replayed

/-- A replayed run that ends in a state with a property is evidence that such a state is reached. -/
theorem exists_reached (step : Label → State → Option State) (allowed : Label → State → Prop)
    [∀ label state, Decidable (allowed label state)] (start : State) (property : State → Prop) [DecidablePred property]
    (labels : List Label)
    (found : (execute step allowed labels start).any (fun state => decide (property state)) = true) :
    ∃ state, Reaches step allowed start state ∧ property state := by
  cases replayed : execute step allowed labels start with
  | none => simp [replayed] at found
  | some last => exact ⟨last, Reaches.execute .start replayed, by simpa [replayed] using found⟩

end Pintos.Library
