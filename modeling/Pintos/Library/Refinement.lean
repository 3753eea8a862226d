import Mathlib.Logic.Basic

/-! # Functional refinement between two deterministic machines

A machine takes commands and gives replies.  `Refinement implementation specification valid` is the usual
forward argument: an invariant of the implementation, a view of its states as states of the specification,
and one step lemma.  `replies_eq` and `view_run` carry it over whole runs.  `Simulation` has a relation instead of the
view.
-/

namespace Pintos.Library

open List

/-- A deterministic machine: a command and a state give a reply and the next state. -/
structure Machine (State Command Reply : Type) where
  step : Command → State → Reply × State

namespace Machine

variable {State Command Reply : Type} (machine : Machine State Command Reply)

/-- The replies of a run, in order, and the state it ends in. -/
def run : List Command → State → List Reply × State
  | [], state => ([], state)
  | command :: commands, state =>
    let (reply, next) := machine.step command state
    let (replies, last) := run commands next
    (reply :: replies, last)

theorem run_cons (command : Command) (commands : List Command) (state : State) :
    machine.run (command :: commands) state =
      ((machine.step command state).1 :: (machine.run commands (machine.step command state).2).1,
        (machine.run commands (machine.step command state).2).2) := rfl

theorem run_concat (commands : List Command) (command : Command) (state : State) :
    machine.run (commands ++ [command]) state =
      ((machine.run commands state).1 ++ [(machine.step command (machine.run commands state).2).1],
        (machine.step command (machine.run commands state).2).2) := by
  induction commands generalizing state with
  | nil => rfl
  | cons first commands ih =>
    rw [cons_append, run_cons, ih, run_cons]
    rfl

end Machine

structure Refinement {Concrete Abstract Command Reply : Type} (implementation : Machine Concrete Command Reply)
    (specification : Machine Abstract Command Reply) (valid : Command → Prop) where
  invariant : Concrete → Prop
  view : Concrete → Abstract
  invariant_step : ∀ {command state}, invariant state → valid command → invariant (implementation.step command state).2
  reply_step : ∀ {command state}, invariant state → valid command →
    (implementation.step command state).1 = (specification.step command (view state)).1
  view_step : ∀ {command state}, invariant state → valid command →
    view (implementation.step command state).2 = (specification.step command (view state)).2

namespace Refinement

variable {Concrete Abstract Command Reply : Type} {implementation : Machine Concrete Command Reply}
  {specification : Machine Abstract Command Reply} {valid : Command → Prop}
  (refinement : Refinement implementation specification valid)

theorem invariant_run (commands : List Command) (state : Concrete) (holds : refinement.invariant state)
    (allValid : ∀ command ∈ commands, valid command) : refinement.invariant (implementation.run commands state).2 := by
  induction commands generalizing state with
  | nil => exact holds
  | cons command commands ih =>
    rw [Machine.run_cons]
    exact ih _ (refinement.invariant_step holds (allValid command mem_cons_self))
      fun later member => allValid later (mem_cons_of_mem _ member)

theorem replies_eq (commands : List Command) (state : Concrete) (holds : refinement.invariant state)
    (allValid : ∀ command ∈ commands, valid command) :
    (implementation.run commands state).1 = (specification.run commands (refinement.view state)).1 := by
  induction commands generalizing state with
  | nil => rfl
  | cons command commands ih =>
    have headValid := allValid command mem_cons_self
    rw [Machine.run_cons, Machine.run_cons, refinement.reply_step holds headValid,
      ih _ (refinement.invariant_step holds headValid) (fun later member => allValid later (mem_cons_of_mem _ member)),
      refinement.view_step holds headValid]

theorem view_run (commands : List Command) (state : Concrete) (holds : refinement.invariant state)
    (allValid : ∀ command ∈ commands, valid command) :
    refinement.view (implementation.run commands state).2 = (specification.run commands (refinement.view state)).2 := by
  induction commands generalizing state with
  | nil => rfl
  | cons command commands ih =>
    have headValid := allValid command mem_cons_self
    rw [Machine.run_cons, Machine.run_cons, ih _ (refinement.invariant_step holds headValid)
        (fun later member => allValid later (mem_cons_of_mem _ member)),
      refinement.view_step holds headValid]

end Refinement

/-- A relation between the states that both machines keep, with the same replies. -/
structure Simulation {Concrete Abstract Command Reply : Type} (implementation : Machine Concrete Command Reply)
    (specification : Machine Abstract Command Reply) (related : Concrete → Abstract → Prop) : Prop where
  step : ∀ command {concrete abstract}, related concrete abstract →
    (implementation.step command concrete).1 = (specification.step command abstract).1 ∧
      related (implementation.step command concrete).2 (specification.step command abstract).2

theorem Simulation.run {Concrete Abstract Command Reply : Type} {implementation : Machine Concrete Command Reply}
    {specification : Machine Abstract Command Reply} {related : Concrete → Abstract → Prop}
    (simulation : Simulation implementation specification related) {concrete : Concrete} {abstract : Abstract}
    (initially : related concrete abstract) (commands : List Command) :
    (implementation.run commands concrete).1 = (specification.run commands abstract).1 ∧
      related (implementation.run commands concrete).2 (specification.run commands abstract).2 := by
  induction commands generalizing concrete abstract with
  | nil => exact ⟨rfl, initially⟩
  | cons command commands ih =>
    obtain ⟨reply, next⟩ := simulation.step command initially
    obtain ⟨replies, last⟩ := ih next
    rw [Machine.run_cons, Machine.run_cons, reply, replies]
    exact ⟨rfl, last⟩

end Pintos.Library
