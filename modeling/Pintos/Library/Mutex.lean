import Mathlib.Logic.Function.Basic

/-! # Locks between parties

A lock is marked with the party that holds it.  `Holders` says that the marks agree with where the parties are in
their programs, and `Turn` is what one step of a party can do to a lock.
-/

namespace Pintos.Library

variable {Party : Type} {lock lock' : Option Party} {holds : Party → Bool} {party other : Party} {held held' : Bool}

def Holders (lock : Option Party) (holds : Party → Bool) : Prop :=
  ∀ party, holds party = true ↔ lock = some party

inductive Turn (party : Party) : Option Party → Bool → Option Party → Bool → Prop
  | keep {lock : Option Party} {held : Bool} : Turn party lock held lock held
  | acquire : Turn party none false (some party) true
  | release {lock : Option Party} : Turn party lock true none false

/-- Two parties never hold the lock at the same time. -/
theorem Holders.exclusive (holders : Holders lock holds) (first : holds party = true) (second : holds other = true) :
    party = other :=
  Option.some.inj (((holders party).mp first).symm.trans ((holders other).mp second))

theorem Holders.free (holders : Holders none holds) (party : Party) : holds party = false := by
  cases held : holds party with
  | false => rfl
  | true => cases (holders party).mp held

theorem Holders.turn [DecidableEq Party] (holders : Holders lock holds)
    (turn : Turn party lock (holds party) lock' held') : Holders lock' (Function.update holds party held') := by
  intro other
  generalize before : holds party = held at turn
  by_cases same : other = party
  · subst same
    rw [Function.update_self]
    cases turn with
    | keep => exact before ▸ holders other
    | acquire => simp
    | release => simp
  · rw [Function.update_of_ne same]
    cases turn with
    | keep => exact holders other
    | acquire =>
      rw [holders.free other]
      simp [Ne.symm same]
    | release =>
      -- The lock was the party's, so no other party had it.
      have notHeld : holds other ≠ true := fun held => same (holders.exclusive held before)
      simp [notHeld]

end Pintos.Library
