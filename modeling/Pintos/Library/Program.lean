import Mathlib.Logic.Basic

/-! # Programs that may stop, seen through a view of their state

A program is a state transformer in `StateT State Option`; it stops where it gives `none`.  Its states are
seen through `view`, so that two representations of one abstract state cannot be told apart by a
specification.

`Yields safe program seen post` says two things about a run from any state seen as `seen`: it stops only
where `safe` fails, and if it ends, then with a result and a seen state that satisfy `post`.  At
`safe = True` this is total correctness, at `safe = False` partial correctness; one proof gives both.
-/

namespace Pintos.Library

/-- What a specification may see of a state. -/
class Viewed (State : Type) (View : outParam Type) where
  view : State → View

export Viewed (view)

variable {State View α β : Type} [Viewed State View] {safe : Prop} {seen next : View} {rest : α → StateT State Option β}
  {result : α}

def Yields (safe : Prop) (program : StateT State Option α) (seen : View) (post : α → View → Prop) : Prop :=
  ∀ state, view state = seen → match program state with
    | none => ¬ safe
    | some (result, after) => post result (view after)

/-- The program can only end with this result, in a state seen as `next`. -/
abbrev Returns (safe : Prop) (program : StateT State Option α) (seen : View) (result : α) (next : View) : Prop :=
  Yields safe program seen fun r after => r = result ∧ after = next

namespace Yields

variable {program : StateT State Option α} {post : α → View → Prop} {state : State}

theorem pure (holds : post result seen) : Yields safe (pure result : StateT State Option α) seen post := by
  intro state seenAs
  subst seenAs
  exact holds

/-- Programs in sequence: the second runs from every state the first may end in. -/
theorem bind {mid : α → View → Prop} {post : β → View → Prop} (first : Yields safe program seen mid)
    (second : ∀ result after, mid result after → Yields safe (rest result) after post) :
    Yields safe (program >>= rest) seen post := by
  intro state seenAs
  have ends := first state seenAs
  have unfolded : (program >>= rest) state = (program state).bind fun ended => rest ended.1 ended.2 := rfl
  rw [unfolded]
  cases ran : program state with
  | none =>
    rw [ran] at ends
    exact ends
  | some ended =>
    rw [ran] at ends
    exact second _ _ ends ended.2 rfl

theorem imp {stronger : Prop} {weaker : α → View → Prop} (yields : Yields safe program seen post)
    (isSafe : stronger → safe) (implied : ∀ result after, post result after → weaker result after) :
    Yields stronger program seen weaker := by
  intro state seenAs
  have ends := yields state seenAs
  cases ran : program state with
  | none =>
    rw [ran] at ends
    exact fun holds => ends (isSafe holds)
  | some ended =>
    rw [ran] at ends
    exact implied _ _ ends

theorem mono {weaker : α → View → Prop} (yields : Yields safe program seen post)
    (implied : ∀ result after, post result after → weaker result after) : Yields safe program seen weaker :=
  yields.imp id implied

theorem weaken {stronger : Prop} (implied : stronger → safe) (yields : Yields safe program seen post) :
    Yields stronger program seen post :=
  yields.imp implied fun _ _ => id

/-- Nothing is asked of a first program that may stop anywhere. -/
theorem skip {post : β → View → Prop} (second : ∀ result after, Yields False (rest result) after post) :
    Yields False (program >>= rest) seen post := by
  apply @bind _ _ _ _ _ _ _ _ _ (fun _ _ => True)
  · intro state _
    cases program state with
    | none => exact id
    | some ended => trivial
  · exact fun result after _ => second result after

theorem ended {after : State} (yields : Yields safe program (view state) post)
    (ran : program state = some (result, after)) : post result (view after) := by
  have ends := yields state rfl
  rwa [ran] at ends

theorem ends (yields : Yields safe program (view state) post) (holds : safe) :
    ∃ result after, program state = some (result, after) ∧ post result (view after) := by
  have outcome := yields state rfl
  cases ran : program state with
  | none =>
    rw [ran] at outcome
    exact absurd holds outcome
  | some ended =>
    rw [ran] at outcome
    exact ⟨ended.1, ended.2, rfl, outcome⟩

end Yields

namespace Returns

variable {program : StateT State Option α} {result : α}

theorem pure : Returns safe (pure result : StateT State Option α) seen result seen :=
  Yields.pure ⟨rfl, rfl⟩

theorem bind {post : β → View → Prop} (first : Returns safe program seen result next)
    (second : Yields safe (rest result) next post) : Yields safe (program >>= rest) seen post := by
  apply Yields.bind first
  intro r after reached
  rw [reached.1, reached.2]
  exact second

theorem yields {post : α → View → Prop} (returns : Returns safe program seen result next) (holds : post result next) :
    Yields safe program seen post := by
  apply Yields.mono returns
  intro r after reached
  rw [reached.1, reached.2]
  exact holds

theorem of_true (returns : Returns True program seen result next) : Returns safe program seen result next :=
  Yields.weaken (fun _ => trivial) returns

end Returns

/-- A program that computes its result and the next state from what is seen. -/
theorem returns_of_eq {program : StateT State Option α}
    (computes : ∀ state, view state = seen → ∃ after, program state = some (result, after) ∧ view after = next) :
    Returns safe program seen result next := by
  intro state seenAs
  obtain ⟨after, ran, viewed⟩ := computes state seenAs
  rw [ran]
  exact ⟨rfl, viewed⟩

end Pintos.Library
