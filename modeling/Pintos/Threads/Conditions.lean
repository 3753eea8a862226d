import Pintos.Threads.Semaphores

/-! # Condition variables: whom `cond_signal` wakes (`threads/synch.c`)

`higher_priority_insema` compares the first threads asleep on two records.  A thread that has published its record and
is not asleep yet has none, so that the order is by priority only if all threads with a record are asleep.
-/

namespace Pintos.Threads

open Pintos.Kernel Function List Frame

/-- The thread on whose record a frame is in `sema_down`. -/
def Frame.downs : Frame → Option Tid
  | .call (.semaDown (.waiter t)) | .semaDownLoop (.waiter t) _ => some t
  | _ => none

/-- A thread waits on its own record only. -/
def Own (k : Kernel) : Prop :=
  ∀ t, ∀ frame ∈ k.stack t, ∀ u, frame.downs = some u → u = t

variable {k : Kernel}

theorem Own.step {label : Label} {k' : Kernel} (own : Own k) (running : k.toSched.Running)
    (stepped : step label k = some k') : Own k' := by
  refine step_frames _ running.created stepped own (by simp [downs]) ?_ ?_
  · intro c isPublic
    refine ⟨fun u downs => ?_, by simp [Frame.downs]⟩
    unfold Frame.downs at downs
    split at downs
    next same =>
      cases same
      cases isPublic
    next same => cases same
    next => cases downs
  · intro frame rest change frames ending _ top effect
    have before := own k.current frame (by simp [top])
    cases effect with
    | condWait => simp [invoke, downs]
    | semaDown s =>
      have same : (semaDownLoop s k.intr).downs = (call (.semaDown s)).downs := by cases s <;> rfl
      simpa [same] using before
    | semaWait s => simpa using before
    | _ => simp [invoke, downs]

theorem Reachable.own {allowed : Label → Kernel → Prop} (reached : Reachable allowed k) : Own k := by
  refine (reached.invariant Own (fun _ _ => ?_) fun running own _ stepped => own.step running stepped).2
  exact Sched.boot_frames (by simp [invoke, downs]) (by simp [kernelThread, downs])

/-- The only thread that can be asleep on a record is its owner. -/
theorem Own.waiters (own : Own k) (running : k.toSched.Running) {t : Tid} (asleep : k.waiters (.waiter t) ≠ []) :
    k.waiters (.waiter t) = [t] := by
  have owner : ∀ u ∈ k.waiters (.waiter t), u = t := by
    intro u waits
    obtain ⟨-, frame, rest, top, waitsFor⟩ := running.waiting _ u waits
    refine (own u frame (by simp [top]) t ?_).symm
    cases frame <;> simp_all [Frame.waitsFor, Frame.downs]
  cases list : k.waiters (.waiter t) with
  | nil => exact absurd list asleep
  | cons first others =>
    have nodup := running.waitersNodup (.waiter t)
    rw [list] at owner nodup
    obtain rfl := owner first mem_cons_self
    cases others with
    | nil => rfl
    | cons second _ =>
      obtain rfl := owner second (by simp)
      simp at nodup

theorem insema_order (k : Kernel) : StrictWeakOrder (higherPriorityInsema k) :=
  .ofKey fun t => firstWaiterPriority k (.waiter t)

/-- `cond_signal` with a record in the list, up to the `sema_up`, if nothing comes between the sort and the removal. -/
theorem condSignal_steps {sorted : Kernel} {cond : CondId} {lock : LockId} {rest : List Frame}
    (top : k.stack k.current = .call (.condSignal cond lock) :: rest) (nonempty : k.conds cond ≠ [])
    (stepped : step .run k = some sorted) :
    ∃ first others, listSort (higherPriorityInsema k) (k.conds cond) = first :: others ∧ sorted = { k with
        conds := update k.conds cond (first :: others)
        stack := update k.stack k.current (.condSorted cond :: rest) } ∧
      step .run sorted = some { k with
        conds := update k.conds cond others
        stack := update k.stack k.current (invoke (.semaUp (.waiter first)) ++ rest) } := by
  simp only [step, top] at stepped
  obtain ⟨change, frames, ending, effect, run⟩ := exec_effect stepped
  cases effect with
  | condSignalNone _ _ empty => exact absurd empty nonempty
  | condSignal =>
    have perm := perm_listSort (insema_order k) (k.conds cond)
    have ordered := ordered_listSort (insema_order k) (k.conds cond)
    replace run : { k with
        conds := update k.conds cond (listSort (higherPriorityInsema k) (k.conds cond))
        stack := update (update k.stack k.current rest) k.current
          ([.condSorted cond] ++ update k.stack k.current rest k.current) } = sorted := Option.some.inj run
    rw [update_self, update_idem] at run
    cases list : listSort (higherPriorityInsema k) (k.conds cond) with
    | nil =>
      rw [list] at perm
      exact absurd perm.nil_eq.symm nonempty
    | cons first others =>
      rw [list] at ordered run
      refine ⟨first, others, rfl, run.symm, ?_⟩
      rw [← run]
      simp only [step, update_self, cons_append, nil_append, exec, condSorted]
      rw [if_pos]
      · simp [Kernel.push]
      · exact (isSorted_iff (insema_order k) _).mpr ordered

/-- `cond_signal` on a condition all of whose waiters are asleep. -/
theorem condSignal_highest {k : Kernel} (reached : Reachable anyStep k) {cond : CondId} {lock : LockId}
    {rest : List Frame} (top : k.stack k.current = .call (.condSignal cond lock) :: rest)
    (asleep : ∀ t ∈ k.conds cond, k.waiters (.waiter t) ≠ []) :
    (∀ x ∈ k.conds cond, ∀ y ∈ k.conds cond, x ∈ k.waiters (.waiter x) ∧ y ∈ k.waiters (.waiter y) ∧
      higherPriorityInsema k x y = decide (k.priority y < k.priority x)) ∧
    ∀ sorted, step .run k = some sorted → k.conds cond ≠ [] → ∃ first ∈ k.conds cond,
      (∀ t ∈ k.conds cond, k.priority t ≤ k.priority first) ∧ ∃ signalled, step .run sorted = some signalled ∧
      signalled.stack k.current = invoke (.semaUp (.waiter first)) ++ rest ∧
      (first :: signalled.conds cond).Perm (k.conds cond) := by
  have owner : ∀ t ∈ k.conds cond, k.waiters (.waiter t) = [t] :=
    fun t waits => reached.own.waiters reached.running (asleep t waits)
  have priority : ∀ t ∈ k.conds cond, firstWaiterPriority k (.waiter t) = k.priority t := by
    intro t waits
    rw [firstWaiterPriority, owner t waits]
  refine ⟨fun x xWaits y yWaits => ⟨by simp [owner x xWaits], by simp [owner y yWaits], ?_⟩, ?_⟩
  · rw [higherPriorityInsema, priority x xWaits, priority y yWaits]
  · intro sorted stepped nonempty
    obtain ⟨first, others, list, -, signals⟩ := condSignal_steps top nonempty stepped
    have perm := perm_listSort (insema_order k) (k.conds cond)
    have ordered := ordered_listSort (insema_order k) (k.conds cond)
    rw [list] at perm ordered
    have waits : first ∈ k.conds cond := perm.mem_iff.mp mem_cons_self
    refine ⟨first, waits, fun t member => ?_, _, signals, update_self .., by simpa using perm⟩
    cases mem_cons.mp (perm.mem_iff.mpr member) with
    | inl isFirst => exact Int.le_of_eq (congrArg k.priority isFirst)
    | inr later =>
      have notHigher := (pairwise_cons.mp ordered).1 t later
      simpa [higherPriorityInsema, priority t member, priority first waits] using notHigher

/-- Two waiters are asleep, and the one with the higher priority is signalled. -/
theorem condSignal_highest_example : ∃ k sorted signalled, k.conds 0 = [2, 3] ∧ k.priority 2 = 35 ∧ k.priority 3 = 40 ∧
    step .run k = some sorted ∧ step .run sorted = some signalled ∧
    signalled.stack k.current = invoke (.semaUp (.waiter 3)) ++ [.ret (.condSignal 0 1)] := by
  obtain ⟨k, reached, top, conds, low, high, asleep, runs⟩ := exists_reachable anyStep
    (fun k => k.stack k.current = invoke (.condSignal 0 1) ∧ k.conds 0 = [2, 3] ∧ k.priority 2 = 35 ∧
      k.priority 3 = 40 ∧
      (∀ t ∈ k.conds 0, k.waiters (.waiter t) ≠ []) ∧ (step .run k).isSome)
    (callThen (.threadCreate 35) 14 ++ callThen (.lockAcquire 1) 3 ++ callThen (.condWait 0 1) 12 ++
      callThen (.threadCreate 40) 14 ++ callThen (.lockAcquire 1) 3 ++ callThen (.condWait 0 1) 12 ++
      callThen (.lockAcquire 1) 3 ++ [.call (.condSignal 0 1)])
    (by decide +kernel)
  obtain ⟨sorted, stepped⟩ := Option.isSome_iff_exists.mp runs
  obtain ⟨first, waits, highest, signalled, signals, stack, -⟩ :=
    (condSignal_highest reached top asleep).2 sorted stepped (by simp [conds])
  have isHigh : first = 3 := by
    have higher := highest 3 (by simp [conds])
    rw [conds, mem_pair] at waits
    apply waits.resolve_left
    rintro rfl
    rw [low, high] at higher
    cases higher
  exact ⟨k, sorted, signalled, conds, low, high, stepped, signals, isHigh ▸ stack⟩

/-- A waiter of priority 40 has published its record and is not asleep yet.  It compares as lower than a waiter of
priority 35, which is signalled instead. -/
theorem condSignal_not_highest : ∃ k, Reachable anyStep k ∧ k.stack k.current = invoke (.condSignal 0 1) ∧
    k.conds 0 = [2, 4] ∧ k.priority 2 = 35 ∧ k.priority 4 = 40 ∧ k.waiters (.waiter 4) = [] ∧
    higherPriorityInsema k 2 4 = true ∧
    ((step .run k).bind (step .run)).map (fun signalled => (signalled.stack k.current).head?) =
      some (some (.call (.semaUp (.waiter 2)))) :=
  exists_reachable anyStep _
    (callThen (.threadCreate 35) 14 ++ callThen (.lockAcquire 1) 3 ++ callThen (.condWait 0 1) 12 ++
      callThen (.threadCreate 40) 14 ++ callThen (.threadCreate 40) 14 ++ callThen (.lockAcquire 1) 3 ++
      callThen (.condWait 0 1) 7 ++ callThen (.lockAcquire 1) 3 ++ [.call (.condSignal 0 1)])
    (by decide +kernel)

end Pintos.Threads
