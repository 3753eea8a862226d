import Pintos.Threads.ReadyQueue

/-! # Preemption

A thread that makes another one ready, or changes a priority, yields before it returns if a ready thread has
a higher priority than its own.  Interrupt handlers do not: `timer_interrupt` wakes sleeping threads and asks
for a yield on return only at the end of a time slice, and `sema_up` inside a handler never yields.  The law
therefore needs a condition on interrupts.
-/

namespace Pintos.Threads

open Pintos.Kernel Sched Function List Option Kernel

/-- No ready thread has a higher priority than the running one. -/
def Sched.Calm (s : Sched) : Prop :=
  ∀ t ∈ s.readyList, s.priority t ≤ s.priority s.current

/-! ## The scheduler -/

variable {k k' : Kernel}

theorem schedule_calm (scheduled : schedule k = some k') (ordered : Ordered (higherPriority k.priority) k.readyList) :
    k'.toSched.Calm := by
  obtain ⟨next, rest, picked, rfl⟩ := schedule_eq scheduled
  cases picked with
  | inl ready =>
    rw [ready] at ordered
    intro t member
    simpa [higherPriority] using (pairwise_cons.mp ordered).1 t member
  | inr idle =>
    obtain ⟨-, rfl, -⟩ := idle
    intro t member
    cases member

theorem threadYield_calm (yielded : threadYield k = some k')
    (ordered : Ordered (higherPriority k.priority) k.readyList) : k'.toSched.Calm := by
  unfold threadYield at yielded
  split_ifs at yielded
  refine schedule_calm yielded ?_
  by_cases idle : k.idleThread = some k.current
  · simpa [idle, push] using ordered
  · have inserted : Ordered _ (listInsertOrdered (higherPriority k.priority) k.current k.readyList) :=
      ordered_listInsertOrdered (higherPriority_order k.priority) ordered
    simpa [idle, push, insertReady] using inserted

variable {newPriority : Int} {t : Tid}

/-- Outside interrupt handlers, `specific_thread_set_priority` yields if it has to. -/
theorem specificThreadSetPriority_calm (set : specificThreadSetPriority newPriority t k = some k')
    (outside : k.inExternalIntr = false) : k'.toSched.Calm := by
  have ordered := ordered_listSort (higherPriority_order (update k.priority t newPriority)) k.readyList
  simp only [specificThreadSetPriority] at set
  split at set
  next empty =>
    rw [← some.inj set]
    intro other ready
    simp [empty] at ready
  next tfirst rest sorted =>
    split at set
    next => exact threadYield_calm set ordered
    next stays =>
      rw [← some.inj set]
      rw [sorted] at ordered
      simp only [outside, and_true, Int.not_le] at stays
      intro other ready
      simp only [sorted] at ready
      cases ready with
      | head => exact Int.le_of_lt stays
      | tail _ later =>
        have notHigher := (pairwise_cons.mp ordered).1 other later
        simp only [higherPriority, decide_eq_false_iff_not, Int.not_lt] at notHigher
        exact Int.le_trans notHigher (Int.le_of_lt stays)

/-- Inside a handler it never yields. -/
theorem specificThreadSetPriority_inside (set : specificThreadSetPriority newPriority k.current k = some k')
    (inside : k.inExternalIntr = true) (below : ∀ t ∈ k.readyList, k.priority t ≤ newPriority) :
    k'.toSched.Calm ∧ k'.current = k.current ∧ k'.stack = k.stack ∧ k'.inExternalIntr = true := by
  have members := perm_listSort (higherPriority_order (update k.priority k.current newPriority)) k.readyList
  have lower : ∀ t ∈ k.readyList, update k.priority k.current newPriority t ≤ newPriority := by
    intro t ready
    by_cases me : t = k.current
    · simp [me]
    · simpa [me] using below t ready
  simp only [specificThreadSetPriority] at set
  split at set
  next => exact some.inj set ▸ ⟨fun t ready => by simpa using lower t (members.mem_iff.mp ready), rfl, rfl, inside⟩
  next =>
    rw [if_neg (by simp [inside])] at set
    exact some.inj set ▸ ⟨fun t ready => by simpa using lower t (members.mem_iff.mp ready), rfl, rfl, inside⟩

/-! ## Waking threads -/

/-- At most the threads in `woken` have become ready, and the running thread goes on. -/
structure Wakes (woken : List Tid) (k k' : Kernel) : Prop where
  ready : ∀ t ∈ k'.readyList, t ∈ k.readyList ∨ t ∈ woken
  priority : k'.priority = k.priority
  current : k'.current = k.current
  inExternalIntr : k'.inExternalIntr = k.inExternalIntr
  yieldOnReturn : k'.yieldOnReturn = k.yieldOnReturn

theorem wakes_threadUnblock (unblocked : threadUnblock t k = some k') : Wakes [t] k k' := by
  obtain ⟨-, rfl⟩ := threadUnblock_eq unblocked
  refine ⟨fun u ready => ?_, rfl, rfl, rfl, rfl⟩
  simpa [insertReady, or_comm] using ready

variable {s : SemaId}

theorem wakes_semaUp (upped : semaUp s k = some k') : Wakes (k.waiters s) k k' := by
  simp only [semaUp] at upped
  split at upped
  next => exact some.inj upped ▸ ⟨fun t ready => .inl ready, rfl, rfl, rfl, rfl⟩
  next first rest sorted =>
    obtain ⟨ready, priority, current, inExternalIntr, yieldOnReturn⟩ := wakes_threadUnblock upped
    refine ⟨fun t member => ?_, priority, current, inExternalIntr, yieldOnReturn⟩
    have waits : first ∈ k.waiters s := (highest_first sorted).1.mem_iff.mp (.head _)
    cases ready t member with
    | inl old => exact .inl old
    | inr new => exact .inr (mem_singleton.mp new ▸ waits)

/-- The sleeping threads that a timer tick wakes. -/
def dueSleepers (ticks : Int) (k : Kernel) : List Tid :=
  k.waitingList.takeWhile fun t => k.wakeupTick t ≤ ticks

theorem wakes_wakeSleepers {sleepers : List Tid} (woken : wakeSleepers sleepers k = some k') :
    Wakes (sleepers.takeWhile fun t => k.wakeupTick t ≤ k.ticks) k k' := by
  induction sleepers generalizing k with
  | nil => exact some.inj woken ▸ ⟨fun t ready => .inl ready, rfl, rfl, rfl, rfl⟩
  | cons sleeper rest ih =>
    simp only [wakeSleepers] at woken
    split at woken
    next due =>
      split at woken
      next => cases woken
      next between unblocked =>
        have first := wakes_threadUnblock unblocked
        have later := ih woken
        obtain ⟨-, rfl⟩ := threadUnblock_eq unblocked
        refine ⟨fun t member => ?_, later.priority, later.current, later.inExternalIntr, later.yieldOnReturn⟩
        simp only [takeWhile_cons, due, decide_true, if_true]
        cases later.ready t member with
        | inl before =>
          cases first.ready t before with
          | inl old => exact .inl old
          | inr new => exact .inr (mem_singleton.mp new ▸ .head _)
        | inr due => exact .inr (.tail _ due)
    next => exact some.inj woken ▸ ⟨fun t ready => .inl ready, rfl, rfl, rfl, rfl⟩

theorem Wakes.calm {woken : List Tid} (wakes : Wakes woken k k')
    (ready : ∀ t ∈ k.readyList, k.priority t ≤ k.priority k.current)
    (lower : ∀ t ∈ woken, k.priority t ≤ k.priority k.current) : k'.toSched.Calm := by
  intro t member
  rw [wakes.priority, wakes.current]
  cases wakes.ready t member with
  | inl old => exact ready t old
  | inr new => exact lower t new

/-! ## The state of a preemption -/

/-- What is left to do of the handler of an external interrupt. -/
inductive Handling (k : Kernel) : List Frame → Prop
  | recalculate (rest : List Frame) (below : ∀ t ∈ k.readyList, k.priority t ≤ recalculatedPriority k) :
      Handling k (.recalculatePriority :: .intrSetLevel .off :: .intrExit :: rest)
  | set (newPriority : Int) (rest : List Frame) (below : ∀ t ∈ k.readyList, k.priority t ≤ newPriority) :
      Handling k (.specificThreadSetPriority newPriority :: .intrSetLevel .off :: .intrExit :: rest)
  | level (rest : List Frame) (calm : k.toSched.Calm) : Handling k (.intrSetLevel .off :: .intrExit :: rest)
  | exit (rest : List Frame) (calm : k.yieldOnReturn = false → k.toSched.Calm) : Handling k (.intrExit :: rest)

/-- Either no ready thread has a higher priority, or the running thread will check in its next frame. -/
inductive Settling (k : Kernel) : List Frame → Prop
  | calm (stack : List Frame) (calm : k.toSched.Calm) : Settling k stack
  | recalculate (rest : List Frame) : Settling k (.recalculatePriority :: rest)
  | set (newPriority : Int) (rest : List Frame) : Settling k (.specificThreadSetPriority newPriority :: rest)
  | renew (rest : List Frame) : Settling k (.renewPriority :: rest)

inductive Preempting (k : Kernel) : Prop
  | handling (inside : k.inExternalIntr = true) (rest : Handling k (k.stack k.current)) : Preempting k
  | settling (outside : k.inExternalIntr = false) (rest : Settling k (k.stack k.current)) : Preempting k

theorem Preempting.of_calm (outside : k.inExternalIntr = false) (calm : k.toSched.Calm) : Preempting k :=
  .settling outside (.calm _ calm)

/-- Interrupts and `thread_unblock` make no thread ready that should preempt the running one, unless the time
slice ends. -/
def wakesNoneAbove : Label → Kernel → Prop
  | .run, k =>
    match k.stack k.current with
    | .call (.threadUnblock t) :: _ => k.priority t ≤ k.priority k.current
    | _ => True
  | .call _, _ => True
  | .interrupt .timer, k =>
    timeSlice ≤ k.threadTicks + 1 ∨
      ∀ t ∈ k.readyList ++ dueSleepers ((k.ticks + 1).bmod (2 ^ 64)) k, k.priority t ≤ k.priority k.current
  -- The handler ends with `recalculate_priority` for the interrupted thread.
  | .interrupt (.device s), k =>
    ∀ t ∈ k.readyList ++ k.waiters (.sema s), k.priority t ≤ recalculatedPriority k

instance : ∀ label k, Decidable (wakesNoneAbove label k)
  | .run, k => by
    simp only [wakesNoneAbove]
    generalize k.stack k.current = stack
    revert stack
    exact id fun (stack : Stack) => by split <;> infer_instance
  | .call _, _ => .isTrue trivial
  | .interrupt .timer, k => by
    simp only [wakesNoneAbove]
    infer_instance
  | .interrupt (.device s), k => by
    simp only [wakesNoneAbove]
    infer_instance

theorem semaUp_preempting (upped : semaUp s k = some k') (outside : k.inExternalIntr = false) : Preempting k' := by
  have wakes := wakes_semaUp upped
  refine .settling (wakes.inExternalIntr.trans outside) ?_
  rw [wakes.current, (grows_semaUp upped).stack]
  simpa using Settling.recalculate _

theorem specificThreadSetPriority_preempting (set : specificThreadSetPriority newPriority t k = some k')
    (outside : k.inExternalIntr = false) : Preempting k' := by
  refine .of_calm ?_ (specificThreadSetPriority_calm set outside)
  cases switches_specificThreadSetPriority set with
  | inl stays => exact stays.inExternalIntr.trans outside
  | inr yields => exact yields.inExternalIntr.trans outside

theorem intrExit_preempting (ordered : Ordered (higherPriority k.priority) k.readyList)
    (calm : k.yieldOnReturn = false → k.toSched.Calm) (executed : exec .intrExit k = some k') : Preempting k' := by
  simp only [exec] at executed
  split at executed
  next => exact .of_calm (switches_threadYield executed).inExternalIntr (threadYield_calm executed ordered)
  next stays => exact some.inj executed ▸ .of_calm rfl (calm (eq_false_of_ne_true stays))

theorem Ending.preempting {ending : Ending} (run : ending.run k = some k') (outside : k.inExternalIntr = false)
    (calm : k.toSched.Calm) (ordered : Ordered (higherPriority k.priority) k.readyList)
    (lower : ∀ t, ending = .unblock t → k.priority t ≤ k.priority k.current) : Preempting k' := by
  cases ending with
  | stay => exact some.inj run ▸ .of_calm outside calm
  | block =>
    exact .of_calm ((switches_threadBlock run).inExternalIntr.trans outside)
      (schedule_calm (threadBlock_eq run) ordered)
  | exit => exact .of_calm ((switches_schedule run).inExternalIntr.trans outside) (schedule_calm run ordered)
  | yield => exact .of_calm ((switches_threadYield run).inExternalIntr.trans outside) (threadYield_calm run ordered)
  | unblock t =>
    have wakes := wakes_threadUnblock run
    exact .of_calm (wakes.inExternalIntr.trans outside) (wakes.calm calm (by simpa using lower t rfl))
  | setPriority newPriority t => exact specificThreadSetPriority_preempting run outside
  | up s => exact semaUp_preempting run outside

theorem exec_preempting {frame : Frame} (outside : k.inExternalIntr = false) (calm : k.toSched.Calm)
    (ordered : Ordered (higherPriority k.priority) k.readyList) (created : k.current ≠ k.nextThread)
    (fresh : k.nextThread ∉ k.readyList)
    (lower : ∀ t, frame = .call (.threadUnblock t) → k.priority t ≤ k.priority k.current)
    (executed : exec frame k = some k') : Preempting k' := by
  obtain ⟨change, frames, ending, effect, run⟩ := exec_effect executed
  have ends := Ending.preempting run
  cases effect with
  | threadCreate priority =>
    rw [← some.inj run]
    refine .of_calm outside fun t ready => ?_
    have other : t ≠ k.nextThread := ne_of_mem_of_not_mem ready fresh
    simpa [push, initThread, other, created] using calm t ready
  | createTail t =>
    have wakes := wakes_threadUnblock run
    refine .settling (wakes.inExternalIntr.trans outside) ?_
    rw [wakes.current, (switches_threadUnblock run).stack]
    simpa [push] using Settling.renew _
  | intrExit | intrExitStays => exact intrExit_preempting ordered (fun _ => calm) executed
  | threadUnblock t =>
    apply ends outside calm ordered
    rintro _ ⟨⟩
    exact lower t rfl
  | _ => exact ends outside calm ordered (by simp)

theorem Preempting.run (h : Preempting k) (running : k.toSched.Running) (permitted : wakesNoneAbove .run k)
    (stepped : step .run k = some k') : Preempting k' := by
  have ordered := running.ordered
  have fresh : k.nextThread ∉ k.readyList := by
    intro ready
    have dying := (running.fresh k.nextThread le_rfl).1
    simp [((running.mem_ready _).mp ready).1] at dying
  rcases top : k.stack k.current with _ | ⟨frame, rest⟩
  · simp [step, top] at stepped
  simp only [step, top] at stepped
  simp only [wakesNoneAbove, top] at permitted
  cases h with
  | handling inside handling =>
    rw [top] at handling
    cases handling with
    | recalculate rest below =>
      rw [← some.inj stepped]
      refine .handling inside ?_
      simp only [push, update_self, cons_append, nil_append]
      exact .set _ rest below
    | set newPriority rest below =>
      obtain ⟨calm, current, stack, inside⟩ := specificThreadSetPriority_inside stepped inside below
      refine .handling inside ?_
      rw [current, stack]
      simpa using Handling.level rest calm
    | level rest calm =>
      simp only [exec] at stepped
      rw [if_neg (by simp)] at stepped
      rw [← some.inj stepped]
      refine .handling inside ?_
      simp only [update_self]
      exact .exit rest fun _ => calm
    | exit rest calm => exact intrExit_preempting (by exact ordered) (by exact calm) stepped
  | settling outside settling =>
    rw [top] at settling
    cases settling with
    | calm _ calm =>
      refine exec_preempting ?_ ?_ ?_ ?_ ?_ ?_ stepped
      · exact outside
      · exact calm
      · exact ordered
      · exact running.created
      · exact fresh
      · rintro t rfl
        exact permitted
    | recalculate | renew =>
      rw [← some.inj stepped]
      refine .settling outside ?_
      simpa [push] using Settling.set _ _
    | set newPriority rest => exact specificThreadSetPriority_preempting stepped outside

theorem Preempting.call {c : Call} (h : Preempting k) (stepped : step (.call c) k = some k') : Preempting k' := by
  cases step_cases stepped with
  | call outside isPublic pushed =>
    rw [pushed]
    cases h with
    | handling inside handling =>
      rw [outside] at handling
      cases handling
    | settling outsideHandler settling =>
      rw [outside] at settling
      cases settling with
      | calm _ calm => exact .of_calm outsideHandler calm

theorem preempting_timer (permitted : wakesNoneAbove (.interrupt .timer) k) (handled : intrHandler .timer k = some k') :
    Preempting k' := by
  have wakes := wakes_wakeSleepers handled
  refine .handling wakes.inExternalIntr ?_
  rw [wakes.current, (grows_wakeSleepers handled).1]
  simp only [push, update_self, cons_append, nil_append]
  refine .exit _ fun stays => ?_
  simp only [wakes.yieldOnReturn, Bool.false_or, push] at stays
  have lower := permitted.resolve_left (of_decide_eq_false stays)
  apply wakes.calm
  · intro t ready
    exact lower t (mem_append_left _ ready)
  · intro t due
    exact lower t (mem_append_right _ due)

theorem semaUp_firstWaiterPriority (other : SemaId) (different : other ≠ s) (upped : semaUp s k = some k') :
    firstWaiterPriority k' other = firstWaiterPriority k other := by
  simp only [semaUp] at upped
  split at upped
  next => exact some.inj upped ▸ rfl
  next =>
    obtain ⟨-, rfl⟩ := threadUnblock_eq upped
    simp [firstWaiterPriority, insertReady, push, different]

theorem preempting_device {s : Nat} (permitted : wakesNoneAbove (.interrupt (.device s)) k)
    (handled : intrHandler (.device s) k = some k') : Preempting k' := by
  have wakes := wakes_semaUp handled
  have same : recalculatedPriority k' = recalculatedPriority k := by
    have first lock := semaUp_firstWaiterPriority (.lock lock) (by simp) handled
    have synch := semaUp_synch handled
    simp only [recalculatedPriority, wakes.current, synch, first]
    rfl
  refine .handling wakes.inExternalIntr ?_
  rw [wakes.current, (grows_semaUp handled).stack]
  simp only [push, update_self, cons_append, nil_append]
  refine .recalculate _ fun t ready => ?_
  rw [wakes.priority, same]
  exact permitted t (mem_append.mpr (wakes.ready t ready))

theorem Preempting.step {label : Label} (h : Preempting k) (running : k.toSched.Running)
    (permitted : wakesNoneAbove label k) (stepped : step label k = some k') : Preempting k' := by
  cases step_cases stepped with
  | run => exact h.run running permitted stepped
  | call => exact h.call stepped
  | timer _ handled => exact preempting_timer permitted handled
  | device _ handled => exact preempting_device permitted handled

/-! ## Every run -/

theorem preempting_boot (semaInit : Nat → Nat) (tailWord : SemaId → { word : Int // word < 0 }) :
    Preempting (boot semaInit tailWord) :=
  .of_calm rfl (by simp [Sched.Calm, boot, idleTid, initialThread, priMin, priDefault])

theorem Reachable.preempting (reached : Reachable wakesNoneAbove k) : Preempting k :=
  (reached.invariant Preempting preempting_boot fun running h => h.step running).2

/-- The points at which a thread goes on after a call that can make another thread ready, or after an
interrupt. -/
def Frame.mayPreempt : Frame → Bool
  | .ret (.threadCreate _) | .ret (.threadSetPriority _) | .ret (.semaUp _) | .ret (.lockRelease _)
  | .ret (.condSignal _ _) | .iret => true
  | _ => false

/-- A thread that goes on at one of these points has no ready thread of higher priority beside it. -/
theorem no_higher_ready_on_return {frame : Frame} {rest : List Frame}
    (reached : Reachable wakesNoneAbove k) (top : k.stack k.current = frame :: rest)
    (returns : frame.mayPreempt = true) : ∀ t ∈ k.readyList, k.priority t ≤ k.priority k.current := by
  cases reached.preempting with
  | handling inside handling =>
    rw [top] at handling
    cases handling <;> cases returns
  | settling outside settling =>
    rw [top] at settling
    cases settling with
    | calm _ calm => exact calm
    | _ => cases returns

/-- A thread of priority 40 is woken by the tick that ends the time slice of the initial thread, which goes on
when that thread sleeps again. -/
theorem no_higher_ready_on_return_example : ∃ k : Kernel, k.current = initialThread ∧
    k.stack initialThread = [.iret] ∧ k.readyList = [2] ∧ k.priority 2 ≤ k.priority initialThread := by
  obtain ⟨k, reached, current, stack, ready⟩ := exists_reachable wakesNoneAbove
    (fun k => k.current = initialThread ∧ k.stack initialThread = [.iret] ∧ k.readyList = [2])
    (callThen (.threadCreate 20) 14 ++ callThen (.threadCreate 40) 14 ++ callThen (.timerSleep 4) 5 ++
      [.interrupt .timer, .run, .run, .interrupt .timer, .run, .run, .interrupt .timer, .run, .run] ++
      [.interrupt .timer, .run, .run, .run] ++ callThen (.timerSleep 10) 3)
    (by decide +kernel)
  have lower := no_higher_ready_on_return reached (current.symm ▸ stack) rfl 2 (by simp [ready])
  exact ⟨k, current, stack, ready, current ▸ lower⟩

/-- A timer tick that does not end the time slice wakes a thread of priority 40, and the initial thread goes on. -/
theorem timerInterrupt_no_preemption : ∃ k, Reachable anyStep k ∧ k.current = initialThread ∧
    k.stack initialThread = [.iret] ∧ 2 ∈ k.readyList ∧ k.priority initialThread < k.priority 2 :=
  exists_reachable anyStep (fun k => k.current = initialThread ∧ k.stack initialThread = [.iret] ∧ 2 ∈ k.readyList ∧
      k.priority initialThread < k.priority 2)
    (callThen (.threadCreate 40) 14 ++ callThen (.timerSleep 1) 5 ++ [.interrupt .timer, .run]) (by decide +kernel)

end Pintos.Threads
