import Pintos.Threads.ReadyQueue

/-! # Nested donation

`lock_priority_donate` raises the holder of a lock and goes on to the lock that holder waits for.  A waiter
clears its `plock_acq` only when it runs again, so that the next lock of the walk may have been released: by
the time the donation gets there, or while the donating thread was preempted in the middle of its walk.
-/

namespace Pintos.Threads

open Sched Function List Frame

/-- A donation does not raise a thread that waits for a lock without a holder, and a lock is not released
while a preempted donation is about to go on to it.  Interrupts are left out. -/
def walksHeldLocks : Label → Kernel → Prop
  | .run, k =>
    match k.stack k.current with
    | .lockPriorityDonate lock newPriority :: _ =>
      ∀ tdonatee ∈ k.holder lock, k.priority tdonatee < newPriority →
        ∀ plock ∈ k.plockAcq tdonatee, k.holder plock ≠ none
    | .call (.lockRelease lock) :: _ =>
      ∀ t < k.nextThread, ∀ frame ∈ k.stack t,
        match frame with
        | .donateNext tdonatee _ => k.plockAcq tdonatee ≠ some lock
        | _ => True
    | _ => True
  | .call _, _ => True
  | .interrupt _, _ => False

instance : ∀ label k, Decidable (walksHeldLocks label k)
  | .run, k => by
    simp only [walksHeldLocks]
    generalize k.stack k.current = stack
    revert stack
    refine id fun (stack : Stack) => ?_
    split
    · infer_instance
    · refine @Nat.decidableBallLT _ _ fun t _ => @decidableBAll _ _ (fun frame => ?_) _
      split <;> infer_instance
    · infer_instance
  | .call _, _ => .isTrue trivial
  | .interrupt _, _ => .isFalse id

def Frame.donates : Frame → Bool
  | .lockPriorityDonate _ _ => true
  | _ => false

/-- Only the running thread is inside `lock_priority_donate`, on a lock with a holder, and each preempted walk
can go on. -/
structure Walking (k : Kernel) : Prop where
  current : ∀ t, ∀ frame ∈ k.stack t, frame.donates → t = k.current
  top : ∀ frame rest, k.stack k.current = frame :: rest → ∀ below ∈ rest, below.donates = false
  held : ∀ lock newPriority rest, k.stack k.current = .lockPriorityDonate lock newPriority :: rest →
    k.holder lock ≠ none
  next : ∀ t tdonatee newPriority, .donateNext tdonatee newPriority ∈ k.stack t →
    ∀ lock, k.plockAcq tdonatee = some lock → k.holder lock ≠ none

/-! ## One step -/

variable {pushed : List Frame} {frame : Frame}

theorem Continues.donates (continues : Continues frame pushed) (notAcquire : ∀ lock, frame ≠ .call (.lockAcquire lock))
    (notNext : ∀ t p, frame ≠ .donateNext t p) : ∀ next ∈ pushed, next.donates = false := by
  cases continues with
  | lockDonate lock newPriority level => exact absurd rfl (notAcquire lock)
  | donateNext t lock newPriority => exact absurd rfl (notNext t newPriority)
  | _ => simp [invoke, donates]

variable {tdonatee : Tid} {newPriority : Int}

theorem Continues.donateNext_mem (continues : Continues frame pushed) (notDonate : frame.donates = false) :
    .donateNext tdonatee newPriority ∉ pushed := by
  cases continues with
  | donate | donateYield => cases notDonate
  | _ => simp [invoke]

variable {label : Label} {k k' : Kernel}

/-- What a step does to the holders and to what threads wait for keeps the preempted walks on held locks. -/
theorem step_plockAcq_held (stepped : step label k = some k')
    (before : ∀ lock, k.plockAcq tdonatee = some lock → k.holder lock ≠ none)
    (kept : ∀ lock rest, k.stack k.current = .call (.lockRelease lock) :: rest → k.plockAcq tdonatee ≠ some lock) :
    ∀ lock, k'.plockAcq tdonatee = some lock → k'.holder lock ≠ none := by
  have move := step_synch stepped
  generalize k'.toSynch = after at move
  cases move with
  | call | timer | device => exact before
  | @run frame rest after top synch =>
    cases synch with
    | threadCreate priority inRange =>
      intro lock waits
      by_cases new : tdonatee = k.nextThread
      · simp [new] at waits
      · exact before lock (by simpa [new] using waits)
    | lockAcquire lock holder held other =>
      intro next waits
      by_cases me : tdonatee = k.current
      · have same : lock = next := by simpa [me] using waits
        simp [← same, held]
      · exact before next (by simpa [me] using waits)
    | lockRelease lock held owned =>
      intro next waits
      have different : next ≠ lock := by
        rintro rfl
        exact kept next rest top waits
      simpa [different] using before next waits
    | lockDown lock level positive =>
      intro next waits
      simp only [lockOwn, semaTake] at waits ⊢
      by_cases me : tdonatee = k.current
      · simp [me] at waits
      · by_cases same : next = lock
        · simp [same]
        · simpa [same] using before next (by simpa [me] using waits)
    | lockTaken lock =>
      intro next waits
      by_cases same : next = lock
      · simp [same]
      · simpa [same] using before next waits
    | _ => exact before

variable {lock : LockId}

theorem lockPriorityDonate_stack (executed : lockPriorityDonate lock newPriority k = some k') :
    k'.stack = k.stack ∨ ∃ tdonatee pushed, k.holder lock = some tdonatee ∧ k.priority tdonatee < newPriority ∧
      (∀ frame ∈ pushed, ∃ level, frame = .intrSetLevel level) ∧
      k'.stack = update k.stack k.current (pushed ++ .donateNext tdonatee newPriority :: k.stack k.current) := by
  unfold lockPriorityDonate at executed
  split at executed
  next => cases executed
  next tdonatee held =>
    split at executed
    next lower =>
      refine .inr ⟨tdonatee, ?_⟩
      cases switches_specificThreadSetPriority executed with
      | inl stays => exact ⟨[], held, lower, by simp, by simpa [Kernel.push] using stays.stack⟩
      | inr yields =>
        exact ⟨[.intrSetLevel .off, .intrSetLevel k.intr], held, lower,
          by simp, by simpa [Kernel.push] using yields.stack⟩
    next => exact .inl (Option.some.inj executed ▸ rfl)

variable {rest : List Frame}

/-- The hop of a donation leads to a thread that can be followed. -/
theorem next_donate {p : Int} (permitted : walksHeldLocks .run k)
    (top : k.stack k.current = .lockPriorityDonate lock p :: rest) (stepped : step .run k = some k')
    (member : .donateNext tdonatee newPriority ∈ k'.stack k.current) :
    .donateNext tdonatee newPriority ∈ k.stack k.current ∨
      ∀ next, k.plockAcq tdonatee = some next → k.holder next ≠ none := by
  simp only [walksHeldLocks, top] at permitted
  simp only [step, top] at stepped
  cases lockPriorityDonate_stack stepped with
  | inl same =>
    simp only [same, update_self] at member
    exact .inl (top ▸ mem_cons_of_mem _ member)
  | inr hop =>
    obtain ⟨raised, pushed, held, lower, levels, stack⟩ := hop
    simp only [stack, update_self, mem_append, mem_cons, donateNext.injEq] at member
    rcases member with level | ⟨rfl, rfl⟩ | old
    · obtain ⟨level, same⟩ := levels _ level
      cases same
    · exact .inr fun next waits => permitted tdonatee held lower next waits
    · exact .inl (top ▸ mem_cons_of_mem _ old)

section

variable (h : Walking k)

include h

theorem Walking.next_step (running : k.toSched.Running) (permitted : walksHeldLocks label k)
    (stepped : step label k = some k') (t tdonatee : Tid) (newPriority : Int)
    (member : .donateNext tdonatee newPriority ∈ k'.stack t) :
    ∀ lock, k'.plockAcq tdonatee = some lock → k'.holder lock ≠ none := by
  -- A walk that was preempted before the step.
  have older {u : Tid} {p : Int} (old : .donateNext tdonatee p ∈ k.stack u) :
      ∀ lock, k'.plockAcq tdonatee = some lock → k'.holder lock ≠ none := by
    refine step_plockAcq_held stepped (h.next u tdonatee p old) fun lock rest top => ?_
    have exists_ : u < k.nextThread := by
      by_contra late
      simp [(running.fresh u (Nat.le_of_not_lt late)).2] at old
    cases label with
    | run =>
      simp only [walksHeldLocks, top] at permitted
      exact permitted u exists_ _ old
    | call c => simp [step, top] at stepped
    | interrupt handler => cases permitted
  obtain ⟨mine, others⟩ := step_stack running.created stepped
  by_cases other : t = k.current
  · subst other
    generalize after : k'.stack k.current = stack at mine member
    cases mine with
    | @run frame rest pushed top continues =>
      cases isDonate : frame.donates with
      | false =>
        cases mem_append.mp member with
        | inl new => exact absurd new (continues.donateNext_mem isDonate)
        | inr old => exact older (top ▸ mem_cons_of_mem _ old)
      | true =>
        cases frame with
        | lockPriorityDonate lock raisedTo =>
          rw [← after] at member
          cases next_donate permitted top stepped member with
          | inl old => exact older old
          | inr followed => exact step_plockAcq_held stepped followed fun lock rest release => by simp [top] at release
        | _ => cases isDonate
    | call outside isPublic => simp [invoke] at member
    | timer | device => cases permitted
  · cases others t other with
    | inl same => exact older (same ▸ member)
    | inr new => simp [new.2, kernelThread] at member

/-- Before its last frame, the stack of the running thread holds no donation, and the other stacks hold none. -/
theorem Walking.quiet_other {t : Tid} (other : t ≠ k.current) : ∀ frame ∈ k.stack t, frame.donates = false := by
  intro frame member
  cases donates : frame.donates with
  | false => rfl
  | true => exact absurd (h.current t frame member donates) other

omit h in
theorem Walking.of_quiet (quiet : ∀ t, ∀ frame ∈ k.stack t, frame.donates = false)
    (next : ∀ t tdonatee newPriority, .donateNext tdonatee newPriority ∈ k.stack t →
      ∀ lock, k.plockAcq tdonatee = some lock → k.holder lock ≠ none) : Walking k := by
  constructor
  case current =>
    intro t frame member donates
    simp [quiet t frame member] at donates
  case top =>
    intro frame rest shape below member
    exact quiet k.current below (by simp [shape, member])
  case held =>
    intro lock newPriority rest shape
    have donates := quiet k.current (.lockPriorityDonate lock newPriority) (by simp [shape])
    cases donates
  case next => exact next

variable (next : ∀ t tdonatee newPriority, .donateNext tdonatee newPriority ∈ k'.stack t →
  ∀ lock, k'.plockAcq tdonatee = some lock → k'.holder lock ≠ none)

include next

theorem Walking.of_top (frame : Frame) (rest : List Frame)
    (current : k'.current = k.current) (stack : k'.stack = update k.stack k.current (frame :: rest))
    (quiet : ∀ below ∈ rest, below.donates = false)
    (held : ∀ lock newPriority, frame = .lockPriorityDonate lock newPriority → k'.holder lock ≠ none) : Walking k' := by
  constructor
  case current =>
    intro t other member donates
    by_contra different
    rw [current] at different
    rw [stack, update_of_ne different] at member
    simp [h.quiet_other different other member] at donates
  case top =>
    intro top below shape
    rw [current, stack, update_self] at shape
    exact (cons.inj shape).2 ▸ quiet
  case held =>
    intro lock newPriority below shape
    rw [current, stack, update_self] at shape
    exact held lock newPriority (cons.inj shape).1
  case next => exact next

theorem Walking.lockAcquire (top : k.stack k.current = .call (.lockAcquire lock) :: rest)
    (stepped : step .run k = some k') : Walking k' := by
  have below := h.top _ rest top
  simp only [step, top, exec, execCall, Threads.lockAcquire] at stepped
  split_ifs at stepped
  split at stepped <;> cases stepped
  next free => exact h.of_top next (.lockDown lock k.intr) rest rfl (by simp [Kernel.push]) below (by simp)
  next holder held =>
    refine h.of_top next (.lockPriorityDonate lock (k.priority k.current)) (.lockDown lock k.intr :: rest) rfl ?_ ?_ ?_
    · simp [Kernel.push]
    · simpa [donates] using below
    · intro lock donated same
      cases same
      simp [Kernel.push, held]

theorem Walking.donateNext (top : k.stack k.current = .donateNext tdonatee newPriority :: rest)
    (stepped : step .run k = some k') : Walking k' := by
  have below := h.top _ rest top
  simp only [step, top, exec] at stepped
  split at stepped <;> cases stepped
  next =>
    refine .of_quiet (fun t => ?_) next
    by_cases me : t = k.current
    · simpa [me] using below
    · simpa [me] using h.quiet_other me
  next plock waits =>
    refine h.of_top next (.lockPriorityDonate plock newPriority) rest rfl ?_ below ?_
    · simp [Kernel.push]
    · intro lock donated same
      cases same
      exact h.next k.current tdonatee newPriority (by simp [top]) plock waits

omit next in
theorem Walking.step (running : k.toSched.Running) (permitted : walksHeldLocks label k)
    (stepped : step label k = some k') : Walking k' := by
  have next := h.next_step running permitted stepped
  obtain ⟨mine, others⟩ := step_stack running.created stepped
  -- Every frame but two leaves no donation behind.
  have quiet (new : ∀ frame ∈ k'.stack k.current, frame.donates = false) : Walking k' := by
    refine .of_quiet (fun t => ?_) next
    by_cases me : t = k.current
    · exact me ▸ new
    · cases others t me with
      | inl same => exact same ▸ h.quiet_other me
      | inr born => simp [born.2, kernelThread, donates]
  generalize after : k'.stack k.current = stack at mine quiet
  cases mine with
  | @run frame rest pushed top continues =>
    by_cases acquires : ∃ lock, frame = .call (.lockAcquire lock)
    · obtain ⟨lock, rfl⟩ := acquires
      exact h.lockAcquire next top stepped
    · by_cases goesOn : ∃ t p, frame = .donateNext t p
      · obtain ⟨t, p, rfl⟩ := goesOn
        exact h.donateNext next top stepped
      · apply quiet
        intro other member
        cases mem_append.mp member with
        | inl new =>
          exact continues.donates (fun lock same => acquires ⟨lock, same⟩)
            (fun t p same => goesOn ⟨t, p, same⟩) other new
        | inr old => exact h.top frame rest top other old
  | call outside isPublic => exact quiet (by simp [invoke, donates])
  | timer | device => cases permitted

end

/-! ## Every run -/

theorem Reachable.walking (reached : Reachable walksHeldLocks k) : Walking k := by
  refine (reached.invariant Walking (fun _ _ => .of_quiet ?_ (by simp [boot])) fun running h => h.step running).2
  exact boot_frames (by simp [invoke, donates]) (by simp [kernelThread, donates])

/-- Whenever `lock_priority_donate` is about to be executed, its lock has a holder. -/
theorem lockPriorityDonate_held (reached : Reachable walksHeldLocks k)
    (top : k.stack k.current = .lockPriorityDonate lock newPriority :: rest) :
    k.holder lock ≠ none :=
  reached.walking.held lock newPriority rest top

/-- A thread of priority 50 donates through a thread that waits for a lock of the initial thread. -/
theorem lockPriorityDonate_held_example : ∃ k : Kernel, k.current = 3 ∧ k.plockAcq 2 = some 1 ∧
    k.stack 3 = [.lockPriorityDonate 1 50, .lockDown 2 .on, .ret (.lockAcquire 2)] ∧ k.holder 1 ≠ none := by
  obtain ⟨k, reached, current, waits, stack⟩ := exists_reachable walksHeldLocks
    (fun k => k.current = 3 ∧ k.plockAcq 2 = some 1 ∧
      k.stack 3 = [.lockPriorityDonate 1 50, .lockDown 2 .on, .ret (.lockAcquire 2)])
    (callThen (.lockAcquire 1) 3 ++ callThen (.threadCreate 40) 14 ++ callThen (.lockAcquire 2) 3 ++
      callThen (.lockAcquire 1) 5 ++ callThen (.threadCreate 50) 20 ++ callThen (.lockAcquire 2) 3)
    (by decide +kernel)
  exact ⟨k, current, waits, stack, lockPriorityDonate_held reached (current.symm ▸ stack)⟩

/-- The initial thread, raised to 50 by a waiter of lock 2, has released lock 1, for which threads 2 and 3 wait,
and acquires lock 3 of thread 2: its donation goes on to lock 1, which has no holder. -/
theorem lockPriorityDonate_dangling : ∃ k, Reachable anyStep k ∧ k.current = initialThread ∧
    k.stack initialThread = [.lockPriorityDonate 1 50, .lockDown 3 .on, .ret (.lockAcquire 3)] ∧
      k.holder 1 = none ∧ step .run k = none := by
  obtain ⟨k, reached, shown⟩ := exists_reachable anyStep (fun k => k.current = initialThread ∧
      k.stack initialThread = [.lockPriorityDonate 1 50, .lockDown 3 .on, .ret (.lockAcquire 3)] ∧
        k.holder 1 = none ∧ (step .run k).isNone)
    (callThen (.lockAcquire 1) 3 ++ callThen (.lockAcquire 2) 3 ++
      -- Thread 2 takes lock 3 and waits for lock 1, thread 3 waits for lock 1, thread 4 for lock 2.
      callThen (.threadCreate 35) 14 ++ callThen (.lockAcquire 3) 3 ++ callThen (.lockAcquire 1) 5 ++
      callThen (.threadCreate 40) 20 ++ callThen (.lockAcquire 1) 5 ++
      callThen (.threadCreate 50) 20 ++ callThen (.lockAcquire 2) 5 ++
      callThen (.lockAcquire 4) 3 ++ callThen (.lockRelease 4) 12 ++
      callThen (.lockRelease 1) 6 ++ callThen (.lockAcquire 3) 3)
    (by decide +kernel)
  exact ⟨k, reached, by simpa using shown⟩

end Pintos.Threads
