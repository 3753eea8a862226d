import Pintos.Threads.Execution

/-! # The ready queue

The scheduler picks a ready thread of maximal priority, first come first served among equals, in every state
the kernel can reach.
-/

namespace Pintos.Threads

open Sched List

/-! ## Starting the idle thread -/

/-- What the initial thread has left of `thread_start`. -/
inductive StartTail : List Frame → Prop
  | enable : StartTail (.intrSetLevel .on :: invoke (.semaDown .idleStarted))
  | down : StartTail (invoke (.semaDown .idleStarted))
  | wait (level : IntrLevel) :
      StartTail [.semaDownLoop .idleStarted level, .ret (.semaDown .idleStarted)]

/-- The kernel before the idle thread has run. -/
structure Starting (k : Kernel) : Prop where
  value : k.value .idleStarted = 0
  noUp : ∀ t, .call (.semaUp .idleStarted) ∉ k.stack t
  start : ∃ above below, k.stack initialThread = above ++ below ∧ StartTail below

variable {below : List Frame}

theorem StartTail.ne_nil (tail : StartTail below) : below ≠ [] := by
  cases tail <;> simp [invoke]

variable {label : Label} {k k' : Kernel} {allowed : Label → Kernel → Prop}

theorem Starting.value_step (starting : Starting k) (stepped : step label k = some k') : k'.value .idleStarted = 0 := by
  have value := starting.value
  have move := step_synch stepped
  generalize k'.toSynch = after at move
  cases move with
  | call | timer => exact value
  | device s => simpa using value
  | run top synch =>
    cases synch with
    | same | threadCreate | threadSetPriority | lockAcquire | condSignal | condSorted | lockTaken => exact value
    | semaTryDown s positive =>
      have different : SemaId.idleStarted ≠ s := by
        rintro rfl
        simp [value] at positive
      simpa [different] using value
    | semaUp s =>
      have different : SemaId.idleStarted ≠ s := by
        rintro rfl
        exact starting.noUp k.current (by simp [top])
      simpa [different] using value
    | lockTryAcquire | lockRelease | condWait => simpa using value
    | semaDownLoop s level positive =>
      have different : SemaId.idleStarted ≠ s := fun same => positive (same ▸ value)
      simpa [different] using value
    | lockDown lock level positive => simpa [lockOwn, semaTake] using value

/-- Only `idle` announces that it has started, after it has set `idle_thread`. -/
theorem Starting.noUp_step (h : k.toSched.Running) (starting : Starting k) (unknown : k'.idleThread = none)
    (stepped : step label k = some k') (t : Tid) : .call (.semaUp .idleStarted) ∉ k'.stack t := by
  have never := step_frames (fun _ frame => frame ≠ .call (.semaUp .idleStarted)) h.created stepped
    (fun t frame member same => starting.noUp t (same ▸ member)) (by simp) ?_ ?_
  · exact fun up => never t _ up rfl
  · intro c isPublic
    refine ⟨?_, by simp⟩
    rintro ⟨⟩
    cases isPublic
  · intro frame rest change frames ending isRun top effect
    subst isRun
    cases effect with
    | idleStart =>
      simp only [step, top, exec, Option.some.injEq] at stepped
      simp [← stepped, Kernel.push] at unknown
    | _ => simp [invoke]

theorem Starting.start_step (h : k.toSched.Running) (starting : Starting k) (stepped : step label k = some k') :
    ∃ above below, k'.stack initialThread = above ++ below ∧ StartTail below := by
  obtain ⟨mine, others⟩ := step_stack h.created stepped
  obtain ⟨above, below, split, tail⟩ := starting.start
  by_cases isCurrent : initialThread = k.current
  · rw [isCurrent] at split ⊢
    generalize newStack : k'.stack k.current = new at mine
    cases mine with
    | @run frame rest pushed top continues =>
      rw [top] at split
      cases above with
      | cons first above =>
        obtain ⟨rfl, rfl⟩ := cons.inj split
        exact ⟨pushed ++ above, below, by simp, tail⟩
      | nil =>
        -- The next frame is the remainder of `thread_start` itself.
        simp only [nil_append] at split
        cases tail with obtain ⟨rfl, rfl⟩ := cons.inj split
        | enable =>
          cases continues
          exact ⟨[], _, rfl, .down⟩
        | down =>
          simp only [step, top, exec, execCall] at stepped
          split_ifs at stepped
          rw [← newStack, ← Option.some.inj stepped]
          exact ⟨[], _, by simp [Kernel.push], .wait k.intr⟩
        | wait level =>
          simp only [step, top, exec, starting.value, if_true] at stepped
          rw [← newStack, (switches_threadBlock stepped).stack]
          exact ⟨[], _, by simp [Kernel.push], .wait level⟩
    | call outside isPublic =>
      rw [outside] at split
      exact absurd (append_eq_nil_iff.mp split.symm).2 tail.ne_nil
    | timer enabled => exact ⟨[.intrExit, .iret] ++ above, below, by simp [split], tail⟩
    | device s enabled =>
      exact ⟨[.recalculatePriority, .intrSetLevel .off, .intrExit, .iret] ++ above, below, by simp [split], tail⟩
  · rcases others initialThread isCurrent with same | ⟨isNew, -⟩
    · exact ⟨above, below, same.trans split, tail⟩
    · have empty := (h.fresh initialThread (Nat.le_of_eq isNew.symm)).2
      rw [split] at empty
      exact absurd (append_eq_nil_iff.mp empty).2 tail.ne_nil

/-! ## Every reachable state -/

theorem Reachable.invariant (reached : Reachable allowed k) (holds : Kernel → Prop)
    (initially : ∀ semaInit tailWord, holds (boot semaInit tailWord))
    (kept : ∀ {label k k'}, k.toSched.Running → holds k → allowed label k → step label k = some k' → holds k') :
    k.toSched.Running ∧ holds k := by
  obtain ⟨semaInit, tailWord, reaches⟩ := reached
  exact reaches.invariant (fun state => state.toSched.Running ∧ holds state)
    ⟨running_boot semaInit tailWord, initially semaInit tailWord⟩
    fun before permitted stepped => ⟨before.1.step stepped, kept before.1 before.2 permitted stepped⟩

theorem Reachable.running (reached : Reachable allowed k) : k.toSched.Running :=
  (reached.invariant (fun _ => True) (fun _ _ => trivial) fun _ _ _ _ => trivial).1

/-- The idle thread is known once the initial thread has returned from `thread_start`. -/
theorem Reachable.starting (reached : Reachable allowed k) : k.idleThread = none → Starting k := by
  refine (reached.invariant (fun state => state.idleThread = none → Starting state) ?_ ?_).2
  · refine fun semaInit tailWord _ => ⟨rfl, fun t up => ?_, [], _, rfl, .enable⟩
    exact @boot_frames _ _ (fun _ frame => frame ≠ .call (.semaUp .idleStarted)) (by simp [invoke])
      (by simp [kernelThread]) t _ up rfl
  · intro label state next running starting _ stepped unknown
    have before : state.idleThread = none := by
      cases known : state.idleThread with
      | none => rfl
      | some idle => simpa [unknown] using (step_monotone stepped).1 (by simp [known])
    have starts := starting before
    exact ⟨starts.value_step stepped, starts.noUp_step running unknown stepped, starts.start_step running stepped⟩

/-- The ready list holds each ready thread but the idle one exactly once, by nonincreasing priority and by
time of insertion among equal priorities that were not written since.  Hence `schedule` picks a thread of
maximal priority that came first among its equals, in this state and at every context switch from it. -/
theorem readyList_invariant (reached : Reachable anyStep k)
    (returned : .ret (.semaDown .idleStarted) ∉ k.stack initialThread) :
    k.readyList.Nodup ∧ (∀ t, t ∈ k.readyList ↔ k.status t = .ready ∧ t ≠ idleTid) ∧
      k.readyList.Pairwise (fun a b => k.priority b ≤ k.priority a) ∧ k.readyList.Pairwise k.toSched.InOrder ∧
      (∀ k', schedule k = some k' → k'.toSched.Fair) ∧
      ∀ label k', step label k = some k' → k'.current ≠ k.current → k'.toSched.Fair := by
  have running := reached.running
  have idle : k.idleThread = some idleTid := by
    cases known : k.idleThread with
    | none =>
      obtain ⟨above, below, split, tail⟩ := (reached.starting known).start
      exact absurd (split ▸ mem_append_right above (by cases tail <;> simp [invoke])) returned
    | some idle => rw [(running.idleLoops idle known).1]
  refine ⟨running.readyNodup, fun t => ?_, running.ordered.imp ?_, running.inOrder, fun k' scheduled => ?_,
    fun label k' stepped switched => ?_⟩
  · rw [running.mem_ready t, idle]
    simp [eq_comm]
  · intro a b notHigher
    simpa [higherPriority] using notHigher
  · exact schedule_fair scheduled running.ordered running.inOrder
  · exact (running.step_fair stepped).2.resolve_left switched

/-- Three threads below the initial one, the first with a lower priority than the others. -/
theorem readyList_invariant_example : ∃ k : Kernel, k.readyList = [3, 4, 2] ∧ k.priority 3 = k.priority 4 ∧
    k.readyList.Pairwise (fun a b => k.priority b ≤ k.priority a) ∧ k.readyList.Pairwise k.toSched.InOrder := by
  obtain ⟨k, reached, listed, equal, returned⟩ := exists_reachable anyStep
    (fun k => k.readyList = [3, 4, 2] ∧ k.priority 3 = k.priority 4 ∧
      .ret (.semaDown .idleStarted) ∉ k.stack initialThread)
    (callThen (.threadCreate 20) 14 ++ callThen (.threadCreate 25) 14 ++ callThen (.threadCreate 25) 14)
    (by decide +kernel)
  obtain ⟨-, -, byPriority, inOrder, -⟩ := readyList_invariant reached returned
  exact ⟨k, listed, equal, byPriority, inOrder⟩

end Pintos.Threads
