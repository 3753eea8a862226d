import Pintos.Threads.ReadyQueue

/-! # The interrupt level across calls

Which interrupt level a function returns with.  Each frame has an effect on the level; a step replaces a frame by frames
with the same effect, so that the level at which a thread comes back to a point of its stack is known before.
-/

namespace Pintos.Threads

open Pintos.Kernel Library Function Kernel

/-- The level after a frame is executed and what it pushes is done, from the level before. -/
def Frame.after : Frame → IntrLevel → IntrLevel
  | .call (.intrSetLevel level), _ | .intrSetLevel level, _ => level
  | .semaDownLoop _ oldLevel, _ | .lockDown _ oldLevel, _ => oldLevel
  | .slept, _ | .iret, _ | .idleStart, _ | .idleLoop, _ | .idleHalt, _ => .on
  -- The thread does not come back.
  | .call .threadExit, _ => .off
  | _, level => level

def levelAfter (frames : List Frame) (level : IntrLevel) : IntrLevel :=
  frames.foldl (fun level frame => frame.after level) level

/-- The level at which a thread goes on: a thread that is not running comes back from `schedule`, with interrupts
    off. -/
def Kernel.levelOf (k : Kernel) (t : Tid) : IntrLevel :=
  if k.current = t then k.intr else .off

theorem levelOf_current (k : Kernel) : k.levelOf k.current = k.intr :=
  if_pos rfl

variable {k : Kernel}

/-- `specific_thread_set_priority` is called with interrupts off, or with a thread in the ready list. -/
def restoresLevel (frame : Frame) (k : Kernel) : Prop :=
  match frame with
  | .specificThreadSetPriority _ | .lockPriorityDonate _ _ => k.readyList ≠ [] ∨ k.intr = .off
  | _ => True

instance (frame : Frame) (k : Kernel) : Decidable (restoresLevel frame k) := by
  unfold restoresLevel
  split <;> infer_instance

/-- The running thread has got frames to execute after which it is at the given level. -/
structure Resumes (level : IntrLevel) (k k' : Kernel) : Prop where
  mine : ∃ pushed, k'.stack k.current = pushed ++ k.stack k.current ∧ levelAfter pushed (k'.levelOf k.current) = level
  switches : k'.current = k.current ∨ k'.intr = .off

/-! ## The functions of the scheduler -/

variable {level : IntrLevel} {k' : Kernel}

/-- The running thread goes on. -/
theorem resumes_stays (pushed : List Frame) (current : k'.current = k.current)
    (stack : k'.stack k.current = pushed ++ k.stack k.current) (after : levelAfter pushed k'.intr = level) :
    Resumes level k k' := by
  refine ⟨⟨pushed, stack, ?_⟩, .inl current⟩
  rwa [← current, levelOf_current]

/-- The processor is given up with interrupts off. -/
theorem resumes_off (pushed : List Frame) (off : k'.intr = .off)
    (stack : k'.stack k.current = pushed ++ k.stack k.current) (after : levelAfter pushed .off = level) :
    Resumes level k k' := by
  refine ⟨⟨pushed, stack, ?_⟩, .inr off⟩
  rwa [levelOf, off, ite_self]

theorem schedule_intr (scheduled : schedule k = some k') : k'.intr = k.intr ∧ k'.stack = k.stack := by
  obtain ⟨_, _, _, rfl⟩ := schedule_eq scheduled
  exact ⟨rfl, rfl⟩

theorem threadBlock_intr (blocked : threadBlock k = some k') : k'.intr = .off ∧ k'.stack = k.stack := by
  unfold threadBlock at blocked
  split_ifs at blocked with outside
  obtain ⟨intr, stack⟩ := schedule_intr blocked
  exact ⟨intr.trans outside.2, stack⟩

theorem threadYield_intr (yielded : threadYield k = some k') :
    k'.intr = .off ∧ k'.stack k.current = .intrSetLevel k.intr :: k.stack k.current := by
  have stack := (switches_threadYield yielded).stack
  refine ⟨?_, by rw [stack, update_self]; rfl⟩
  unfold threadYield at yielded
  split_ifs at yielded
  rw [(schedule_intr yielded).1]
  split <;> rfl

variable {t : Tid}

theorem semaUp_intr {s : SemaId} (upped : semaUp s k = some k') : k'.intr = .off ∧ k'.current = k.current ∧
      k'.stack k.current = [.recalculatePriority, .intrSetLevel k.intr] ++ k.stack k.current := by
  obtain ⟨_, _, _, _, _, _, rfl⟩ := semaUp_spec upped
  exact ⟨rfl, rfl, update_self ..⟩

/-- `specific_thread_set_priority`, with frames that are to be executed after it. -/
theorem specificThreadSetPriority_intr {newPriority : Int} (restores : k.readyList ≠ [] ∨ k.intr = .off)
    (set : specificThreadSetPriority newPriority t k = some k') :
    (k'.current = k.current ∧ k'.intr = k.intr ∧ k'.stack = k.stack) ∨
      (k'.intr = .off ∧ k'.stack k.current = [.intrSetLevel .off, .intrSetLevel k.intr] ++ k.stack k.current) := by
  simp only [specificThreadSetPriority] at set
  split at set
  next empty =>
    cases set
    refine .inl ⟨rfl, ?_, rfl⟩
    cases restores with
    | inl nonempty =>
      have perm := perm_listSort (Sched.higherPriority_order (update k.priority t newPriority)) k.readyList
      rw [empty] at perm
      exact absurd perm.nil_eq.symm nonempty
    | inr off => exact off.symm
  next =>
    split at set
    next =>
      obtain ⟨off, stack⟩ := threadYield_intr set
      exact .inr ⟨off, stack.trans (by simp [push])⟩
    next =>
      cases set
      exact .inl ⟨rfl, rfl, rfl⟩

/-! ## Frames -/

theorem push_stack (k : Kernel) (frames : List Frame) : (k.push frames).stack k.current = frames ++ k.stack k.current :=
  update_self ..

theorem levelAfter_append (frames rest : List Frame) (level : IntrLevel) :
    levelAfter (frames ++ rest) level = levelAfter rest (levelAfter frames level) :=
  List.foldl_append

/-- The level at which the thread goes on once the ending of a frame, with what it pushes, is done. -/
def Ending.after : Ending → IntrLevel → IntrLevel
  | .block, _ | .exit, _ => .off
  | _, level => level

theorem Ending.resumes {ending : Ending} (run : ending.run k = some k')
    (restores : ∀ newPriority t, ending = .setPriority newPriority t → k.readyList ≠ [] ∨ k.intr = .off) :
    Resumes (ending.after k.intr) k k' := by
  cases ending with
  | stay =>
    cases run
    exact resumes_stays [] rfl rfl rfl
  | block =>
    obtain ⟨off, stack⟩ := threadBlock_intr run
    exact resumes_off [] off (congrFun stack _) rfl
  | exit =>
    obtain ⟨off, stack⟩ := schedule_intr run
    exact resumes_off [] off (congrFun stack _) rfl
  | yield =>
    obtain ⟨off, stack⟩ := threadYield_intr run
    exact resumes_off [_] off stack rfl
  | unblock t =>
    obtain ⟨_, rfl⟩ := threadUnblock_eq run
    exact resumes_stays [] rfl rfl rfl
  | setPriority newPriority t =>
    cases specificThreadSetPriority_intr (restores newPriority t rfl) run with
    | inl same => exact resumes_stays [] same.1 (congrFun same.2.2 _) same.2.1
    | inr yields => exact resumes_off _ yields.1 yields.2 rfl
  | up s =>
    obtain ⟨-, current, stack⟩ := semaUp_intr run
    exact resumes_stays _ current stack rfl

variable {frame : Frame} {label : Label}

theorem exec_resumes (created : k.current ≠ k.nextThread) (restores : restoresLevel frame k)
    (executed : exec frame k = some k') : Resumes (frame.after k.intr) k k' := by
  obtain ⟨change, frames, ending, effect, run⟩ := exec_effect executed
  have restored : ∀ newPriority t, ending = .setPriority newPriority t → change.readyList ≠ [] ∨
      change.intr = .off := by
    cases effect with
    | specificThreadSetPriority | lockPriorityDonate => exact fun _ _ _ => restores
    | _ => nofun
  obtain ⟨⟨pushed, stack, level⟩, switches⟩ := Ending.resumes run restored
  have current : change.current = k.current := by cases effect <;> rfl
  have mine : change.stack k.current = k.stack k.current := by
    cases effect with
    | threadCreate priority => exact update_of_ne created _ _
    | _ => rfl
  have after : levelAfter frames (ending.after change.intr) = frame.after k.intr := by
    cases effect with
    | sleep _ _ enabled => exact enabled.symm
    | _ => rfl
  have own : (change.push frames).stack k.current = frames ++ k.stack k.current := by
    rw [← current, push_stack, current, mine]
  rw [show (change.push frames).current = k.current from current] at stack level switches
  refine ⟨⟨pushed ++ frames, ?_, ?_⟩, switches⟩
  · rw [stack, own, List.append_assoc]
  · rw [levelAfter_append, level]
    exact after

/-! ## Runs -/

/-- No step calls `specific_thread_set_priority` with interrupts on and the ready list empty. -/
def keepsLevel (label : Label) (k : Kernel) : Prop :=
  match label, k.stack k.current with
  | .run, frame :: _ => restoresLevel frame k
  | _, _ => True

instance (label : Label) (k : Kernel) : Decidable (keepsLevel label k) := by
  unfold keepsLevel
  generalize k.stack k.current = stack
  revert stack
  exact id fun (stack : Stack) => by split <;> infer_instance

/-- A thread has still to execute some frames before it comes back to the given part of its stack, at the given
    level. -/
structure Returning (t : Tid) (rest : List Frame) (level : IntrLevel) (k : Kernel) : Prop where
  running : k.toSched.Running
  pending : ∃ frames, k.stack t = frames ++ rest ∧ levelAfter frames (k.levelOf t) = level

/-- Executing a frame brings no other thread to a level at which it did not go on. -/
theorem levelOf_other (other : t ≠ k.current) (switches : k'.current = k.current ∨ k'.intr = .off) :
    k'.levelOf t = k.levelOf t := by
  rw [levelOf, levelOf, if_neg (Ne.symm other)]
  split
  next isCurrent =>
    cases switches with
    | inl stays => exact absurd (isCurrent.symm.trans stays) other
    | inr off => exact off
  next => rfl

/-- The running thread after a step: the frame on top of its stack is replaced, or an interrupt handler comes before
    it. -/
theorem step_level (created : k.current ≠ k.nextThread) (keeps : keepsLevel label k)
    (stepped : step label k = some k') :
    (k'.current = k.current ∨ k'.intr = .off) ∧ ∀ frame rest, k.stack k.current = frame :: rest →
      ∃ frames, k'.stack k.current = frames ++ rest ∧
        levelAfter frames (k'.levelOf k.current) = frame.after k.intr := by
  cases step_cases stepped with
  | @run frame rest top executed =>
    simp only [keepsLevel, top] at keeps
    have restores : restoresLevel frame { k with stack := update k.stack k.current rest } := by
      cases frame <;> exact keeps
    obtain ⟨⟨pushed, stack, level⟩, switches⟩ := exec_resumes (by exact created) restores executed
    refine ⟨switches, fun frame' rest' same => ?_⟩
    cases top.symm.trans same
    exact ⟨pushed, stack.trans (by simp), level⟩
  | call outside isPublic pushed =>
    refine ⟨.inl (pushed ▸ rfl), fun frame rest top => ?_⟩
    cases outside.symm.trans top
  | timer enabled handled =>
    refine ⟨.inl ((wakeSleepers_current handled).trans rfl), fun frame rest top => ⟨[.intrExit, .iret, frame], ?_, ?_⟩⟩
    · rw [(grows_wakeSleepers handled).1]
      exact (push_stack k _).trans (by rw [top]; rfl)
    · rw [enabled]
      rfl
  | device enabled handled =>
    obtain ⟨_, current, stack⟩ := semaUp_intr handled
    refine ⟨.inl current, fun frame rest top =>
      ⟨[.recalculatePriority, .intrSetLevel .off, .intrExit, .iret, frame], ?_, ?_⟩⟩
    · refine stack.trans ?_
      simp [push, top]
    · rw [enabled]
      rfl

theorem Returning.step {rest : List Frame} (h : Returning t rest level k) (keeps : keepsLevel label k)
    (notYet : k.stack t ≠ rest) (stepped : step label k = some k') : Returning t rest level k' := by
  obtain ⟨running, frames, stack, isLevel⟩ := h
  refine ⟨running.step stepped, ?_⟩
  obtain ⟨switches, mine⟩ := step_level running.created keeps stepped
  rcases frames with _ | ⟨frame, frames⟩
  · exact absurd stack notYet
  by_cases isCurrent : t = k.current
  · subst isCurrent
    obtain ⟨pushed, stack', level'⟩ := mine frame (frames ++ rest) stack
    refine ⟨pushed ++ frames, by rw [stack', List.append_assoc], ?_⟩
    rw [levelAfter_append, level', ← isLevel, levelOf_current]
    rfl
  · have old : t ≠ k.nextThread := by
      rintro rfl
      have empty := (running.fresh k.nextThread (Nat.le_refl _)).2
      cases stack.symm.trans empty
    refine ⟨frame :: frames, ?_, by rw [levelOf_other isCurrent switches]; exact isLevel⟩
    cases (step_stack running.created stepped).2 t isCurrent with
    | inl same => exact same.trans stack
    | inr new => exact absurd new.1 old

/-- The functions that are to restore the interrupt level. -/
def Frame.isRestoring : Frame → Bool
  | .call (.threadCreate _) | .call (.threadSetPriority _) | .recalculatePriority | .specificThreadSetPriority _
  | .call (.semaUp _) | .call (.semaDown _) | .call (.lockAcquire _) | .call (.lockRelease _)
  | .call (.condSignal _ _) | .call (.timerSleep _) => true
  | _ => false

theorem after_of_isRestoring (restoring : frame.isRestoring) (level : IntrLevel) : frame.after level = level := by
  cases frame with
  | call c => cases c <;> first | rfl | cases restoring
  | _ => first | rfl | cases restoring

/-- A function returns with the interrupt level that its caller had. -/
theorem level_restored {rest : List Frame} (reached : Reachable anyStep k)
    (entry : k.stack k.current = frame :: rest) (restoring : frame.isRestoring)
    (executes : Reaches step (fun label between => keepsLevel label between ∧ between.stack k.current ≠ rest) k k')
    (current : k'.current = k.current) (returned : k'.stack k.current = rest) : k'.intr = k.intr := by
  have initially : Returning k.current rest k.intr k := by
    refine ⟨reached.running, [frame], entry, ?_⟩
    rw [levelOf_current]
    exact after_of_isRestoring restoring k.intr
  obtain ⟨_, frames, stack, level⟩ := executes.invariant (Returning k.current rest k.intr) initially
    fun returning allowed stepped => returning.step allowed.1 allowed.2 stepped
  have done : frames = [] := by simpa using stack.symm.trans returned
  subst done
  rw [← current, levelOf_current] at level
  exact level

/-- A replayed call of the initial thread up to its return. -/
theorem exists_returned (c : Call) (allowed : Label → Kernel → Prop) [∀ label k, Decidable (allowed label k)]
    (property : Kernel → Kernel → Prop) [∀ k k', Decidable (property k k')] (before during : List Label)
    (found : (execute step anyStep (startUp ++ before ++ [.call c]) (boot (fun _ => 0) fun _ => ⟨-1, by decide⟩)).any
      (fun k => decide (k.current = initialThread ∧ k.stack initialThread = invoke c ∧
        (execute step (fun label between => allowed label between ∧
          between.stack initialThread ≠ [.ret c]) during k).any
          (fun k' => decide (k'.current = initialThread ∧ k'.stack initialThread = [.ret c] ∧ property k k')) =
            true)) = true) :
    ∃ k k', Reachable anyStep k ∧ k.stack k.current = invoke c ∧
      Reaches step (fun label between => allowed label between ∧ between.stack k.current ≠ [.ret c]) k k' ∧
      k'.current = k.current ∧ k'.stack k.current = [.ret c] ∧ property k k' := by
  obtain ⟨k, reached, current, stack, found⟩ := exists_reached step anyStep _ _ _ found
  obtain ⟨k', executes, current', stack', holds⟩ := exists_reached step _ k
    (fun k' => k'.current = initialThread ∧ k'.stack initialThread = [.ret c] ∧ property k k') during found
  rw [← current] at stack executes stack' current'
  exact ⟨k, k', ⟨_, _, reached⟩, stack, executes, current', stack', holds⟩

/-- `thread_set_priority` with a thread in the ready list. -/
theorem level_restored_example : ∃ k k', Reachable anyStep k ∧ k.stack k.current = invoke (.threadSetPriority 25) ∧
    k.intr = .on ∧ Reaches step (fun label between => keepsLevel label between ∧
      between.stack k.current ≠ [.ret (.threadSetPriority 25)]) k k' ∧ k'.current = k.current ∧
    k'.stack k.current = [.ret (.threadSetPriority 25)] ∧ k'.intr = .on := by
  obtain ⟨k, k', reached, entry, executes, current, returned, enabled⟩ :=
    exists_returned (.threadSetPriority 25) keepsLevel
    (fun k _ => k.intr = .on) (callThen (.threadCreate 20) 14) (List.replicate 4 .run) (by decide +kernel)
  exact ⟨k, k', reached, entry, enabled, executes, current, returned,
    (level_restored reached entry rfl executes current returned).trans enabled⟩

/-- `thread_set_priority` with an empty ready list returns with interrupts off. -/
theorem level_not_restored : ∃ k k', Reachable anyStep k ∧ k.stack k.current = invoke (.threadSetPriority 25) ∧
    Reaches step (fun label between => anyStep label between ∧
      between.stack k.current ≠ [.ret (.threadSetPriority 25)]) k k' ∧ k'.current = k.current ∧
    k'.stack k.current = [.ret (.threadSetPriority 25)] ∧ k.intr = .on ∧ k'.intr = .off :=
  exists_returned (.threadSetPriority 25) anyStep (fun k k' => k.intr = .on ∧ k'.intr = .off) [] (List.replicate 4 .run)
    (by decide +kernel)

end Pintos.Threads
