import Pintos.Threads.Machine

/-! # What one step changes

`Continues frame pushed` lists what a frame can leave on the stack of the thread that executed it, and
`step_stack` says that a step changes the stacks in no other way.  The functions of the scheduler leave the
state of locks and semaphores alone.
-/

namespace Pintos.Threads

open Pintos.Kernel Function Option Kernel Nat

/-! ## The functions of the scheduler -/

variable {t : Tid} {k k' : Kernel}

theorem threadUnblock_eq (unblocked : threadUnblock t k = some k') :
    k.status t = .blocked ∧ k' = { insertReady t k with status := update k.status t .ready } := by
  unfold threadUnblock at unblocked
  split_ifs at unblocked with blocked
  exact ⟨blocked, (some.inj unblocked).symm⟩

theorem schedule_eq (scheduled : schedule k = some k') :
    ∃ next rest, (k.readyList = next :: rest ∨ k.readyList = [] ∧ rest = [] ∧ k.idleThread = some next) ∧ k' = { k with
        readyList := rest
        current := next
        status := update k.status next .running
        threadTicks := 0 } := by
  unfold schedule nextThreadToRun at scheduled
  cases ready : k.readyList with
  | nil =>
    cases isIdle : k.idleThread with
    | none => simp [ready, isIdle] at scheduled
    | some idle =>
      simp only [ready, isIdle, map_some, some.injEq] at scheduled
      exact ⟨idle, [], .inr ⟨rfl, rfl, rfl⟩, scheduled.symm⟩
  | cons next rest =>
    simp only [ready, some.injEq] at scheduled
    exact ⟨next, rest, .inl rfl, scheduled.symm⟩

theorem threadBlock_eq (blocked : threadBlock k = some k') :
    schedule { k with status := update k.status k.current .blocked } = some k' := by
  unfold threadBlock at blocked
  split_ifs at blocked
  exact blocked

/-- The running thread has pushed some frames, and the scheduler has done its work. -/
structure Switches (pushed : List Frame) (k k' : Kernel) : Prop where
  synch : k'.toSynch = k.toSynch
  stack : k'.stack = update k.stack k.current (pushed ++ k.stack k.current)
  waiters : k'.waiters = k.waiters
  idleThread : k'.idleThread = k.idleThread
  nextThread : k'.nextThread = k.nextThread
  inExternalIntr : k'.inExternalIntr = k.inExternalIntr

theorem switches_schedule (scheduled : schedule k = some k') : Switches [] k k' := by
  obtain ⟨next, rest, -, rfl⟩ := schedule_eq scheduled
  exact ⟨rfl, by simp, rfl, rfl, rfl, rfl⟩

theorem switches_threadUnblock (unblocked : threadUnblock t k = some k') : Switches [] k k' := by
  obtain ⟨-, rfl⟩ := threadUnblock_eq unblocked
  exact ⟨rfl, by simp [insertReady], rfl, rfl, rfl, rfl⟩

theorem switches_threadBlock (blocked : threadBlock k = some k') : Switches [] k k' :=
  { switches_schedule (threadBlock_eq blocked) with }

theorem switches_threadYield (yielded : threadYield k = some k') : Switches [.intrSetLevel k.intr] k k' := by
  unfold threadYield at yielded
  split_ifs at yielded
  simp only at yielded
  obtain ⟨synch, stack, waiters, idleThread, nextThread, inExternalIntr⟩ := switches_schedule yielded
  refine ⟨synch.trans ?_, stack.trans ?_, waiters.trans ?_, idleThread.trans ?_, nextThread.trans ?_,
    inExternalIntr.trans ?_⟩ <;>
    split <;> simp [insertReady, push]

theorem switches_specificThreadSetPriority {newPriority : Int}
    (set : specificThreadSetPriority newPriority t k = some k') :
    Switches [] k k' ∨ Switches [.intrSetLevel .off, .intrSetLevel k.intr] k k' := by
  simp only [specificThreadSetPriority] at set
  split at set
  next => exact .inl (some.inj set ▸ ⟨rfl, by simp, rfl, rfl, rfl, rfl⟩)
  next =>
    split at set
    next =>
      have yields := switches_threadYield set
      exact .inr { yields with stack := by simpa [push] using yields.stack }
    next => exact .inl (some.inj set ▸ ⟨rfl, by simp, rfl, rfl, rfl, rfl⟩)

/-! ## What a frame does -/

/-- The function in which the execution of a frame ends. -/
inductive Ending
  | stay
  | block
  | exit
  | yield
  | unblock (t : Tid)
  | setPriority (newPriority : Int) (t : Tid)
  | up (s : SemaId)

def Ending.run (k : Kernel) : Ending → Option Kernel
  | .stay => some k
  | .block => threadBlock k
  | .exit => schedule { k with intr := .off, status := update k.status k.current .dying }
  | .yield => threadYield k
  | .unblock t => threadUnblock t k
  | .setPriority newPriority t => specificThreadSetPriority newPriority t k
  | .up s => semaUp s k

/-- How a frame is executed: the state changes, the running thread gets frames to execute next, and the frame ends. -/
inductive Effect (k : Kernel) : Frame → Kernel → List Frame → Ending → Prop
  | threadCreate (priority : Int) (inRange : priMin ≤ priority ∧ priority ≤ priMax) :
      Effect k (.call (.threadCreate priority))
        { initThread k.nextThread priority k with nextThread := k.nextThread + 1 }
        (invoke (.lockAcquire tidLock) ++ invoke (.lockRelease tidLock) ++ [.createTail k.nextThread]) .stay
  | threadExit (outside : k.inExternalIntr = false) : Effect k (.call .threadExit) k [] .exit
  | threadBlock : Effect k (.call .threadBlock) { k with intr := .off } [.parked, .intrSetLevel k.intr] .block
  | threadUnblock (t : Tid) (rest : List Frame) (parked : k.stack t = .parked :: rest) :
      Effect k (.call (.threadUnblock t)) k [] (.unblock t)
  | threadYield : Effect k (.call .threadYield) k [] .yield
  | threadSetPriority (newPriority : Int) : Effect k (.call (.threadSetPriority newPriority))
      { k with originPriority := update k.originPriority k.current newPriority }
      [.specificThreadSetPriority newPriority, .recalculatePriority] .stay
  | semaDown (s : SemaId) (outside : k.inExternalIntr = false) :
      Effect k (.call (.semaDown s)) { k with intr := .off } [.semaDownLoop s k.intr] .stay
  | semaTryDown (s : SemaId) (positive : 0 < k.value s) : Effect k (.call (.semaTryDown s)) (semaTake s k) [] .stay
  | semaTryDownFails (s : SemaId) (zero : k.value s = 0) : Effect k (.call (.semaTryDown s)) k [] .stay
  | semaUp (s : SemaId) : Effect k (.call (.semaUp s)) k [] (.up s)
  | lockAcquire (lock : LockId) (free : k.holder lock = none) :
      Effect k (.call (.lockAcquire lock)) { k with intr := .off } [.lockDown lock k.intr] .stay
  | lockDonate (lock : LockId) (holder : Tid) (held : k.holder lock = some holder) (other : holder ≠ k.current) :
      Effect k (.call (.lockAcquire lock)) { k with intr := .off, plockAcq := update k.plockAcq k.current (some lock) }
        [.lockPriorityDonate lock (k.priority k.current), .lockDown lock k.intr] .stay
  | lockTryAcquire (lock : LockId) (positive : 0 < k.value (.lock lock)) :
      Effect k (.call (.lockTryAcquire lock)) (semaTake (.lock lock) k) [.lockTaken lock] .stay
  | lockTryAcquireFails (lock : LockId) (zero : k.value (.lock lock) = 0) :
      Effect k (.call (.lockTryAcquire lock)) k [] .stay
  | lockRelease (lock : LockId) (held : k.holder lock = some k.current) (owned : lock ∈ k.lockOwnList k.current) :
      Effect k (.call (.lockRelease lock)) { k with
        intr := .off
        holder := update k.holder lock none
        lockOwnList := update k.lockOwnList k.current ((k.lockOwnList k.current).erase lock)
        sections := k.sections.erase (k.current, lock) } [.intrSetLevel k.intr] (.up (.lock lock))
  | condWait (cond : CondId) (lock : LockId) (held : k.holder lock = some k.current) :
      Effect k (.call (.condWait cond lock)) { k with
        value := update k.value (.waiter k.current) 0
        waiters := update k.waiters (.waiter k.current) []
        conds := update k.conds cond (k.conds cond ++ [k.current]) }
        (invoke (.lockRelease lock) ++ invoke (.semaDown (.waiter k.current)) ++ invoke (.lockAcquire lock)) .stay
  | condSignal (cond : CondId) (lock : LockId) (held : k.holder lock = some k.current) (waits : k.conds cond ≠ []) :
      Effect k (.call (.condSignal cond lock))
        { k with conds := update k.conds cond (listSort (higherPriorityInsema k) (k.conds cond)) }
        [.condSorted cond] .stay
  | condSignalNone (cond : CondId) (lock : LockId) (empty : k.conds cond = []) :
      Effect k (.call (.condSignal cond lock)) k [] .stay
  | condBroadcast (cond : CondId) (lock : LockId) (waits : k.conds cond ≠ []) :
      Effect k (.call (.condBroadcast cond lock)) k
        (invoke (.condSignal cond lock) ++ [.call (.condBroadcast cond lock)]) .stay
  | condBroadcastEnd (cond : CondId) (lock : LockId) (empty : k.conds cond = []) :
      Effect k (.call (.condBroadcast cond lock)) k [] .stay
  | timerSleep (ticks : Int) : Effect k (.call (.timerSleep ticks)) k [.sleep k.ticks ticks] .stay
  | callSetLevel (level : IntrLevel) : Effect k (.call (.intrSetLevel level)) k [.intrSetLevel level] .stay
  | ret (c : Call) : Effect k (.ret c) k [] .stay
  | intrSetLevel (level : IntrLevel) : Effect k (.intrSetLevel level) { k with intr := level } [] .stay
  | specificThreadSetPriority (newPriority : Int) :
      Effect k (.specificThreadSetPriority newPriority) k [] (.setPriority newPriority k.current)
  | recalculatePriority :
      Effect k .recalculatePriority k [.specificThreadSetPriority (recalculatedPriority k)] .stay
  | lockPriorityDonate (lock : LockId) (newPriority : Int) (tdonatee : Tid) (held : k.holder lock = some tdonatee)
      (lower : k.priority tdonatee < newPriority) : Effect k (.lockPriorityDonate lock newPriority) k
        [.donateNext tdonatee newPriority] (.setPriority newPriority tdonatee)
  | donateEnd (lock : LockId) (newPriority : Int) : Effect k (.lockPriorityDonate lock newPriority) k [] .stay
  | donateNext (tdonatee : Tid) (newPriority : Int) (plock : LockId) (waits : k.plockAcq tdonatee = some plock) :
      Effect k (.donateNext tdonatee newPriority) k [.lockPriorityDonate plock newPriority] .stay
  | donateLast (tdonatee : Tid) (newPriority : Int) : Effect k (.donateNext tdonatee newPriority) k [] .stay
  | semaWait (s : SemaId) (oldLevel : IntrLevel) (zero : k.value s = 0) : Effect k (.semaDownLoop s oldLevel)
      { k with waiters := update k.waiters s (k.waiters s ++ [k.current]) } [.semaDownLoop s oldLevel] .block
  | semaTake (s : SemaId) (oldLevel : IntrLevel) (positive : k.value s ≠ 0) :
      Effect k (.semaDownLoop s oldLevel) { semaTake s k with intr := oldLevel } [] .stay
  | lockWait (lock : LockId) (oldLevel : IntrLevel) (zero : k.value (.lock lock) = 0) :
      Effect k (.lockDown lock oldLevel)
      { k with waiters := update k.waiters (.lock lock) (k.waiters (.lock lock) ++ [k.current]) }
      [.lockDown lock oldLevel] .block
  | lockTake (lock : LockId) (oldLevel : IntrLevel) (positive : k.value (.lock lock) ≠ 0) :
      Effect k (.lockDown lock oldLevel) { lockOwn lock (semaTake (.lock lock) k) with intr := oldLevel } [] .stay
  | condSorted (cond : CondId) (first : Tid) (rest : List Tid) (waiters : k.conds cond = first :: rest)
      (sorted : isSorted (higherPriorityInsema k) (k.conds cond) = true) :
      Effect k (.condSorted cond) { k with conds := update k.conds cond rest } (invoke (.semaUp (.waiter first))) .stay
  | lockTaken (lock : LockId) : Effect k (.lockTaken lock) { k with
      holder := update k.holder lock (some k.current)
      sections := (k.current, lock) :: k.sections } [] .stay
  | createTail (t : Tid) : Effect k (.createTail t) k [.renewPriority] (.unblock t)
  | renewPriority : Effect k .renewPriority k [.specificThreadSetPriority (k.priority k.current)] .stay
  | sleep (start ticks : Int) (enabled : k.intr = .on) : Effect k (.sleep start ticks) { k with
      intr := .off
      wakeupTick := update k.wakeupTick k.current (wakeupAt start ticks)
      waitingList := listInsertOrdered (fun x y => decide (update k.wakeupTick k.current (wakeupAt start ticks) x <
        update k.wakeupTick k.current (wakeupAt start ticks) y)) k.current k.waitingList } [.slept] .block
  | slept : Effect k .slept { k with intr := .on } [] .stay
  | parked : Effect k .parked k [] .stay
  | intrExit (yields : k.yieldOnReturn = true) : Effect k .intrExit { k with inExternalIntr := false } [] .yield
  | intrExitStays (stays : k.yieldOnReturn = false) : Effect k .intrExit { k with inExternalIntr := false } [] .stay
  | iret : Effect k .iret { k with intr := .on } [] .stay
  | idleStart : Effect k .idleStart { k with idleThread := some k.current }
      (invoke (.semaUp .idleStarted) ++ [Frame.idleLoop]) .stay
  | idleLoop : Effect k .idleLoop { k with intr := .off } [.idleHalt] .block
  | idleHalt : Effect k .idleHalt { k with intr := .on } [.idleLoop] .stay

@[simp] theorem push_nil (k : Kernel) : k.push [] = k := by
  simp [push]

/-- A frame whose execution ends with the given state. -/
def Executes (frame : Frame) (k k' : Kernel) : Prop :=
  ∃ change frames ending, Effect k frame change frames ending ∧ ending.run (change.push frames) = some k'

variable {frame : Frame} {ending : Ending} {change : Kernel}

/-- A frame that pushes nothing. -/
theorem Effect.ends (effect : Effect k frame change [] ending) (run : ending.run change = some k') :
    Executes frame k k' :=
  ⟨_, _, _, effect, by rwa [push_nil]⟩

theorem execCall_effect {c : Call} (executed : execCall c k = some k') : Executes (.call c) k k' := by
  cases c with simp only [execCall] at executed
  | threadCreate priority =>
    simp only [threadCreate] at executed
    split_ifs at executed with inRange
    exact ⟨_, _, _, .threadCreate priority inRange, executed⟩
  | threadExit =>
    split_ifs at executed with outside
    exact (Effect.threadExit outside).ends executed
  | threadBlock => exact ⟨_, _, _, .threadBlock, executed⟩
  | threadUnblock t =>
    split at executed
    next rest parked => exact (Effect.threadUnblock t rest parked).ends executed
    next => cases executed
  | threadYield => exact Effect.threadYield.ends executed
  | threadSetPriority newPriority => exact ⟨_, _, _, .threadSetPriority newPriority, executed⟩
  | semaDown s =>
    split_ifs at executed with outside
    exact ⟨_, _, _, .semaDown s outside, executed⟩
  | semaTryDown s =>
    split at executed
    next positive => exact (Effect.semaTryDown s positive).ends executed
    next zero => exact (Effect.semaTryDownFails s (Nat.eq_zero_of_not_pos zero)).ends executed
  | semaUp s => exact (Effect.semaUp s).ends executed
  | lockAcquire lock =>
    simp only [lockAcquire] at executed
    split_ifs at executed with others
    split at executed
    next free => exact ⟨_, _, _, .lockAcquire lock free, executed⟩
    next holder held =>
      exact ⟨_, _, _, .lockDonate lock holder held fun same => others (.inr (same ▸ held)), executed⟩
  | lockTryAcquire lock =>
    simp only [lockTryAcquire] at executed
    split at executed
    next => cases executed
    next =>
      split at executed
      next positive => exact ⟨_, _, _, .lockTryAcquire lock positive, executed⟩
      next zero => exact (Effect.lockTryAcquireFails lock (Nat.eq_zero_of_not_pos zero)).ends executed
  | lockRelease lock =>
    simp only [lockRelease] at executed
    split at executed
    next held =>
      split at executed
      next owned => exact ⟨_, _, _, .lockRelease lock held owned, executed⟩
      next => cases executed
    next => cases executed
  | condWait cond lock =>
    simp only [condWait] at executed
    split_ifs at executed with held
    exact ⟨_, _, _, .condWait cond lock held.2, executed⟩
  | condSignal cond lock =>
    simp only [condSignal] at executed
    split_ifs at executed with held
    split at executed
    next empty => exact (Effect.condSignalNone cond lock empty).ends executed
    next waits => exact ⟨_, _, _, .condSignal cond lock held.2 waits, executed⟩
  | condBroadcast cond lock =>
    simp only [condBroadcast] at executed
    split at executed
    next empty => exact (Effect.condBroadcastEnd cond lock empty).ends executed
    next waits => exact ⟨_, _, _, .condBroadcast cond lock waits, executed⟩
  | timerSleep ticks => exact ⟨_, _, _, .timerSleep ticks, executed⟩
  | intrSetLevel level => exact ⟨_, _, _, .callSetLevel level, executed⟩

/-- The cases of `exec`. -/
theorem exec_effect (executed : exec frame k = some k') : Executes frame k k' := by
  cases frame with simp only [exec] at executed
  | call c => exact execCall_effect executed
  | ret c => exact (Effect.ret c).ends executed
  | intrSetLevel level =>
    split_ifs at executed
    exact (Effect.intrSetLevel level).ends executed
  | specificThreadSetPriority newPriority => exact (Effect.specificThreadSetPriority newPriority).ends executed
  | recalculatePriority => exact ⟨_, _, _, .recalculatePriority, executed⟩
  | lockPriorityDonate lock newPriority =>
    simp only [lockPriorityDonate] at executed
    split at executed
    next => cases executed
    next tdonatee held =>
      split at executed
      next lower => exact ⟨_, _, _, .lockPriorityDonate lock newPriority tdonatee held lower, executed⟩
      next => exact (Effect.donateEnd lock newPriority).ends executed
  | donateNext tdonatee newPriority =>
    split at executed
    next => exact (Effect.donateLast tdonatee newPriority).ends executed
    next plock waits => exact ⟨_, _, _, .donateNext tdonatee newPriority plock waits, executed⟩
  | semaDownLoop s oldLevel =>
    split at executed
    next zero => exact ⟨_, _, _, .semaWait s oldLevel zero, executed⟩
    next positive => exact (Effect.semaTake s oldLevel positive).ends executed
  | lockDown lock oldLevel =>
    split at executed
    next zero => exact ⟨_, _, _, .lockWait lock oldLevel zero, executed⟩
    next positive => exact (Effect.lockTake lock oldLevel positive).ends executed
  | condSorted cond =>
    simp only [condSorted] at executed
    split_ifs at executed with sorted
    split at executed
    next => cases executed
    next first rest waiters => exact ⟨_, _, _, .condSorted cond first rest waiters sorted, executed⟩
  | lockTaken lock => exact (Effect.lockTaken lock).ends executed
  | createTail t =>
    split at executed
    next => cases executed
    next after unblocked =>
      obtain ⟨blocked, rfl⟩ := threadUnblock_eq unblocked
      refine ⟨_, _, _, .createTail t, ?_⟩
      rw [← executed]
      exact if_pos blocked
  | renewPriority => exact ⟨_, _, _, .renewPriority, executed⟩
  | sleep start ticks =>
    simp only [timerSleep] at executed
    split_ifs at executed with enabled
    exact ⟨_, _, _, .sleep start ticks enabled, executed⟩
  | slept => exact Effect.slept.ends executed
  | parked => exact Effect.parked.ends executed
  | intrExit =>
    split at executed
    next yields => exact (Effect.intrExit yields).ends executed
    next stays => exact (Effect.intrExitStays (eq_false_of_ne_true stays)).ends executed
  | iret => exact Effect.iret.ends executed
  | idleStart => exact ⟨_, _, _, .idleStart, executed⟩
  | idleLoop => exact ⟨_, _, _, .idleLoop, executed⟩
  | idleHalt => exact ⟨_, _, _, .idleHalt, executed⟩

/-- What a step of the system can be. -/
inductive Steps (k k' : Kernel) : Label → Prop
  | run {frame rest} (top : k.stack k.current = frame :: rest)
      (executed : exec frame { k with stack := update k.stack k.current rest } = some k') : Steps k k' .run
  | call {c} (outside : k.stack k.current = []) (isPublic : c.isPublic) (pushed : k' = k.push (invoke c)) :
      Steps k k' (.call c)
  | timer (enabled : k.intr = .on) (handled : intrHandler .timer k = some k') : Steps k k' (.interrupt .timer)
  | device {s} (enabled : k.intr = .on) (handled : intrHandler (.device s) k = some k') :
      Steps k k' (.interrupt (.device s))

variable {label : Label}

/-- The cases of `step`. -/
theorem step_cases (stepped : step label k = some k') : Steps k k' label := by
  cases label with
  | run =>
    simp only [step] at stepped
    split at stepped
    next => cases stepped
    next top => exact .run top stepped
  | call c =>
    simp only [step] at stepped
    split at stepped
    next outside =>
      split at stepped
      next isPublic => exact .call outside isPublic (some.inj stepped).symm
      next => cases stepped
    next => cases stepped
  | interrupt handler =>
    simp only [step] at stepped
    split_ifs at stepped with enabled
    cases handler with
    | timer => exact .timer enabled stepped
    | device s => exact .device enabled stepped

/-! ## Stacks -/

/-- The frames that executing a frame can leave on the stack in its place. -/
inductive Continues : Frame → List Frame → Prop
  | done (frame : Frame) : Continues frame []
  | threadCreate (priority : Int) (t : Tid) : Continues (.call (.threadCreate priority))
      (invoke (.lockAcquire tidLock) ++ invoke (.lockRelease tidLock) ++ [.createTail t])
  | threadBlock (level : IntrLevel) : Continues (.call .threadBlock) [.parked, .intrSetLevel level]
  | threadYield (level : IntrLevel) : Continues (.call .threadYield) [.intrSetLevel level]
  | threadSetPriority (newPriority : Int) : Continues (.call (.threadSetPriority newPriority))
      [.specificThreadSetPriority newPriority, .recalculatePriority]
  | semaDown (s : SemaId) (level : IntrLevel) : Continues (.call (.semaDown s)) [.semaDownLoop s level]
  | semaUp (s : SemaId) (level : IntrLevel) : Continues (.call (.semaUp s)) [.recalculatePriority, .intrSetLevel level]
  | lockAcquire (lock : LockId) (level : IntrLevel) : Continues (.call (.lockAcquire lock)) [.lockDown lock level]
  | lockDonate (lock : LockId) (newPriority : Int) (level : IntrLevel) : Continues (.call (.lockAcquire lock))
      [.lockPriorityDonate lock newPriority, .lockDown lock level]
  | lockTryAcquire (lock : LockId) : Continues (.call (.lockTryAcquire lock)) [.lockTaken lock]
  | lockRelease (lock : LockId) (level : IntrLevel) : Continues (.call (.lockRelease lock))
      [.recalculatePriority, .intrSetLevel .off, .intrSetLevel level]
  | condWait (cond : CondId) (lock : LockId) (t : Tid) : Continues (.call (.condWait cond lock))
      (invoke (.lockRelease lock) ++ invoke (.semaDown (.waiter t)) ++ invoke (.lockAcquire lock))
  | condSignal (cond : CondId) (lock : LockId) : Continues (.call (.condSignal cond lock)) [.condSorted cond]
  | condSorted (cond : CondId) (t : Tid) : Continues (.condSorted cond) (invoke (.semaUp (.waiter t)))
  | condBroadcast (cond : CondId) (lock : LockId) : Continues (.call (.condBroadcast cond lock))
      (invoke (.condSignal cond lock) ++ [.call (.condBroadcast cond lock)])
  | timerSleep (start ticks : Int) : Continues (.call (.timerSleep ticks)) [.sleep start ticks]
  | intrSetLevel (level : IntrLevel) : Continues (.call (.intrSetLevel level)) [.intrSetLevel level]
  | setPriorityYield (newPriority : Int) (level : IntrLevel) : Continues (.specificThreadSetPriority newPriority)
      [.intrSetLevel .off, .intrSetLevel level]
  | recalculatePriority (newPriority : Int) : Continues .recalculatePriority [.specificThreadSetPriority newPriority]
  | donate (lock : LockId) (newPriority : Int) (t : Tid) : Continues (.lockPriorityDonate lock newPriority)
      [.donateNext t newPriority]
  | donateYield (lock : LockId) (newPriority : Int) (t : Tid) (level : IntrLevel) :
      Continues (.lockPriorityDonate lock newPriority)
        [.intrSetLevel .off, .intrSetLevel level, .donateNext t newPriority]
  | donateNext (t : Tid) (lock : LockId) (newPriority : Int) : Continues (.donateNext t newPriority)
      [.lockPriorityDonate lock newPriority]
  | semaDownLoop (s : SemaId) (level : IntrLevel) : Continues (.semaDownLoop s level) [.semaDownLoop s level]
  | lockDown (lock : LockId) (level : IntrLevel) : Continues (.lockDown lock level) [.lockDown lock level]
  | createTail (t : Tid) : Continues (.createTail t) [.renewPriority]
  | renewPriority (newPriority : Int) : Continues .renewPriority [.specificThreadSetPriority newPriority]
  | sleep (start ticks : Int) : Continues (.sleep start ticks) [.slept]
  | intrExit (level : IntrLevel) : Continues .intrExit [.intrSetLevel level]
  | idleStart : Continues .idleStart (invoke (.semaUp .idleStarted) ++ [.idleLoop])
  | idleLoop : Continues .idleLoop [.idleHalt]
  | idleHalt : Continues .idleHalt [.idleLoop]

/-- The stacks differ by what the running thread has pushed, and the idle thread stays known. -/
structure Grows (pushed : List Frame) (k k' : Kernel) : Prop where
  stack : k'.stack = update k.stack k.current (pushed ++ k.stack k.current)
  idleThread : k.idleThread.isSome → k'.idleThread.isSome
  nextThread : k'.nextThread = k.nextThread

variable {pushed frames : List Frame}

theorem Switches.grows {between : Kernel} (switches : Switches pushed between k') (stack : between.stack = k.stack)
    (current : between.current = k.current) (idleThread : between.idleThread = k.idleThread)
    (nextThread : between.nextThread = k.nextThread) : Grows pushed k k' :=
  ⟨by simp [switches.stack, stack, current], by simp [switches.idleThread, idleThread],
    switches.nextThread.trans nextThread⟩

variable {s : SemaId}

theorem semaUp_spec (upped : semaUp s k = some k') : ∃ waiters status readyList clock readySince reprioritised,
    k' = { k.push [.recalculatePriority, .intrSetLevel k.intr] with
      intr := .off
      value := update k.value s ((k.value s + 1) % 2 ^ 32)
      waiters, status, readyList, clock, readySince, reprioritised } := by
  simp only [semaUp] at upped
  split at upped
  next => exact ⟨_, _, _, _, _, _, (some.inj upped).symm⟩
  next =>
    obtain ⟨-, rfl⟩ := threadUnblock_eq upped
    exact ⟨_, _, _, _, _, _, rfl⟩

theorem grows_semaUp (upped : semaUp s k = some k') : Grows [.recalculatePriority, .intrSetLevel k.intr] k k' := by
  obtain ⟨_, _, _, _, _, _, rfl⟩ := semaUp_spec upped
  exact ⟨rfl, id, rfl⟩

theorem semaUp_current (upped : semaUp s k = some k') : k'.current = k.current := by
  obtain ⟨_, _, _, _, _, _, rfl⟩ := semaUp_spec upped
  rfl

variable {sleepers : List Tid}

section

variable (woken : wakeSleepers sleepers k = some k')

include woken

/-- Only the lists of ready and of sleeping threads change, and the status of threads. -/
theorem wakeSleepers_spec :
    ∃ waitingList status readyList clock readySince reprioritised,
      k' = { k with waitingList, status, readyList, clock, readySince, reprioritised } := by
  induction sleepers generalizing k with
  | nil => exact ⟨_, _, _, _, _, _, (some.inj woken).symm⟩
  | cons sleeper rest ih =>
    simp only [wakeSleepers] at woken
    split at woken
    next =>
      split at woken
      next => cases woken
      next after unblocked =>
        obtain ⟨-, rfl⟩ := threadUnblock_eq unblocked
        obtain ⟨_, _, _, _, _, _, rfl⟩ := ih woken
        exact ⟨_, _, _, _, _, _, rfl⟩
    next => exact ⟨_, _, _, _, _, _, (some.inj woken).symm⟩

theorem grows_wakeSleepers : k'.stack = k.stack ∧ k'.idleThread = k.idleThread ∧ k'.nextThread = k.nextThread := by
  obtain ⟨_, _, _, _, _, _, rfl⟩ := wakeSleepers_spec woken
  exact ⟨rfl, rfl, rfl⟩

theorem wakeSleepers_current : k'.current = k.current := by
  obtain ⟨_, _, _, _, _, _, rfl⟩ := wakeSleepers_spec woken
  rfl

end

/-- The frames that the ending of a frame adds. -/
inductive Ending.Pushes (k : Kernel) : Ending → List Frame → Prop
  | stay : Pushes k .stay []
  | block : Pushes k .block []
  | exit : Pushes k .exit []
  | yield : Pushes k .yield [.intrSetLevel k.intr]
  | unblock (t : Tid) : Pushes k (.unblock t) []
  | setPriority (newPriority : Int) (t : Tid) : Pushes k (.setPriority newPriority t) []
  | setPriorityYield (newPriority : Int) (t : Tid) :
      Pushes k (.setPriority newPriority t) [.intrSetLevel .off, .intrSetLevel k.intr]
  | up (s : SemaId) : Pushes k (.up s) [.recalculatePriority, .intrSetLevel k.intr]

/-- Apart from `sema_up`, frames end in the scheduler. -/
theorem Ending.switches (run : ending.run k = some k') (notUp : ∀ s, ending ≠ .up s) :
    ∃ pushed, ending.Pushes k pushed ∧ Switches pushed k k' := by
  cases ending with
  | stay => exact ⟨_, .stay, some.inj run ▸ ⟨rfl, by simp, rfl, rfl, rfl, rfl⟩⟩
  | block => exact ⟨_, .block, switches_threadBlock run⟩
  | exit => exact ⟨_, .exit, { switches_schedule run with }⟩
  | yield => exact ⟨_, .yield, switches_threadYield run⟩
  | unblock t => exact ⟨_, .unblock t, switches_threadUnblock run⟩
  | setPriority newPriority t =>
    cases switches_specificThreadSetPriority run with
    | inl stays => exact ⟨_, .setPriority newPriority t, stays⟩
    | inr yields => exact ⟨_, .setPriorityYield newPriority t, yields⟩
  | up s => exact absurd rfl (notUp s)

theorem Ending.grows (run : ending.run k = some k') : ∃ pushed, ending.Pushes k pushed ∧ Grows pushed k k' := by
  by_cases isUp : ∃ s, ending = .up s
  · obtain ⟨s, rfl⟩ := isUp
    exact ⟨_, .up s, grows_semaUp run⟩
  · obtain ⟨pushed, pushes, switches⟩ := switches run fun s same => isUp ⟨s, same⟩
    exact ⟨pushed, pushes, switches.grows rfl rfl rfl rfl⟩

theorem Effect.continues (effect : Effect k frame change frames ending)
    (pushes : ending.Pushes (change.push frames) pushed) : Continues frame (pushed ++ frames) := by
  cases effect <;> cases pushes <;> constructor

/-- The stack of the running thread after a step. -/
inductive StackStep (k : Kernel) : Label → List Frame → Prop
  | run {frame rest pushed} (top : k.stack k.current = frame :: rest)
      (continues : Continues frame pushed) : StackStep k .run (pushed ++ rest)
  | call {c} (outside : k.stack k.current = []) (isPublic : c.isPublic) : StackStep k (.call c) (invoke c)
  | timer (enabled : k.intr = .on) : StackStep k (.interrupt .timer) ([.intrExit, .iret] ++ k.stack k.current)
  | device (s : Nat) (enabled : k.intr = .on) : StackStep k (.interrupt (.device s))
      ([.recalculatePriority, .intrSetLevel .off, .intrExit, .iret] ++ k.stack k.current)

/-- Executing a frame replaces it on the stack of its thread, and gives a new thread its first stack. -/
theorem exec_stack (created : k.current ≠ k.nextThread) (executed : exec frame k = some k') :
    ∃ change frames ending pushed, Effect k frame change frames ending ∧ ending.run (change.push frames) = some k' ∧
      ending.Pushes (change.push frames) pushed ∧ k'.stack k.current = pushed ++ frames ++ k.stack k.current ∧
      ∀ t, t ≠ k.current → k'.stack t = k.stack t ∨ t = k.nextThread ∧ k'.stack t = kernelThread := by
  obtain ⟨change, frames, ending, effect, run⟩ := exec_effect executed
  obtain ⟨pushed, pushes, grows⟩ := Ending.grows run
  have current : change.current = k.current := by cases effect <;> rfl
  have stackOf : change.stack k.current = k.stack k.current ∧
      ∀ t, change.stack t = k.stack t ∨ t = k.nextThread ∧ change.stack t = kernelThread := by
    cases effect with
    | threadCreate priority =>
      refine ⟨update_of_ne created _ _, fun t => ?_⟩
      by_cases new : t = k.nextThread
      · exact .inr ⟨new, by simp [initThread, new]⟩
      · exact .inl (by simp [initThread, new])
    | _ => exact ⟨rfl, fun t => .inl rfl⟩
  refine ⟨change, frames, ending, pushed, effect, run, pushes, ?_, fun t other => ?_⟩
  · simp [grows.stack, push, current, stackOf.1]
  · simpa [grows.stack, push, current, other] using stackOf.2 t

theorem step_stack (created : k.current ≠ k.nextThread) (stepped : step label k = some k') :
    StackStep k label (k'.stack k.current) ∧
      ∀ t, t ≠ k.current → k'.stack t = k.stack t ∨ t = k.nextThread ∧ k'.stack t = kernelThread := by
  cases step_cases stepped with
  | @run frame rest top executed =>
    obtain ⟨change, frames, ending, pushed, effect, -, pushes, mine, others⟩ := exec_stack (by exact created) executed
    simp only [update_self] at mine
    refine ⟨mine ▸ .run top (effect.continues pushes), fun t other => ?_⟩
    simpa [other] using others t other
  | call outside isPublic pushed =>
    rw [pushed]
    refine ⟨?_, fun t other => .inl (by simp [push, other])⟩
    simpa [push, outside] using StackStep.call outside isPublic
  | timer enabled handled =>
    have stack := (grows_wakeSleepers handled).1
    refine ⟨?_, fun t other => .inl ?_⟩
    · simpa [stack, push] using StackStep.timer (k := k) enabled
    · simp [stack, push, other]
  | @device s enabled handled =>
    have stack := (grows_semaUp handled).stack
    refine ⟨?_, fun t other => .inl ?_⟩
    · simpa [stack, push] using StackStep.device (k := k) s enabled
    · simp [stack, push, other]

/-- A law about the frames of each thread is kept if the frames that a step pushes obey it. -/
theorem step_frames (law : Tid → Frame → Prop) (created : k.current ≠ k.nextThread)
    (stepped : step label k = some k') (before : ∀ t, ∀ frame ∈ k.stack t, law t frame)
    (handler : ∀ t, law t .recalculatePriority ∧ law t .intrExit ∧ law t .iret ∧ ∀ level, law t (.intrSetLevel level))
    (calls : ∀ c, c.isPublic → law k.current (.call c) ∧ law k.current (.ret c))
    (effects : ∀ {frame rest change frames ending}, label = .run → k.stack k.current = frame :: rest →
      Effect { k with stack := update k.stack k.current rest } frame change frames ending →
      ∀ other ∈ frames, law k.current other) :
    ∀ t, ∀ frame ∈ k'.stack t, law t frame := by
  obtain ⟨recalculates, exits, returns, levels⟩ := handler k.current
  intro t
  by_cases mine : t = k.current
  · subst mine
    cases step_cases stepped with
    | @run frame rest top executed =>
      obtain ⟨change, frames, ending, pushed, effect, -, pushes, mine, -⟩ := exec_stack (by exact created) executed
      rw [show k'.stack k.current = pushed ++ frames ++ rest by simpa using mine]
      intro other member
      have pushedBy : ∀ other ∈ pushed, law k.current other := by
        cases pushes <;> simp [recalculates, levels]
      cases List.mem_append.mp member with
      | inl new => exact (List.mem_append.mp new).elim (pushedBy other) (effects rfl top effect other)
      | inr old => exact before k.current other (by simp [top, old])
    | @call c outside isPublic pushed =>
      obtain ⟨call, ret⟩ := calls c isPublic
      simp [pushed, push, outside, invoke, call, ret]
    | timer _ handled =>
      rw [(grows_wakeSleepers handled).1]
      simpa [push, exits, returns] using before k.current
    | device _ handled =>
      rw [(grows_semaUp handled).stack]
      simpa [push, recalculates, levels, exits, returns] using before k.current
  · cases (step_stack created stepped).2 t mine with
    | inl same => exact same ▸ before t
    | inr new => simp [new.2, kernelThread, (handler t).2.2.2]

/-- The idle thread stays known, and threads are only added. -/
theorem step_monotone (stepped : step label k = some k') :
    (k.idleThread.isSome → k'.idleThread.isSome) ∧ k.nextThread ≤ k'.nextThread := by
  cases step_cases stepped with
  | @run frame rest top executed =>
    obtain ⟨change, frames, ending, effect, run⟩ := exec_effect executed
    obtain ⟨pushed, -, grows⟩ := Ending.grows run
    have before : (k.idleThread.isSome → change.idleThread.isSome) ∧ k.nextThread ≤ change.nextThread := by
      cases effect with
      | threadCreate priority => exact ⟨id, le_succ _⟩
      | idleStart => exact ⟨fun _ => rfl, le_refl _⟩
      | _ => exact ⟨id, le_refl _⟩
    exact ⟨fun known => grows.idleThread (before.1 known), le_trans before.2 (le_of_eq grows.nextThread.symm)⟩
  | call outside isPublic pushed => exact pushed ▸ ⟨id, le_refl _⟩
  | timer _ handled =>
    obtain ⟨-, idleThread, nextThread⟩ := grows_wakeSleepers handled
    exact ⟨fun known => idleThread ▸ known, le_of_eq nextThread.symm⟩
  | device _ handled =>
    obtain ⟨-, idleThread, nextThread⟩ := grows_semaUp handled
    exact ⟨idleThread, le_of_eq nextThread.symm⟩

/-! ## Locks and semaphores -/

/-- What executing a frame can do to the state of locks, semaphores and conditions. -/
inductive SynchStep (k : Kernel) : Frame → Synch → Prop
  | same (frame : Frame) : SynchStep k frame k.toSynch
  | threadCreate (priority : Int) (inRange : priMin ≤ priority ∧ priority ≤ priMax) :
      SynchStep k (.call (.threadCreate priority)) { k.toSynch with
        originPriority := update k.originPriority k.nextThread priority
        plockAcq := update k.plockAcq k.nextThread none
        lockOwnList := update k.lockOwnList k.nextThread [] }
  | threadSetPriority (newPriority : Int) :
      SynchStep k (.call (.threadSetPriority newPriority)) { k.toSynch with
        originPriority := update k.originPriority k.current newPriority }
  | semaTryDown (s : SemaId) (positive : 0 < k.value s) :
      SynchStep k (.call (.semaTryDown s)) { k.toSynch with value := update k.value s (k.value s - 1) }
  | semaUp (s : SemaId) :
      SynchStep k (.call (.semaUp s)) { k.toSynch with
        value := update k.value s ((k.value s + 1) % 2 ^ 32) }
  | lockAcquire (lock : LockId) (holder : Tid) (held : k.holder lock = some holder) (other : holder ≠ k.current) :
      SynchStep k (.call (.lockAcquire lock)) { k.toSynch with
        plockAcq := update k.plockAcq k.current (some lock) }
  | lockTryAcquire (lock : LockId) (positive : 0 < k.value (.lock lock)) :
      SynchStep k (.call (.lockTryAcquire lock)) { k.toSynch with
        value := update k.value (.lock lock) (k.value (.lock lock) - 1) }
  | lockRelease (lock : LockId) (held : k.holder lock = some k.current) (owned : lock ∈ k.lockOwnList k.current) :
      SynchStep k (.call (.lockRelease lock)) { k.toSynch with
        holder := update k.holder lock none
        lockOwnList := update k.lockOwnList k.current ((k.lockOwnList k.current).erase lock)
        value := update k.value (.lock lock) ((k.value (.lock lock) + 1) % 2 ^ 32)
        sections := k.sections.erase (k.current, lock) }
  | condWait (cond : CondId) (lock : LockId) :
      SynchStep k (.call (.condWait cond lock)) { k.toSynch with
        value := update k.value (.waiter k.current) 0
        conds := update k.conds cond (k.conds cond ++ [k.current]) }
  | condSignal (cond : CondId) (lock : LockId) (sorted : List Tid) :
      SynchStep k (.call (.condSignal cond lock)) { k.toSynch with conds := update k.conds cond sorted }
  | condSorted (cond : CondId) (rest : List Tid) :
      SynchStep k (.condSorted cond) { k.toSynch with conds := update k.conds cond rest }
  | semaDownLoop (s : SemaId) (level : IntrLevel) (positive : k.value s ≠ 0) :
      SynchStep k (.semaDownLoop s level) { k.toSynch with value := update k.value s (k.value s - 1) }
  | lockDown (lock : LockId) (level : IntrLevel) (positive : k.value (.lock lock) ≠ 0) :
      SynchStep k (.lockDown lock level) (lockOwn lock (semaTake (.lock lock) k)).toSynch
  | lockTaken (lock : LockId) :
      SynchStep k (.lockTaken lock) { k.toSynch with
        holder := update k.holder lock (some k.current)
        sections := (k.current, lock) :: k.sections }

theorem semaUp_synch (upped : semaUp s k = some k') :
    k'.toSynch = { k.toSynch with value := update k.value s ((k.value s + 1) % 2 ^ 32) } := by
  obtain ⟨_, _, _, _, _, _, rfl⟩ := semaUp_spec upped
  rfl

/-- The state of locks and semaphores after the ending of a frame. -/
def Ending.synch (k : Kernel) : Ending → Synch
  | .up s => { k.toSynch with value := update k.value s ((k.value s + 1) % 2 ^ 32) }
  | _ => k.toSynch

theorem Ending.run_synch (run : ending.run k = some k') : k'.toSynch = ending.synch k := by
  cases ending with
  | up s => exact semaUp_synch run
  | _ =>
    obtain ⟨_, _, switches⟩ := switches run (by simp)
    exact switches.synch

theorem exec_synch {stack : Tid → List Frame} (executed : exec frame { k with stack := stack } = some k') :
    SynchStep k frame k'.toSynch := by
  obtain ⟨change, frames, ending, effect, run⟩ := exec_effect executed
  rw [Ending.run_synch run]
  cases effect with
  | threadCreate priority inRange => exact .threadCreate priority inRange
  | threadSetPriority newPriority => exact .threadSetPriority newPriority
  | semaTryDown s positive => exact .semaTryDown s positive
  | semaUp s => exact .semaUp s
  | lockDonate lock holder held other => exact .lockAcquire lock holder held other
  | lockTryAcquire lock positive => exact .lockTryAcquire lock positive
  | lockRelease lock held owned => exact .lockRelease lock held owned
  | condWait cond lock => exact .condWait cond lock
  | condSignal cond lock => exact .condSignal cond lock _
  | condSorted cond first rest => exact .condSorted cond rest
  | semaTake s level positive => exact .semaDownLoop s level positive
  | lockTake lock level positive => exact .lockDown lock level positive
  | lockTaken lock => exact .lockTaken lock
  | _ => exact .same _

theorem wakeSleepers_synch (woken : wakeSleepers sleepers k = some k') : k'.toSynch = k.toSynch := by
  obtain ⟨_, _, _, _, _, _, rfl⟩ := wakeSleepers_spec woken
  rfl

/-- What a step of the system can do to the state of locks, semaphores and conditions. -/
inductive SynchMove (k : Kernel) : Label → Synch → Prop
  | run {frame rest after} (top : k.stack k.current = frame :: rest)
      (synch : SynchStep k frame after) : SynchMove k .run after
  | call (c : Call) : SynchMove k (.call c) k.toSynch
  | timer : SynchMove k (.interrupt .timer) k.toSynch
  | device (s : Nat) : SynchMove k (.interrupt (.device s)) { k.toSynch with
      value := update k.value (.sema s) ((k.value (.sema s) + 1) % 2 ^ 32) }

theorem step_synch (stepped : step label k = some k') : SynchMove k label k'.toSynch := by
  cases step_cases stepped with
  | run top executed => exact .run top (exec_synch executed)
  | @call c _ _ pushed => exact pushed ▸ .call c
  | timer _ handled =>
    rw [wakeSleepers_synch handled]
    exact .timer
  | @device s _ handled =>
    rw [semaUp_synch handled]
    exact .device s

end Pintos.Threads
