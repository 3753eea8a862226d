import Pintos.Threads.ReadyQueue

/-! # The alarm clock

`Quiet` says that the sleeping threads, their wake-up ticks and the clock are left alone, which is what
every step does but three: a thread going to sleep, a timer tick, and `thread_create`, which clears the
wake-up tick of the initial thread.  `Alarm` records when each thread went to sleep and when it was woken.
-/

namespace Pintos.Threads

open Pintos.Kernel Library Function List Option Kernel

/-! ## What one step changes -/

structure Quiet (k k' : Kernel) : Prop where
  waitingList : k'.waitingList = k.waitingList
  wakeupTick : k'.wakeupTick = k.wakeupTick
  ticks : k'.ticks = k.ticks

variable {k k' : Kernel}

theorem Quiet.of_eq {between : Kernel} (quiet : Quiet between k') (waitingList : between.waitingList = k.waitingList)
    (wakeupTick : between.wakeupTick = k.wakeupTick) (ticks : between.ticks = k.ticks) : Quiet k k' :=
  ⟨quiet.waitingList.trans waitingList, quiet.wakeupTick.trans wakeupTick, quiet.ticks.trans ticks⟩

theorem quiet_schedule (scheduled : schedule k = some k') : Quiet k k' := by
  obtain ⟨next, rest, -, rfl⟩ := schedule_eq scheduled
  exact ⟨rfl, rfl, rfl⟩

variable {t : Tid}

theorem quiet_threadBlock (blocked : threadBlock k = some k') : Quiet k k' :=
  (quiet_schedule (threadBlock_eq blocked)).of_eq rfl rfl rfl

theorem quiet_threadYield (yielded : threadYield k = some k') : Quiet k k' := by
  unfold threadYield at yielded
  split_ifs at yielded
  simp only at yielded
  apply (quiet_schedule yielded).of_eq
  all_goals
    dsimp only
    split <;> rfl

theorem quiet_specificThreadSetPriority {newPriority : Int}
    (set : specificThreadSetPriority newPriority t k = some k') : Quiet k k' := by
  simp only [specificThreadSetPriority] at set
  split at set
  next => exact some.inj set ▸ ⟨rfl, rfl, rfl⟩
  next =>
    split at set
    next => exact (quiet_threadYield set).of_eq rfl rfl rfl
    next => exact some.inj set ▸ ⟨rfl, rfl, rfl⟩

theorem quiet_semaUp {s : SemaId} (upped : semaUp s k = some k') : Quiet k k' := by
  obtain ⟨_, _, _, _, _, _, rfl⟩ := semaUp_spec upped
  exact ⟨rfl, rfl, rfl⟩

theorem quiet_ending {ending : Ending} (run : ending.run k = some k') : Quiet k k' := by
  cases ending with
  | stay => exact some.inj run ▸ ⟨rfl, rfl, rfl⟩
  | block => exact quiet_threadBlock run
  | exit => exact (quiet_schedule run).of_eq rfl rfl rfl
  | yield => exact quiet_threadYield run
  | unblock t =>
    obtain ⟨-, rfl⟩ := threadUnblock_eq run
    exact ⟨rfl, rfl, rfl⟩
  | setPriority newPriority t => exact quiet_specificThreadSetPriority run
  | up s => exact quiet_semaUp run

theorem quiet_exec {frame : Frame} (notCreate : ∀ priority, frame ≠ .call (.threadCreate priority))
    (notSleep : ∀ start ticks, frame ≠ .sleep start ticks) (executed : exec frame k = some k') : Quiet k k' := by
  obtain ⟨change, frames, ending, effect, run⟩ := exec_effect executed
  have quiet := quiet_ending run
  cases effect with
  | threadCreate priority => exact absurd rfl (notCreate priority)
  | sleep start ticks => exact absurd rfl (notSleep start ticks)
  | _ => exact quiet.of_eq rfl rfl rfl

variable {start ticks : Int} {sleepers : List Tid} {label : Label}

theorem timerSleep_eq (slept : timerSleep start ticks k = some k') :
    k'.wakeupTick = update k.wakeupTick k.current (wakeupAt start ticks) ∧ k'.ticks = k.ticks ∧
      k'.waitingList = listInsertOrdered (fun x y => decide (k'.wakeupTick x < k'.wakeupTick y)) k.current
        k.waitingList := by
  simp only [timerSleep] at slept
  split_ifs at slept
  obtain ⟨waitingList, wakeupTick, ticks⟩ := quiet_threadBlock slept
  rw [wakeupTick, waitingList, ticks]
  exact ⟨rfl, rfl, rfl⟩

theorem threadCreate_eq {priority : Int} (created : threadCreate priority k = some k') :
    k'.waitingList = k.waitingList ∧ k'.ticks = k.ticks ∧
      k'.wakeupTick = update (update k.wakeupTick k.nextThread 0) initialThread 0 := by
  simp only [threadCreate] at created
  split_ifs at created
  exact some.inj created ▸ ⟨rfl, rfl, rfl⟩

/-- The tick at which the thread is to be woken has come. -/
def Kernel.isDue (k : Kernel) (t : Tid) : Bool :=
  decide (k.wakeupTick t ≤ k.ticks)

/-- The threads in front whose tick has come become ready, and no other thread changes its status. -/
theorem wakeSleepers_eq (woken : wakeSleepers sleepers k = some k') (sleeping : k.waitingList = sleepers) :
    k'.wakeupTick = k.wakeupTick ∧ k'.ticks = k.ticks ∧ k'.waitingList = sleepers.dropWhile k.isDue ∧
      ∀ t, k'.status t = if t ∈ sleepers.takeWhile k.isDue then .ready else k.status t := by
  induction sleepers generalizing k with
  | nil =>
    rw [← some.inj woken]
    exact ⟨rfl, rfl, sleeping, fun t => by simp⟩
  | cons sleeper rest ih =>
    simp only [wakeSleepers] at woken
    split at woken
    next due =>
      have isDue : k.isDue sleeper = true := decide_eq_true due
      split at woken
      next => cases woken
      next after unblocked =>
        obtain ⟨-, rfl⟩ := threadUnblock_eq unblocked
        obtain ⟨wakeupTick, ticks, waitingList, status⟩ := ih woken rfl
        refine ⟨wakeupTick, ticks, ?_, fun t => ?_⟩
        · rw [waitingList, dropWhile_cons_of_pos isDue]
          rfl
        · rw [status t, takeWhile_cons_of_pos isDue]
          show (if t ∈ rest.takeWhile k.isDue then _ else update k.status sleeper .ready t) = _
          by_cases isSleeper : t = sleeper
          · subst isSleeper
            simp
          · rw [update_of_ne isSleeper]
            simp only [mem_cons, isSleeper, false_or]
    next early =>
      have notDue : ¬ k.isDue sleeper = true := by simpa [isDue] using early
      rw [← some.inj woken]
      refine ⟨rfl, rfl, ?_, fun t => ?_⟩
      · rw [sleeping, dropWhile_cons_of_neg notDue]
      · rw [takeWhile_cons_of_neg notDue]
        simp

theorem timerTick_eq (handled : intrHandler .timer k = some k') :
    k'.wakeupTick = k.wakeupTick ∧ k'.ticks = (k.ticks + 1).bmod (2 ^ 64) ∧
      k'.waitingList = k.waitingList.dropWhile k'.isDue ∧
      ∀ t, k'.status t = if t ∈ k.waitingList.takeWhile k'.isDue then .ready else k.status t := by
  simp only [intrHandler, timerInterrupt] at handled
  obtain ⟨wakeupTick, ticks, waitingList, status⟩ := wakeSleepers_eq handled rfl
  unfold isDue at waitingList status ⊢
  rw [wakeupTick, ticks]
  exact ⟨rfl, rfl, waitingList, status⟩

/-! ## Sleeping and waking, recorded -/

/-- A call `timer_sleep (ticks)` that read the clock at `start` and put its thread to sleep at `since`. -/
structure Nap where
  start : Int
  ticks : Int
  since : Int
  deriving DecidableEq, Repr

/-- The first tick with a count of at least `start + ticks` that finds the thread asleep. -/
def Nap.due (nap : Nap) : Int :=
  max (nap.start + nap.ticks) (nap.since + 1)

/-- The kernel, with two histories that no function reads: the last nap of each thread, and the ticks at which
`timer_interrupt` has unblocked it since. -/
structure Alarm extends Kernel where
  nap : Tid → Option Nap
  woken : Tid → List Int

def Alarm.record (label : Label) (a : Alarm) (k : Kernel) : Alarm :=
  match label, a.stack a.current with
  | .run, .sleep start ticks :: _ =>
    { toKernel := k
      nap := update a.nap a.current (some ⟨start, ticks, a.ticks⟩)
      woken := update a.woken a.current [] }
  | .interrupt .timer, _ =>
    { toKernel := k
      nap := a.nap
      woken := fun t => if a.status t = .blocked ∧ k.status t = .ready then a.woken t ++ [k.ticks] else a.woken t }
  | _, _ => { toKernel := k, nap := a.nap, woken := a.woken }

def alarmStep (label : Label) (a : Alarm) : Option Alarm :=
  (step label a.toKernel).map (a.record label)

def alarmBoot (semaInit : Nat → Nat) (tailWord : SemaId → { word : Int // word < 0 }) : Alarm where
  toKernel := boot semaInit tailWord
  nap _ := none
  woken _ := []

def AlarmReachable (allowed : Label → Kernel → Prop) (a : Alarm) : Prop :=
  ∃ semaInit tailWord, Reaches alarmStep (fun label a => allowed label a.toKernel) (alarmBoot semaInit tailWord) a

/-- Naps of at least one tick, whose end fits the `int` of `wakeup_tick`, and a clock that does not overflow. -/
def napsInRange (label : Label) (k : Kernel) : Prop :=
  match label, k.stack k.current with
  | .run, .call (.timerSleep ticks) :: _ => 1 ≤ ticks ∧ k.ticks + ticks < 2 ^ 31
  | .interrupt .timer, _ => k.ticks + 1 < 2 ^ 63
  | _, _ => True

/-- No thread is created while the initial thread sleeps. -/
def createsAwake (label : Label) (k : Kernel) : Prop :=
  match label, k.stack k.current with
  | .run, .call (.threadCreate _) :: _ => initialThread ∉ k.waitingList
  | _, _ => True

/-- Ticks, naps and new threads only. -/
def alarmCalls : Label → Prop
  | .run | .interrupt .timer | .call (.timerSleep _) | .call (.threadCreate _) => True
  | _ => False

instance : ∀ label k, Decidable (napsInRange label k) := by
  intro label k
  unfold napsInRange
  generalize k.stack k.current = stack
  revert stack
  exact id fun (stack : Stack) => by split <;> infer_instance

instance : ∀ label k, Decidable (createsAwake label k) := by
  intro label k
  unfold createsAwake
  generalize k.stack k.current = stack
  revert stack
  exact id fun (stack : Stack) => by split <;> infer_instance

instance : DecidablePred alarmCalls := by
  intro label
  unfold alarmCalls
  split <;> infer_instance

/-- A run after `thread_start`, replayed with semaphores at 0, shows that a state is reachable. -/
theorem exists_alarmReachable (allowed : Label → Kernel → Prop) [∀ label k, Decidable (allowed label k)]
    (property : Alarm → Prop) [DecidablePred property] (labels : List Label)
    (found : (execute alarmStep (fun label a => allowed label a.toKernel) (startUp ++ labels)
      (alarmBoot (fun _ => 0) fun _ => ⟨-1, by decide⟩)).any (fun a => decide (property a)) = true) :
    ∃ a, AlarmReachable allowed a ∧ property a := by
  obtain ⟨a, reaches, shown⟩ := exists_reached alarmStep _ _ property _ found
  exact ⟨a, ⟨_, _, reaches⟩, shown⟩

/-! ## Sleeping threads are woken when they are due -/

/-- Calls of `timer_sleep` in progress have read the clock, and end within the range of `wakeup_tick`. -/
def NapsFit (k : Kernel) : Prop :=
  ∀ t start ticks, .sleep start ticks ∈ k.stack t → 0 ≤ start ∧ 1 ≤ ticks ∧ start + ticks < 2 ^ 31

structure Alarm.Sound (a : Alarm) : Prop where
  running : a.toSched.Running
  clock : 0 ≤ a.ticks
  fit : NapsFit a.toKernel
  sorted : a.waitingList.Pairwise fun x y => a.wakeupTick x ≤ a.wakeupTick y
  asleep : ∀ t ∈ a.waitingList, ∃ nap, a.nap t = some nap ∧ a.wakeupTick t = nap.start + nap.ticks ∧
    nap.since ≤ a.ticks ∧ a.ticks < nap.due ∧ a.woken t = []
  awake : ∀ t nap, a.nap t = some nap → t ∉ a.waitingList → nap.due ≤ a.ticks ∧ a.woken t = [nap.due]

theorem wakeupAt_eq (started : 0 ≤ start) (positive : 1 ≤ ticks) (fits : start + ticks < 2 ^ 31) :
    wakeupAt start ticks = start + ticks := by
  unfold wakeupAt
  have wide : (start + ticks).bmod (2 ^ 64) = start + ticks := Int.bmod_eq_of_le (by omega) (by omega)
  rw [wide]
  exact Int.bmod_eq_of_le (by omega) (by omega)

theorem earlier_order (wakeupTick : Tid → Int) : StrictWeakOrder fun x y => decide (wakeupTick x < wakeupTick y) := by
  simpa using StrictWeakOrder.ofKey fun t => -wakeupTick t

theorem NapsFit.step (fit : NapsFit k) (created : k.current ≠ k.nextThread) (clock : 0 ≤ k.ticks)
    (permitted : napsInRange label k) (stepped : step label k = some k') : NapsFit k' := by
  have fits := step_frames (fun _ frame => ∀ start ticks, frame = .sleep start ticks →
    0 ≤ start ∧ 1 ≤ ticks ∧ start + ticks < 2 ^ 31) created stepped
    (fun t frame member start ticks same => fit t start ticks (same ▸ member)) (by simp) (by simp) ?_
  · exact fun t start ticks member => fits t _ member start ticks rfl
  · intro frame rest change frames ending isRun top effect
    subst isRun
    cases effect with
    | timerSleep ticks => simpa [napsInRange, top, clock] using permitted
    | _ => simp [invoke]

variable {a : Alarm}

/-- The sleeping threads are left alone. -/
theorem Alarm.Sound.undisturbed (sound : a.Sound) (running : k.toSched.Running) (fit : NapsFit k)
    (waitingList : k.waitingList = a.waitingList) (ticks : k.ticks = a.ticks)
    (wakeupTick : ∀ t ∈ a.waitingList, k.wakeupTick t = a.wakeupTick t) :
    Alarm.Sound { toKernel := k, nap := a.nap, woken := a.woken } where
  running := running
  clock := by simpa [ticks] using sound.clock
  fit := fit
  sorted := by
    show k.waitingList.Pairwise fun x y => k.wakeupTick x ≤ k.wakeupTick y
    rw [waitingList]
    apply List.Pairwise.imp_of_mem _ sound.sorted
    intro x y xSleeps ySleeps earlier
    rwa [wakeupTick x xSleeps, wakeupTick y ySleeps]
  asleep := by
    intro t sleeps
    replace sleeps : t ∈ a.waitingList := waitingList ▸ sleeps
    obtain ⟨nap, napping, wakes, since, early, unwoken⟩ := sound.asleep t sleeps
    exact ⟨nap, napping, (wakeupTick t sleeps).trans wakes, since.trans_eq ticks.symm, ticks.trans_lt early, unwoken⟩
  awake := by
    intro t nap napping up
    obtain ⟨due, woken⟩ := sound.awake t nap napping (waitingList ▸ up)
    exact ⟨due.trans_eq ticks.symm, woken⟩

theorem Alarm.Sound.sleep (sound : a.Sound) {rest : List Frame} (top : a.stack a.current = .sleep start ticks :: rest)
    (running : k.toSched.Running) (fit : NapsFit k)
    (slept : timerSleep start ticks { a.toKernel with stack := update a.stack a.current rest } = some k) :
    Alarm.Sound {
      toKernel := k
      nap := update a.nap a.current (some ⟨start, ticks, a.ticks⟩)
      woken := update a.woken a.current [] } := by
  obtain ⟨wakeupTick, clock, waitingList⟩ := timerSleep_eq slept
  dsimp only at wakeupTick clock waitingList
  obtain ⟨started, positive, fits⟩ := sound.fit a.current start ticks (by simp [top])
  rw [wakeupAt_eq started positive fits] at wakeupTick
  have isUp : a.current ∉ a.waitingList := by
    intro sleeps
    have blocked := (sound.running.sleeping a.current sleeps).1
    rw [sound.running.running] at blocked
    cases blocked
  have others : ∀ {t}, t ≠ a.current → k.wakeupTick t = a.wakeupTick t := by
    intro t other
    rw [wakeupTick, update_of_ne other]
  constructor
  · exact running
  · exact sound.clock.trans_eq clock.symm
  · exact fit
  · show k.waitingList.Pairwise fun x y => k.wakeupTick x ≤ k.wakeupTick y
    have sorted : Ordered (fun x y => decide (k.wakeupTick x < k.wakeupTick y)) a.waitingList := by
      apply List.Pairwise.imp_of_mem _ sound.sorted
      intro x y xSleeps ySleeps earlier
      show decide (k.wakeupTick y < k.wakeupTick x) = false
      rw [others (ne_of_mem_of_not_mem xSleeps isUp), others (ne_of_mem_of_not_mem ySleeps isUp)]
      simpa using earlier
    rw [waitingList]
    apply (ordered_listInsertOrdered (earlier_order k.wakeupTick) sorted).imp
    intro x y notLater
    simpa using notLater
  · intro t sleeps
    simp only [waitingList, mem_listInsertOrdered] at sleeps
    by_cases isCurrent : t = a.current
    · subst isCurrent
      refine ⟨_, update_self .., ?_, ?_, ?_, update_self ..⟩
      · simp [wakeupTick]
      · simp [clock]
      · simp only [clock, Nap.due]
        omega
    · obtain ⟨nap, napping, wakes, since, early, unwoken⟩ := sound.asleep t (sleeps.resolve_left isCurrent)
      exact ⟨nap, by simpa [isCurrent] using napping, (others isCurrent).trans wakes, since.trans_eq clock.symm,
        clock.trans_lt early, by simpa [isCurrent] using unwoken⟩
  · intro t nap napping up
    simp only [waitingList, mem_listInsertOrdered, not_or] at up
    obtain ⟨due, woken⟩ := sound.awake t nap (by simpa [up.1] using napping) up.2
    exact ⟨due.trans_eq clock.symm, by simpa [up.1] using woken⟩

/-- In a sorted waiting list the loop of `timer_interrupt` stops in front of threads that are not due. -/
theorem not_due_of_mem_dropWhile (sorted : sleepers.Pairwise fun x y => k.wakeupTick x ≤ k.wakeupTick y)
    (left : t ∈ sleepers.dropWhile k.isDue) : k.ticks < k.wakeupTick t := by
  induction sleepers with
  | nil => cases left
  | cons sleeper rest ih =>
    obtain ⟨first, restSorted⟩ := pairwise_cons.mp sorted
    cases due : k.isDue sleeper with
    | true =>
      rw [dropWhile_cons_of_pos due] at left
      exact ih restSorted left
    | false =>
      have early : k.ticks < k.wakeupTick sleeper := by simpa [isDue] using due
      rw [dropWhile_cons_of_neg (by simp [due])] at left
      cases mem_cons.mp left with
      | inl same => rwa [same]
      | inr behind =>
        have later := first t behind
        omega

theorem Alarm.Sound.tick (sound : a.Sound) (inRange : a.ticks + 1 < 2 ^ 63) (running : k.toSched.Running)
    (fit : NapsFit k) (handled : intrHandler .timer a.toKernel = some k) : (a.record (.interrupt .timer) k).Sound := by
  obtain ⟨wakeupTick, clock, waitingList, status⟩ := timerTick_eq handled
  have started := sound.clock
  rw [Int.bmod_eq_of_le (by omega) (by omega)] at clock
  have parts : a.waitingList.takeWhile k.isDue ++ a.waitingList.dropWhile k.isDue = a.waitingList :=
    takeWhile_append_dropWhile
  have sorted : a.waitingList.Pairwise fun x y => k.wakeupTick x ≤ k.wakeupTick y := by
    rw [wakeupTick]
    exact sound.sorted
  constructor
  · exact running
  · show 0 ≤ k.ticks
    omega
  · exact fit
  · show k.waitingList.Pairwise fun x y => k.wakeupTick x ≤ k.wakeupTick y
    rw [waitingList]
    exact sorted.sublist (dropWhile_sublist _)
  · intro t member
    have notDue := not_due_of_mem_dropWhile sorted (waitingList ▸ member)
    have sleeps : t ∈ a.waitingList := parts ▸ mem_append_right _ (waitingList ▸ member)
    obtain ⟨nap, napping, wakes, since, early, unwoken⟩ := sound.asleep t sleeps
    have blocked : k.status t = .blocked := (running.sleeping t member).1
    refine ⟨nap, napping, ?_, ?_, ?_, ?_⟩
    · show k.wakeupTick t = _
      rw [wakeupTick, wakes]
    · show nap.since ≤ k.ticks
      omega
    · show k.ticks < nap.due
      rw [wakeupTick, wakes] at notDue
      unfold Nap.due
      omega
    · show (if a.status t = .blocked ∧ k.status t = .ready then _ else a.woken t) = []
      rw [if_neg (by simp [blocked]), unwoken]
  · intro t nap napping up
    replace up : t ∉ a.waitingList.dropWhile k.isDue := waitingList ▸ up
    show nap.due ≤ k.ticks ∧
      (if a.status t = .blocked ∧ k.status t = .ready then a.woken t ++ [k.ticks] else a.woken t) = [nap.due]
    by_cases wakesNow : t ∈ a.waitingList.takeWhile k.isDue
    · -- Unblocked by this tick.
      have sleeps : t ∈ a.waitingList := parts ▸ mem_append_left _ wakesNow
      obtain ⟨nap', napping', wakes, since, early, unwoken⟩ := sound.asleep t sleeps
      obtain rfl : nap' = nap := some.inj (napping'.symm.trans napping)
      have due : k.wakeupTick t ≤ k.ticks := by simpa [isDue] using mem_takeWhile_imp wakesNow
      have now : nap'.due = k.ticks := by
        rw [wakeupTick, wakes] at due
        unfold Nap.due at early ⊢
        omega
      have blocked := (sound.running.sleeping t sleeps).1
      rw [if_pos ⟨blocked, by rw [status t, if_pos wakesNow]⟩, unwoken, now]
      exact ⟨Int.le_refl _, rfl⟩
    · -- Woken before, and not touched now.
      have upBefore : t ∉ a.waitingList := by
        intro slept
        rw [← parts] at slept
        exact (mem_append.mp slept).elim wakesNow up
      obtain ⟨due, woken⟩ := sound.awake t nap napping upBefore
      have unchanged : k.status t = a.status t := by rw [status t, if_neg wakesNow]
      rw [if_neg (by rw [unchanged]; intro both; simp [both.1] at both)]
      exact ⟨by omega, woken⟩

theorem Alarm.Sound.run (sound : a.Sound) (creates : createsAwake .run a.toKernel) (running : k.toSched.Running)
    (fit : NapsFit k) (stepped : Threads.step .run a.toKernel = some k) : (a.record .run k).Sound := by
  cases step_cases stepped with
  | @run frame rest top executed =>
    by_cases sleeps : ∃ start ticks, frame = .sleep start ticks
    · obtain ⟨start, ticks, rfl⟩ := sleeps
      simpa [Alarm.record, top] using sound.sleep top running fit executed
    have recorded : a.record .run k = { toKernel := k, nap := a.nap, woken := a.woken } := by
      unfold Alarm.record
      split
      next top' =>
        rw [top] at top'
        exact absurd ⟨_, _, (cons.inj top').1⟩ sleeps
      next isTimer => cases isTimer
      next => rfl
    rw [recorded]
    by_cases create : ∃ priority, frame = .call (.threadCreate priority)
    · obtain ⟨priority, rfl⟩ := create
      obtain ⟨waitingList, ticks, wakeupTick⟩ := threadCreate_eq executed
      have initialUp : initialThread ∉ a.waitingList := by simpa [createsAwake, top] using creates
      apply sound.undisturbed running fit waitingList ticks
      intro t asleep
      have old : t ≠ a.nextThread :=
        Nat.ne_of_lt (sound.running.lt_nextThread (by simp [(sound.running.sleeping t asleep).1]))
      rw [wakeupTick, update_of_ne (ne_of_mem_of_not_mem asleep initialUp), update_of_ne old]
    · obtain ⟨waitingList, wakeupTick, ticks⟩ := quiet_exec (fun priority same => create ⟨priority, same⟩)
        (fun start ticks same => sleeps ⟨start, ticks, same⟩) executed
      exact sound.undisturbed running fit waitingList ticks fun t _ => congrFun wakeupTick t

theorem Alarm.Sound.step {a' : Alarm} (sound : a.Sound) (naps : napsInRange label a.toKernel)
    (creates : createsAwake label a.toKernel) (stepped : alarmStep label a = some a') : a'.Sound := by
  obtain ⟨k, taken, rfl⟩ := map_eq_some_iff.mp stepped
  have running := sound.running.step taken
  have fit := sound.fit.step sound.running.created sound.clock naps taken
  have undisturbed (quiet : Quiet a.toKernel k) :=
    sound.undisturbed running fit quiet.waitingList quiet.ticks fun t _ => congrFun quiet.wakeupTick t
  cases step_cases taken with
  | run => exact sound.run creates running fit taken
  | call outside isPublic pushed => exact undisturbed (pushed ▸ ⟨rfl, rfl, rfl⟩)
  | timer _ handled => exact sound.tick naps running fit handled
  | device _ handled => exact undisturbed ((quiet_semaUp handled).of_eq rfl rfl rfl)

/-- The start of the system, with the clock at a given tick. -/
def alarmAt (ticks : Int) (semaInit : Nat → Nat) (tailWord : SemaId → { word : Int // word < 0 }) : Alarm :=
  { alarmBoot semaInit tailWord with ticks := ticks }

theorem Alarm.sound_boot (clock : 0 ≤ ticks) (semaInit : Nat → Nat)
    (tailWord : SemaId → { word : Int // word < 0 }) : (alarmAt ticks semaInit tailWord).Sound where
  running := Sched.running_boot semaInit tailWord
  clock := clock
  fit := by
    intro t start ticks member
    exact absurd rfl (@Sched.boot_frames semaInit tailWord (fun _ frame => frame ≠ .sleep start ticks)
      (by simp [invoke])
      (by simp [kernelThread]) t _ member)
  sorted := by simp [alarmAt, alarmBoot, boot]
  asleep := by simp [alarmAt, alarmBoot, boot]
  awake := by simp [alarmAt, alarmBoot]

/-- As long as no thread is created while the initial thread sleeps, the waiting list is sorted, a thread sleeps
until its nap is due, and it is unblocked at that tick and no other. -/
theorem alarm_clock (reached : AlarmReachable (fun label k => napsInRange label k ∧ createsAwake label k) a) :
    a.waitingList.Pairwise (fun x y => a.wakeupTick x ≤ a.wakeupTick y) ∧ (∀ t ∈ a.waitingList, (a.nap t).isSome) ∧
      ∀ t nap, a.nap t = some nap → (a.ticks < nap.due → t ∈ a.waitingList ∧ a.status t = .blocked ∧ a.woken t = []) ∧
        (nap.due ≤ a.ticks → t ∉ a.waitingList ∧ a.woken t = [nap.due]) := by
  obtain ⟨semaInit, tailWord, reaches⟩ := reached
  have sound : a.Sound := reaches.invariant Alarm.Sound (Alarm.sound_boot (Int.le_refl 0) semaInit tailWord)
    fun sound permitted stepped => sound.step permitted.1 permitted.2 stepped
  refine ⟨sound.sorted, fun t sleeps => ?_, fun t nap napping => ⟨fun early => ?_, fun due => ?_⟩⟩
  · obtain ⟨nap, napping, -⟩ := sound.asleep t sleeps
    simp [napping]
  · have sleeps : t ∈ a.waitingList := by
      by_contra up
      have due := (sound.awake t nap napping up).1
      omega
    obtain ⟨nap', napping', -, -, -, unwoken⟩ := sound.asleep t sleeps
    exact ⟨sleeps, (sound.running.sleeping t sleeps).1, unwoken⟩
  · have up : t ∉ a.waitingList := by
      intro sleeps
      obtain ⟨nap', napping', -, -, early, -⟩ := sound.asleep t sleeps
      obtain rfl : nap' = nap := some.inj (napping'.symm.trans napping)
      omega
    exact ⟨up, (sound.awake t nap napping up).2⟩

/-- The initial thread is asleep behind thread 2, and each is unblocked at its own tick. -/
theorem alarm_clock_example : ∃ a : Alarm, a.nap 2 = some ⟨0, 1, 0⟩ ∧ a.nap initialThread = some ⟨0, 2, 0⟩ ∧
    a.woken 2 = [1] ∧ a.woken initialThread = [2] := by
  obtain ⟨a, reached, second, initial, ticks⟩ := exists_alarmReachable
    (fun label k => napsInRange label k ∧ createsAwake label k)
    (fun a => a.nap 2 = some ⟨0, 1, 0⟩ ∧ a.nap initialThread = some ⟨0, 2, 0⟩ ∧ a.ticks = 2)
    (callThen (.threadCreate 20) 14 ++ callThen (.timerSleep 2) 3 ++ callThen (.timerSleep 1) 20 ++
      .interrupt .timer :: replicate 5 .run ++ [.interrupt .timer])
    (by decide +kernel)
  obtain ⟨-, -, law⟩ := alarm_clock reached
  refine ⟨a, second, initial, ((law 2 _ second).2 ?_).2, ((law initialThread _ initial).2 ?_).2⟩
  · rw [ticks]
    decide
  · rw [ticks]
    decide

/-- The initial thread sleeps for five ticks.  Thread 2 creates a thread, which clears the wake-up tick of the
initial thread, and the next tick unblocks it. -/
theorem threadCreate_wakes_initialThread :
    ∃ a, AlarmReachable (fun label k => alarmCalls label ∧ napsInRange label k) a ∧
      a.nap initialThread = some ⟨0, 5, 0⟩ ∧ a.ticks = 1 ∧ a.woken initialThread = [1] :=
  exists_alarmReachable (fun label k => alarmCalls label ∧ napsInRange label k)
    (fun a => a.nap initialThread = some ⟨0, 5, 0⟩ ∧ a.ticks = 1 ∧ a.woken initialThread = [1])
    (callThen (.threadCreate 20) 14 ++ callThen (.timerSleep 5) 3 ++ callThen (.threadCreate 10) 14 ++
      [.interrupt .timer])
    (by decide +kernel)

/-- From any tick on: as long as all naps end before tick 2 ^ 31, the waiting list is in the order of the ends of the
naps, and no thread is unblocked before. -/
theorem timerSleep_from_any_tick {ticks : Int} (clock : 0 ≤ ticks) {semaInit : Nat → Nat}
    {tailWord : SemaId → { word : Int // word < 0 }} (reached : Reaches alarmStep
      (fun label a => napsInRange label a.toKernel ∧ createsAwake label a.toKernel)
        (alarmAt ticks semaInit tailWord) a) :
    (a.waitingList.Pairwise fun x y => ∃ first second, a.nap x = some first ∧ a.nap y = some second ∧
      first.start + first.ticks ≤ second.start + second.ticks) ∧
    ∀ t nap, a.nap t = some nap → a.ticks < nap.start + nap.ticks →
      t ∈ a.waitingList ∧ a.status t = .blocked ∧ a.woken t = [] := by
  have sound : a.Sound := reached.invariant Alarm.Sound (Alarm.sound_boot clock semaInit tailWord)
    fun sound permitted stepped => sound.step permitted.1 permitted.2 stepped
  constructor
  · refine sound.sorted.imp_of_mem fun {x y} xSleeps ySleeps earlier => ?_
    obtain ⟨first, isFirst, firstWakes, -⟩ := sound.asleep x xSleeps
    obtain ⟨second, isSecond, secondWakes, -⟩ := sound.asleep y ySleeps
    exact ⟨first, second, isFirst, isSecond, firstWakes ▸ secondWakes ▸ earlier⟩
  · intro t nap napping early
    have sleeps : t ∈ a.waitingList := by
      by_contra up
      have due := (sound.awake t nap napping up).1
      simp only [Nap.due] at due
      omega
    obtain ⟨-, -, -, -, -, unwoken⟩ := sound.asleep t sleeps
    exact ⟨sleeps, (sound.running.sleeping t sleeps).1, unwoken⟩

theorem timerSleep_from_any_tick_example : ∃ a : Alarm, a.nap initialThread = some ⟨1000, 2, 1000⟩ ∧ a.ticks = 1001 ∧
    a.woken initialThread = [] := by
  obtain ⟨a, reached, napping, now⟩ := exists_reached alarmStep
    (fun label a => napsInRange label a.toKernel ∧ createsAwake label a.toKernel)
    (alarmAt 1000 (fun _ => 0) fun _ => ⟨-1, by decide⟩)
    (fun a => a.nap initialThread = some ⟨1000, 2, 1000⟩ ∧ a.ticks = 1001)
    (startUp ++ callThen (.threadCreate 20) 14 ++ callThen (.timerSleep 2) 3 ++ [.interrupt .timer]) (by decide +kernel)
  exact ⟨a, napping, now, ((timerSleep_from_any_tick (by decide) reached).2 _ _ napping (by rw [now]; decide)).2.2⟩

/-- A nap of five ticks that begins right before tick 2 ^ 31 ends at the next tick. -/
theorem timerSleep_wraps : ∃ a, Reaches alarmStep (fun label a => createsAwake label a.toKernel)
      (alarmAt (2 ^ 31 - 2) (fun _ => 0) fun _ => ⟨-1, by decide⟩) a ∧
    a.nap initialThread = some ⟨2 ^ 31 - 2, 5, 2 ^ 31 - 2⟩ ∧ a.ticks = 2 ^ 31 - 1 ∧
      a.woken initialThread = [2 ^ 31 - 1] :=
  exists_reached alarmStep _ _ (fun a => a.nap initialThread = some ⟨2 ^ 31 - 2, 5, 2 ^ 31 - 2⟩ ∧ a.ticks = 2 ^ 31 - 1 ∧
    a.woken initialThread = [2 ^ 31 - 1])
    (startUp ++ callThen (.threadCreate 20) 14 ++ callThen (.timerSleep 5) 3 ++ [.interrupt .timer]) (by decide +kernel)

end Pintos.Threads
