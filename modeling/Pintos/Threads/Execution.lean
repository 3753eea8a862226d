import Pintos.Threads.WellFormed

/-! # The scheduler's data structures along every run

`Running.step`: waking threads, creating them and executing any frame keeps the scheduler well-formed, so it
is well-formed between any two frames, whatever calls, interrupts and context switches happen.
-/

namespace Pintos.Threads

open Pintos.Kernel Function List Option Frame

/-! ## The waiters of a semaphore -/

section Waiters

variable {k : Kernel} {s : SemaId} {rest : List Tid} {first : Tid}

/-- The first waiter, after a sort where there are several, has the highest priority. -/
theorem highest_first
    (sorted : (if 1 < (k.waiters s).length then listSort (higherPriority k.priority) (k.waiters s) else k.waiters s) =
      first :: rest) :
    (first :: rest).Perm (k.waiters s) ∧ ∀ t ∈ k.waiters s, k.priority t ≤ k.priority first := by
  split at sorted
  next =>
    have perm := perm_listSort (Sched.higherPriority_order k.priority) (k.waiters s)
    have ordered := ordered_listSort (Sched.higherPriority_order k.priority) (k.waiters s)
    rw [sorted] at perm ordered
    refine ⟨perm, fun t waits => ?_⟩
    cases mem_cons.mp (perm.mem_iff.mpr waits) with
    | inl isFirst => exact Int.le_of_eq (congrArg k.priority isFirst)
    | inr later => simpa [higherPriority] using (pairwise_cons.mp ordered).1 t later
  next single =>
    rw [sorted] at single ⊢
    have alone : rest = [] := by simpa using single
    subst alone
    exact ⟨.refl _, fun t waits => Int.le_of_eq (congrArg k.priority (mem_singleton.mp waits))⟩

theorem empty_of_sorted
    (sorted : (if 1 < (k.waiters s).length then listSort (higherPriority k.priority)
      (k.waiters s) else k.waiters s) = []) :
    k.waiters s = [] := by
  split at sorted
  next =>
    have perm := perm_listSort (Sched.higherPriority_order k.priority) (k.waiters s)
    rw [sorted] at perm
    exact perm.nil_eq.symm
  next => exact sorted

end Waiters

namespace Sched

/-! ## Waking threads -/

variable {s : Sched} {sema : SemaId}

/-- The first thread of a semaphore's list is taken off it. -/
theorem Running.dropWaiter (h : s.Running) {first : Tid} {rest : List Tid}
    (perm : (first :: rest).Perm (s.waiters sema)) :
    { s with waiters := update s.waiters sema rest }.Running ∧
      { s with waiters := update s.waiters sema rest }.Detached first := by
  have waits : first ∈ s.waiters sema := perm.mem_iff.mp (mem_cons_self ..)
  have nodup := perm.nodup_iff.mpr (h.waitersNodup sema)
  rw [nodup_cons] at nodup
  obtain ⟨blocked, frame, frames, top, waitsFor⟩ := h.waiting sema first waits
  obtain ⟨waiting, sleeping, newborn⟩ := h.of_top top
  have dropped := h.setWaiters nodup.2 fun t member => h.waiting sema t (perm.mem_iff.mp (mem_cons_of_mem _ member))
  refine ⟨{ dropped with running := h.running }, ⟨?_, ?_, ?_, ?_⟩⟩
  · intro other member
    by_cases same : other = sema
    · subst same
      simp only [update_self] at member
      exact nodup.1 member
    · -- The next frame of a thread waits for one semaphore only.
      simp only [update_of_ne same] at member
      exact same (some.inj ((waiting other member).symm.trans waitsFor))
  · intro sleeps
    simp [sleeping sleeps, Frame.waitsFor] at waitsFor
  · intro u born
    simp [newborn u born, Frame.waitsFor] at waitsFor
  · intro isIdle
    exact (h.idle_detached isIdle).2.1 sema waits

variable {k k' : Kernel}

section

variable (h : k.toSched.Running)

include h

theorem Running.semaUp (upped : semaUp sema k = some k') : k'.toSched.Running := by
  simp only [Threads.semaUp] at upped
  have pushed : (k.push [.recalculatePriority, .intrSetLevel k.intr]).toSched.Running :=
    h.push (by simp [plain, isIdle]) (.inl (by simp [idleSafe]))
  split at upped
  next => exact some.inj upped ▸ pushed
  next first rest chosen =>
    obtain ⟨running, detached⟩ := pushed.dropWaiter (highest_first chosen).1
    exact Running.threadUnblock (k := { k.push [.recalculatePriority, .intrSetLevel k.intr] with
      intr := .off
      value := update k.value sema ((k.value sema + 1) % 2 ^ 32)
      waiters := update k.waiters sema rest }) running detached upped

theorem Running.wakeSleepers {sleepers : List Tid} (sleeping : k.waitingList = sleepers)
    (woken : wakeSleepers sleepers k = some k') : k'.toSched.Running := by
  induction sleepers generalizing k with
  | nil => exact some.inj woken ▸ h
  | cons sleeper rest ih =>
    simp only [Threads.wakeSleepers] at woken
    split at woken
    swap
    · exact some.inj woken ▸ h
    split at woken
    · cases woken
    rename_i after unblocked
    have sleeps : sleeper ∈ k.waitingList := by simp [sleeping]
    obtain ⟨blocked, frames, top⟩ := h.sleeping sleeper sleeps
    have nodup := h.sleepersNodup
    rw [sleeping, nodup_cons] at nodup
    have dropped : ({ k with waitingList := rest } : Kernel).toSched.Running :=
      { h with
        sleeping := fun t member => h.sleeping t (by simp [sleeping, show t ∈ rest from member])
        sleepersNodup := nodup.2 }
    obtain ⟨waiting, -, newborn⟩ := h.of_top top
    have detached : ({ k with waitingList := rest } : Kernel).toSched.Detached sleeper :=
      ⟨fun sema waits => (by cases waiting sema waits), nodup.1, fun u born => (by cases newborn u born),
        fun isIdle => (h.idle_detached isIdle).2.2.1 sleeps⟩
    have running := dropped.threadUnblock detached unblocked
    obtain ⟨-, rfl⟩ := threadUnblock_eq unblocked
    exact ih running rfl woken

/-! ## Creating threads -/

theorem Running.initThread (priority : Int) :
    ({ initThread k.nextThread priority k with nextThread := k.nextThread + 1 } : Kernel).toSched.Running := by
  obtain ⟨dying, empty⟩ := h.fresh k.nextThread (Nat.le_refl _)
  have other : ∀ {t}, k.status t ≠ .dying → t ≠ k.nextThread := fun alive same => alive (same ▸ dying)
  have ready {t : Tid} (isReady : t ∈ k.readyList) : t ≠ k.nextThread :=
    other (by simp [((h.mem_ready t).mp isReady).1])
  have stackOther : ∀ {t frame}, frame ∈ update k.stack k.nextThread kernelThread t →
      frame.plain = false ∨ frame.isIdle → t ≠ k.nextThread := by
    rintro t frame member special rfl
    simp only [update_self, kernelThread, mem_singleton] at member
    subst member
    simp [plain, isIdle] at special
  exact { h with
    running := by
      have different := other (t := k.current) (by simp [h.running])
      simpa [Threads.initThread, different] using h.running
    fresh := by
      intro t late
      have different : t ≠ k.nextThread := by
        rintro rfl
        exact absurd late (Nat.not_succ_le_self _)
      simpa [Threads.initThread, different] using h.fresh t (Nat.le_of_succ_le late)
    mem_ready := by
      intro t
      by_cases same : t = k.nextThread
      · subst same
        simpa [Threads.initThread, dying] using h.mem_ready k.nextThread
      · simpa [Threads.initThread, same] using h.mem_ready t
    ordered := by
      refine h.ordered.imp_of_mem ?_
      intro a b aReady bReady below
      simpa [Threads.initThread, higherPriority, ready aReady, ready bReady] using below
    inOrder := by
      refine h.inOrder.imp_of_mem ?_
      intro a b aReady bReady inOrder
      simpa [Threads.initThread, InOrder, ready aReady, ready bReady] using inOrder
    waiting := by
      intro sema t member
      have waits := h.waiting sema t member
      simpa [Threads.initThread, other (t := t) (by simp [waits.1])] using waits
    sleeping := by
      intro t member
      have sleeps := h.sleeping t member
      simpa [Threads.initThread, other (t := t) (by simp [sleeps.1])] using sleeps
    newborn := by
      intro u t member
      have different := stackOther member (.inl rfl)
      have born := h.newborn u t (by simpa [Threads.initThread, different] using member)
      simpa [Threads.initThread, other (t := t) (by simp [born.1])] using born
    oneCreator := by
      intro u v t first second
      have uOther := stackOther first (.inl rfl)
      have vOther := stackOther second (.inl rfl)
      exact h.oneCreator u v t (by simpa [Threads.initThread, uOther] using first)
        (by simpa [Threads.initThread, vOther] using second)
    oneBirth := by
      intro u t
      by_cases same : u = k.nextThread
      · subst same
        simp [Threads.initThread, kernelThread]
      · simpa [Threads.initThread, same] using h.oneBirth u t
    idleCode := by
      intro t frame member isIdle
      have different := stackOther member (.inr isIdle)
      simp only [Threads.initThread, ne_eq, different, not_false_eq_true, update_of_ne] at member ⊢
      exact h.idleCode t frame member isIdle
    idleLoops := by
      intro t isIdle
      have different : t ≠ k.nextThread := by
        rintro rfl
        exact absurd (h.idle_detached isIdle).1 (Nat.lt_irrefl _)
      simpa [Threads.initThread, different] using h.idleLoops t isIdle }

variable {t : Tid}

omit h in
/-- The creator of a new thread keeps the only `createTail` frame for it. -/
theorem Running.pushBirth (h : s.Running) (unborn : s.Unborn t)
    (notIdle : ∀ frame ∈ s.stack s.current, frame.isIdle = false) :
    { s with stack := update s.stack s.current (.createTail t :: s.stack s.current) }.Running := by
  refine h.setStack (fun u member => ?_) (fun u => ?_) (fun frame member isIdle => ?_) (fun isIdle => ?_)
  · rw [mem_cons, createTail.injEq] at member
    rcases member with rfl | before
    · exact .inr unborn
    · exact .inl before
  · by_cases same : u = t
    · simp [same, count_eq_zero.mpr (unborn.2 s.current)]
    · have different : (createTail t == createTail u) = false := by simp [Ne.symm same]
      simpa [count_cons, different] using h.oneBirth s.current u
  · rcases mem_cons.mp member with rfl | before
    · simp [Frame.isIdle] at isIdle
    · simp [notIdle frame before] at isIdle
  · obtain ⟨frame, member, loops⟩ := (h.idleLoops _ isIdle).2
    exact ⟨frame, mem_cons_of_mem _ member, loops⟩

theorem Running.threadCreate {priority : Int} (notIdle : ∀ frame ∈ k.stack k.current, frame.isIdle = false)
    (created : threadCreate priority k = some k') : k'.toSched.Running := by
  simp only [Threads.threadCreate] at created
  split_ifs at created
  have dying := (h.fresh k.nextThread (Nat.le_refl _)).1
  have different : k.current ≠ k.nextThread := fun same => by simp [← same, h.running] at dying
  have unborn : ({ Threads.initThread k.nextThread priority k with
      nextThread := k.nextThread + 1 } : Kernel).toSched.Unborn k.nextThread := by
    refine ⟨by simp [Threads.initThread], fun u born => ?_⟩
    by_cases same : u = k.nextThread
    · simp [Threads.initThread, same, kernelThread] at born
    · have before : .createTail k.nextThread ∈ k.stack u := by simpa [Threads.initThread, same] using born
      simpa [dying] using (h.newborn u _ before).1
  have owned := (h.initThread priority).pushBirth unborn (by simpa [Threads.initThread, different] using notIdle)
  have plain : ∀ frame ∈ invoke (.lockAcquire tidLock) ++ invoke (.lockRelease tidLock), frame.plain := by
    simp [invoke, plain, isIdle]
  have pushed := owned.push plain (.inr (by simpa [Threads.initThread, different, isIdle] using notIdle))
  rw [← some.inj created]
  simpa [Kernel.push, Threads.initThread, append_assoc] using pushed

/-! ## Executing a frame -/

variable {rest : List Frame}

omit h in
/-- A thread that called `thread_block` itself is in no list. -/
theorem Running.parked_detached (h : s.Running) (parked : s.stack t = .parked :: rest) : s.Detached t where
  waiters sema waits := nomatch (h.of_top parked).1 sema waits
  waitingList sleeps := nomatch (h.of_top parked).2.1 sleeps
  creator u born := nomatch (h.of_top parked).2.2 u born
  idleThread isIdle := nomatch h.idle_code isIdle .parked (by simp [parked])

/-- The ending of a frame switches to the right thread, if to any. -/
theorem Running.ending {ending : Ending} (born : ∀ t, ending = .unblock t → k.toSched.Detached t)
    (run : ending.run k = some k') : k'.toSched.Running ∧ (k'.current = k.current ∨ k'.toSched.Fair) := by
  cases ending with
  | stay => exact some.inj run ▸ ⟨h, .inl rfl⟩
  | block => exact ⟨h.threadBlock run, .inr (schedule_fair (threadBlock_eq run) h.ordered h.inOrder)⟩
  | exit => exact ⟨(h.stop .dying (.inl (by simp))).schedule run, .inr (schedule_fair run h.ordered h.inOrder)⟩
  | yield => exact ⟨h.threadYield run, .inr (h.threadYield_fair run)⟩
  | unblock t =>
    refine ⟨h.threadUnblock (born t rfl) run, .inl ?_⟩
    obtain ⟨-, rfl⟩ := threadUnblock_eq run
    rfl
  | setPriority newPriority t => exact h.specificThreadSetPriority_cases run
  | up s => exact ⟨h.semaUp run, .inl (semaUp_current run)⟩

variable {frame : Frame} {label : Label}

/-- One frame of code other than that of `idle`. -/
theorem Running.exec (notIdle : frame.isIdle = false)
    (idle : frame.idleSafe ∨ ∀ other ∈ k.stack k.current, other.isIdle = false)
    (birth : ∀ t, frame = .createTail t → k.toSched.Detached t) (executed : exec frame k = some k') :
    k'.toSched.Running ∧ (k'.current = k.current ∨ k'.toSched.Fair) := by
  have noIdle : frame.idleSafe = false → ∀ other ∈ k.stack k.current, other.isIdle = false :=
    fun notSafe => idle.resolve_left (by simp [notSafe])
  obtain ⟨change, frames, ending, effect, run⟩ := exec_effect executed
  have ends := fun pushed born => Running.ending (k := change.push frames) pushed born run
  cases effect with
  | threadCreate priority => exact ⟨h.threadCreate (noIdle rfl) executed, some.inj run ▸ .inl rfl⟩
  | threadUnblock t rest parked =>
    rw [push_nil] at ends
    apply ends h
    rintro u ⟨⟩
    exact h.parked_detached parked
  | condWait cond lock =>
    have cleared : { k.toSched with waiters := update k.waiters (.waiter k.current) [] }.Running :=
      { h.setWaiters nodup_nil nofun with running := h.running }
    exact ends (cleared.push (by simp [invoke, plain, isIdle]) (.inr (noIdle rfl))) (by simp)
  | semaWait | lockWait =>
    exact ⟨h.semaWait rfl (noIdle rfl) run, .inr (schedule_fair (threadBlock_eq run) h.ordered h.inOrder)⟩
  | createTail t =>
    apply ends (h.push (by simp [plain, isIdle]) (.inr (noIdle rfl)))
    rintro _ ⟨⟩
    refine { birth t rfl with creator := fun u born => (birth t rfl).creator u ?_ }
    by_cases mine : u = k.current
    · simpa [Kernel.push, mine] using born
    · simpa [Kernel.push, mine] using born
  | sleep start ticks =>
    exact ⟨h.timerSleep (noIdle rfl) executed, .inr (schedule_fair (threadBlock_eq run) h.ordered h.inOrder)⟩
  | idleStart | idleLoop | idleHalt => cases notIdle
  | _ =>
    -- The frame has left the threads and their lists alone, apart from its own stack.
    refine ends (h.push (by simp [invoke, plain, isIdle]) ?_) (by simp)
    first
      | exact .inr (noIdle rfl)
      | exact .inl (by simp [idleSafe])

omit h in
theorem Running.setIdle (h : s.Running) (isIdle : s.current = idleTid)
    (looping : ∃ frame ∈ s.stack s.current, frame.loops) : { s with idleThread := some s.current }.Running :=
  { h with
    mem_ready := by
      intro t
      by_cases same : t = s.current
      · have member := h.mem_ready s.current
        rw [h.running] at member
        subst same
        simp [h.running, member]
      · -- An idle thread known before is this one.
        have before : s.idleThread ≠ some t := fun known => same ((h.idleLoops t known).1.trans isIdle.symm)
        simpa [before, Ne.symm same] using h.mem_ready t
    idleLoops := by
      rintro t ⟨⟩
      exact ⟨isIdle, looping⟩ }

/-- The code of `idle`, which keeps its own loop on the stack. -/
theorem Running.execIdle (top : k.stack k.current = frame :: rest) (isIdle : frame.isIdle)
    (executed : Threads.exec frame { k with stack := update k.stack k.current rest } = some k') :
    k'.toSched.Running ∧ (k'.current = k.current ∨ k'.toSched.Fair) := by
  obtain ⟨idleThread, code⟩ := h.idleCode k.current frame (by simp [top]) isIdle
  rw [top] at code
  have replace : ∀ frames : List Frame, (∀ t, .createTail t ∉ frames) → (∀ other ∈ frames, other.idleSafe) →
      (∃ other ∈ frames, other.loops) →
      { k.toSched with stack := update k.stack k.current (frames ++ rest) }.Running := by
    intro frames notBirth safe ⟨loop, member, loops⟩
    refine h.setStack (fun t member => ?_) (fun t => ?_) (fun other _ _ => ⟨idleThread, fun g inNew => ?_⟩)
      (fun _ => ⟨loop, mem_append_left _ member, loops⟩)
    · exact .inl (top ▸ mem_cons_of_mem _ ((mem_append.mp member).resolve_left (notBirth t)))
    · have once := h.oneBirth k.current t
      rw [top] at once
      simpa [count_eq_zero.mpr (notBirth t)] using count_le_count_cons.trans once
    · rcases mem_append.mp inNew with pushed | inRest
      · exact safe g pushed
      · exact code g (mem_cons_of_mem _ inRest)
  cases frame with
  | idleStart =>
    rw [← some.inj executed]
    have started := replace (invoke (.semaUp .idleStarted) ++ [.idleLoop]) (by simp [invoke])
      (by simp [invoke, idleSafe]) (by simp [loops])
    exact ⟨by simpa [Kernel.push] using started.setIdle idleThread ⟨.idleLoop, by simp, rfl⟩, .inl rfl⟩
  | idleLoop =>
    refine ⟨Running.threadBlock ?_ executed, .inr (schedule_fair (threadBlock_eq executed) h.ordered h.inOrder)⟩
    simpa [Kernel.push] using replace [.idleHalt] (by simp) (by simp [idleSafe]) (by simp [loops])
  | idleHalt =>
    rw [← some.inj executed]
    refine ⟨?_, .inl rfl⟩
    simpa [Kernel.push] using replace [.idleLoop] (by simp) (by simp [idleSafe]) (by simp [loops])
  | _ => cases isIdle

omit h in
/-- The frame that starts a new thread is taken off its creator's stack. -/
theorem Running.born_detached (h : s.Running) (top : s.stack s.current = .createTail t :: rest) :
    { s with stack := update s.stack s.current rest }.Detached t := by
  have mine : .createTail t ∈ s.stack s.current := by simp [top]
  obtain ⟨blocked, unstarted⟩ := h.newborn s.current t mine
  obtain ⟨waiting, sleeping, -⟩ := h.of_top unstarted
  refine ⟨fun sema waits => (nomatch waiting sema waits), fun sleeps => (nomatch sleeping sleeps), fun u born => ?_,
    fun isIdle => (h.idle_detached isIdle).2.2.2 s.current mine⟩
  · by_cases same : u = s.current
    · subst same
      simp only [update_self] at born
      have once := h.oneBirth s.current t
      rw [top, count_cons_self] at once
      exact absurd (count_pos_iff.mpr born) (by omega)
    · simp only [update_of_ne same] at born
      exact same (h.oneCreator u s.current t born mine)

/-- The running thread, outside `idle`, has taken its next frame off its stack. -/
theorem Running.popped (top : k.stack k.current = frame :: rest) (notIdle : frame.isIdle = false) :
    ({ k with stack := update k.stack k.current rest } : Kernel).toSched.Running ∧
      (frame.idleSafe ∨ ∀ other ∈ update k.stack k.current rest k.current, other.isIdle = false) := by
  have notLoop : frame.loops = false := by cases frame <;> simp_all [loops, isIdle]
  refine ⟨h.pop top notLoop, ?_⟩
  cases safe : frame.idleSafe with
  | true => exact .inl rfl
  | false =>
    refine .inr fun other member => eq_false_of_ne_true fun otherIdle => ?_
    simp only [update_self] at member
    have code := (h.idleCode k.current other (by simp [top, member]) otherIdle).2 frame (by simp [top])
    simp [safe] at code

theorem Running.intrHandler {handler : Handler} (handled : intrHandler handler k = some k') : k'.toSched.Running := by
  have pushed : (k.push [.intrExit, .iret]).toSched.Running :=
    h.push (by simp [plain, isIdle]) (.inl (by simp [idleSafe]))
  cases handler with
  | timer =>
    simp only [Threads.intrHandler, timerInterrupt] at handled
    refine Running.wakeSleepers ?_ ?_ handled
    · exact pushed
    · rfl
  | device s =>
    refine Running.semaUp ?_ handled
    exact pushed

/-- Every step keeps the scheduler well-formed, and a step that switches to another thread switches to the right one. -/
theorem Running.step_fair (stepped : step label k = some k') :
    k'.toSched.Running ∧ (k'.current = k.current ∨ k'.toSched.Fair) := by
  cases step_cases stepped with
  | @run frame rest top executed =>
    cases isIdle : frame.isIdle with
    | true => exact h.execIdle top isIdle executed
    | false =>
      obtain ⟨popped, idle⟩ := h.popped top isIdle
      apply popped.exec isIdle idle _ executed
      rintro t rfl
      exact h.born_detached top
  | call outside isPublic pushed =>
    rw [pushed]
    exact ⟨h.push (by simp [invoke, plain, isIdle]) (.inr (by simp [outside])), .inl rfl⟩
  | timer _ handled => exact ⟨h.intrHandler handled, .inl ((wakeSleepers_current handled).trans rfl)⟩
  | device _ handled => exact ⟨h.intrHandler handled, .inl ((semaUp_current handled).trans rfl)⟩

theorem Running.step (stepped : step label k = some k') : k'.toSched.Running :=
  (h.step_fair stepped).1

end

/-- A law of all frames at the start. -/
theorem boot_frames {semaInit : Nat → Nat} {tailWord : SemaId → { word : Int // word < 0 }} {law : Tid → Frame → Prop}
    (initial : ∀ frame ∈ .intrSetLevel .on :: invoke (.semaDown .idleStarted), law initialThread frame)
    (idle : ∀ frame ∈ kernelThread ++ [.idleStart], law idleTid frame) :
    ∀ t, ∀ frame ∈ (boot semaInit tailWord).stack t, law t frame := by
  intro t
  simp only [boot]
  split
  next isInitial => exact isInitial ▸ initial
  next =>
    split
    next isIdle => exact isIdle ▸ idle
    next => nofun

theorem running_boot (semaInit : Nat → Nat) (tailWord : SemaId → { word : Int // word < 0 }) :
    (boot semaInit tailWord).toSched.Running := by
  have noBirth (u t : Tid) : .createTail t ∉ (boot semaInit tailWord).stack u := fun born =>
    @boot_frames _ _ (fun _ frame => frame ≠ .createTail t) (by simp [invoke]) (by simp [kernelThread]) u _ born rfl
  exact {
    running := rfl
    fresh := by
      intro t late
      have started : t ≠ initialThread ∧ t ≠ idleTid := by
        constructor <;> rintro rfl <;> simp [boot, initialThread, idleTid] at late
      simp [boot, started]
    readyNodup := by simp [boot]
    mem_ready := by
      intro t
      simp only [boot, mem_singleton]
      by_cases isIdle : t = idleTid
      · simp [isIdle, idleTid, initialThread]
      · simp only [isIdle, false_iff, if_false]
        split <;> simp
    ordered := pairwise_singleton ..
    inOrder := pairwise_singleton ..
    stamped := by simp [boot]
    waiting := by simp [boot]
    waitersNodup := by simp [boot]
    sleeping := by simp [boot]
    sleepersNodup := by simp [boot]
    newborn := fun u t born => absurd born (noBirth u t)
    oneCreator := fun u v t born => absurd born (noBirth u t)
    oneBirth := fun u t => by simp [count_eq_zero.mpr (noBirth u t)]
    idleCode := boot_frames (by simp [invoke, isIdle])
      (by simp [boot, idleTid, initialThread, kernelThread, idleSafe])
    idleLoops := by simp [boot] }

end Sched

end Pintos.Threads
