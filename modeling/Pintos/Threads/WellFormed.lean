import Pintos.Threads.Effects

/-! # The scheduler's data structures

`WellFormed` says where each thread's `elem` is: the ready list holds the ready threads, in order, and a
blocked thread is in the list that its next frame waits on.  This module shows that pushing frames, entering
and leaving the ready list, giving up the processor and writing a priority keep it.
-/

namespace Pintos.Threads

open Pintos.Kernel Function List Frame

variable {frame : Frame}

namespace Frame

/-- The semaphore that a blocked thread with this frame on top waits for. -/
def waitsFor : Frame → Option SemaId
  | .semaDownLoop s _ => some s
  | .lockDown lock _ => some (.lock lock)
  | _ => none

def isIdle : Frame → Bool
  | .idleStart | .idleLoop | .idleHalt => true
  | _ => false

/-- The loop of `idle`, after it has set `idle_thread`. -/
def loops : Frame → Bool
  | .idleLoop | .idleHalt => true
  | _ => false

/-- What the idle thread executes: its own code, one `sema_up`, and interrupts. -/
def idleSafe : Frame → Bool
  | .call (.semaUp .idleStarted) | .ret _ | .intrSetLevel _ | .specificThreadSetPriority _
  | .recalculatePriority | .intrExit | .iret | .idleStart | .idleLoop | .idleHalt => true
  | _ => false

/-- Frames that may be pushed on any stack. -/
def plain : Frame → Bool
  | .createTail _ => false
  | frame => !frame.isIdle

theorem isIdle_of_plain (isPlain : frame.plain) : frame.isIdle = false := by
  cases frame <;> simp_all [plain, isIdle]

end Frame

namespace Sched

/-- Of two threads with equal priorities, neither written since it was inserted, the first came first. -/
def InOrder (s : Sched) (a b : Tid) : Prop :=
  s.priority a = s.priority b → s.reprioritised a = false → s.reprioritised b = false → s.readySince a < s.readySince b

structure WellFormed (s : Sched) : Prop where
  fresh : ∀ t, s.nextThread ≤ t → s.status t = .dying ∧ s.stack t = []
  -- The ready list.
  readyNodup : s.readyList.Nodup
  mem_ready : ∀ t, t ∈ s.readyList ↔ s.status t = .ready ∧ s.idleThread ≠ some t
  ordered : Ordered (higherPriority s.priority) s.readyList
  inOrder : s.readyList.Pairwise s.InOrder
  stamped : ∀ t ∈ s.readyList, s.readySince t < s.clock
  -- The lists of waiting and sleeping threads.
  waiting : ∀ sema, ∀ t ∈ s.waiters sema,
    s.status t = .blocked ∧ ∃ frame rest, s.stack t = frame :: rest ∧ frame.waitsFor = some sema
  waitersNodup : ∀ sema, (s.waiters sema).Nodup
  sleeping : ∀ t ∈ s.waitingList, s.status t = .blocked ∧ ∃ rest, s.stack t = .slept :: rest
  sleepersNodup : s.waitingList.Nodup
  -- Threads between `init_thread` and `thread_unblock` have one creator.
  newborn : ∀ u t, .createTail t ∈ s.stack u → s.status t = .blocked ∧ s.stack t = kernelThread
  oneCreator : ∀ u v t, .createTail t ∈ s.stack u → .createTail t ∈ s.stack v → u = v
  oneBirth : ∀ u t, (s.stack u).count (.createTail t) ≤ 1
  -- The idle thread.
  idleCode : ∀ t, ∀ frame ∈ s.stack t, frame.isIdle → t = idleTid ∧ ∀ other ∈ s.stack t, other.idleSafe
  idleLoops : ∀ t, s.idleThread = some t → t = idleTid ∧ ∃ frame ∈ s.stack t, frame.loops

/-- Well-formed, and the current thread is running. -/
structure Running (s : Sched) : Prop extends WellFormed s where
  running : s.status s.current = .running

/-- The running thread has maximal priority, and came first among the ready threads of its priority. -/
def Fair (s : Sched) : Prop :=
  ∀ t ∈ s.readyList, s.priority t ≤ s.priority s.current ∧ s.InOrder s.current t

/-- Nothing in the kernel but its own stack refers to the thread. -/
structure Detached (s : Sched) (t : Tid) : Prop where
  waiters : ∀ sema, t ∉ s.waiters sema
  waitingList : t ∉ s.waitingList
  creator : ∀ u, .createTail t ∉ s.stack u
  idleThread : s.idleThread ≠ some t

/-- A new thread that nobody is about to start yet. -/
def Unborn (s : Sched) (t : Tid) : Prop :=
  (s.status t = .blocked ∧ s.stack t = kernelThread) ∧ ∀ u, .createTail t ∉ s.stack u

variable {s : Sched} {t : Tid}

theorem status_kept {u : Tid} {status new : ThreadStatus} (different : u ≠ t) (was : s.status u = status) :
    update s.status t new u = status :=
  (update_of_ne different ..).trans was

theorem WellFormed.lt_nextThread (h : s.WellFormed) (alive : s.status t ≠ .dying) : t < s.nextThread := by
  by_contra late
  exact alive (h.fresh t (Nat.le_of_not_lt late)).1

theorem Running.created (h : s.Running) : s.current ≠ s.nextThread :=
  (h.lt_nextThread (by simp [h.running])).ne

/-- A thread is found in the lists that its next frame belongs to. -/
theorem WellFormed.of_top (h : s.WellFormed) {rest : List Frame} (top : s.stack t = frame :: rest) :
    (∀ sema, t ∈ s.waiters sema → frame.waitsFor = some sema) ∧ (t ∈ s.waitingList → frame = .slept) ∧
      ∀ u, .createTail t ∈ s.stack u → frame = .intrSetLevel .on := by
  refine ⟨fun sema waits => ?_, fun sleeps => ?_, fun u born => ?_⟩
  · obtain ⟨-, other, rest', top', waitsFor⟩ := h.waiting sema t waits
    obtain ⟨rfl, -⟩ := cons.inj (top.symm.trans top')
    exact waitsFor
  · obtain ⟨-, rest', top'⟩ := h.sleeping t sleeps
    exact (cons.inj (top.symm.trans top')).1
  · exact (cons.inj (top.symm.trans (h.newborn u t born).2)).1

theorem WellFormed.idle_code (h : s.WellFormed) (isIdle : s.idleThread = some t) : ∀ frame ∈ s.stack t,
    frame.idleSafe := by
  obtain ⟨-, loop, member, loops⟩ := h.idleLoops t isIdle
  exact (h.idleCode t loop member (by cases loop <;> simp_all [Frame.loops, Frame.isIdle])).2

theorem WellFormed.setWaiters (h : s.WellFormed) {sema : SemaId} {list : List Tid} (nodup : list.Nodup)
    (waits : ∀ t ∈ list, s.status t = .blocked ∧ ∃ frame rest, s.stack t = frame :: rest ∧ frame.waitsFor = some sema) :
    { s with waiters := update s.waiters sema list }.WellFormed :=
  { h with
    waiting := by
      intro other t member
      by_cases same : other = sema
      · subst same
        exact waits t (by simpa using member)
      · exact h.waiting other t (by simpa [same] using member)
    waitersNodup := by
      intro other
      by_cases same : other = sema
      · subst same
        simpa using nodup
      · simpa [same] using h.waitersNodup other }

/-! ## Changing the stack of the running thread -/

theorem Running.setStack (h : s.Running) {new : List Frame}
    (births : ∀ t, .createTail t ∈ new → .createTail t ∈ s.stack s.current ∨ s.Unborn t)
    (once : ∀ t, new.count (.createTail t) ≤ 1)
    (idle : ∀ frame ∈ new, frame.isIdle → s.current = idleTid ∧ ∀ other ∈ new, other.idleSafe)
    (loops : s.idleThread = some s.current → ∃ frame ∈ new, frame.loops) :
    { s with stack := update s.stack s.current new }.Running := by
  have other : ∀ {t}, s.status t ≠ .running → update s.stack s.current new t = s.stack t := by
    intro t notRunning
    refine update_of_ne (fun same => notRunning ?_) ..
    rw [same, h.running]
  have inherited : ∀ {u t}, .createTail t ∈ update s.stack s.current new u →
      .createTail t ∈ s.stack u ∨ s.Unborn t ∧ u = s.current := by
    intro u t member
    by_cases same : u = s.current
    · subst same
      rw [update_self] at member
      exact (births t member).imp_right fun unborn => ⟨unborn, rfl⟩
    · rw [update_of_ne same] at member
      exact .inl member
  exact { h with
    fresh := by
      intro t late
      obtain ⟨dying, empty⟩ := h.fresh t late
      exact ⟨dying, (other (by simp [dying])).trans empty⟩
    waiting := by
      intro sema t member
      obtain ⟨blocked, frame, rest, top, waits⟩ := h.waiting sema t member
      exact ⟨blocked, frame, rest, (other (by simp [blocked])).trans top, waits⟩
    sleeping := by
      intro t member
      obtain ⟨blocked, rest, top⟩ := h.sleeping t member
      exact ⟨blocked, rest, (other (by simp [blocked])).trans top⟩
    newborn := by
      intro u t member
      obtain ⟨blocked, unstarted⟩ : s.status t = .blocked ∧ s.stack t = kernelThread := by
        rcases inherited member with before | ⟨unborn, -⟩
        · exact h.newborn u t before
        · exact unborn.1
      exact ⟨blocked, (other (by simp [blocked])).trans unstarted⟩
    oneCreator := by
      intro u v t first second
      rcases inherited first with before | ⟨unborn, rfl⟩ <;> rcases inherited second with before' | ⟨unborn', rfl⟩
      · exact h.oneCreator u v t before before'
      · exact absurd before (unborn'.2 u)
      · exact absurd before' (unborn.2 v)
      · rfl
    oneBirth := by
      intro u t
      by_cases same : u = s.current
      · subst same
        simpa using once t
      · simpa [same] using h.oneBirth u t
    idleCode := by
      intro t frame member isIdle
      by_cases same : t = s.current
      · subst same
        simp only [update_self] at member ⊢
        exact idle frame member isIdle
      · simp only [update_of_ne same] at member ⊢
        exact h.idleCode t frame member isIdle
    idleLoops := by
      intro t isIdle
      refine ⟨(h.idleLoops t isIdle).1, ?_⟩
      by_cases same : t = s.current
      · subst same
        simpa using loops isIdle
      · simpa [same] using (h.idleLoops t isIdle).2 }

/-- The running thread takes its next frame off its stack, unless it is the loop of `idle`. -/
theorem Running.pop (h : s.Running) {rest : List Frame} (top : s.stack s.current = frame :: rest)
    (notLoop : frame.loops = false) : { s with stack := update s.stack s.current rest }.Running := by
  refine h.setStack (fun t member => .inl (top ▸ mem_cons_of_mem _ member)) (fun t => ?_)
    (fun other member isIdle => ?_) (fun isIdle => ?_)
  · refine count_le_count_cons.trans (b := (frame :: rest).count (.createTail t)) ?_
    exact top ▸ h.oneBirth s.current t
  · have code := h.idleCode s.current other (top ▸ mem_cons_of_mem _ member) isIdle
    exact ⟨code.1, fun g inRest => code.2 g (top ▸ mem_cons_of_mem _ inRest)⟩
  · obtain ⟨other, member, otherLoops⟩ := (h.idleLoops _ isIdle).2
    rw [top] at member
    cases member with
    | head => simp [notLoop] at otherLoops
    | tail _ inRest => exact ⟨other, inRest, otherLoops⟩

/-- Frames pushed in front of the stack: none of them creates a thread or is code of `idle`, and a thread that
executes `idle` only gets what belongs there. -/
theorem Running.push (h : s.Running) {frames : List Frame} (plain : ∀ frame ∈ frames, frame.plain)
    (safe : (∀ frame ∈ frames, frame.idleSafe) ∨ ∀ frame ∈ s.stack s.current, frame.isIdle = false) :
    { s with stack := update s.stack s.current (frames ++ s.stack s.current) }.Running := by
  have notBirth : ∀ t, .createTail t ∉ frames := fun t member => by simpa [Frame.plain] using plain _ member
  have notIdle : ∀ frame ∈ frames, frame.isIdle = false :=
    fun frame member => Frame.isIdle_of_plain (plain frame member)
  refine h.setStack (fun t member => .inl ?_) (fun t => ?_) (fun frame member isIdle => ?_) (fun isIdle => ?_)
  · exact (mem_append.mp member).resolve_left (notBirth t)
  · simpa [count_eq_zero.mpr (notBirth t)] using h.oneBirth s.current t
  · rcases mem_append.mp member with pushed | inStack
    · simp [notIdle frame pushed] at isIdle
    · obtain ⟨idleThread, code⟩ := h.idleCode _ frame inStack isIdle
      refine ⟨idleThread, fun other otherMember => ?_⟩
      rcases mem_append.mp otherMember with pushed | inStack'
      · rcases safe with safe | noIdle
        · exact safe other pushed
        · simp [noIdle frame inStack] at isIdle
      · exact code other inStack'
  · obtain ⟨frame, member, loops⟩ := (h.idleLoops _ isIdle).2
    exact ⟨frame, mem_append_right _ member, loops⟩

/-! ## Entering and leaving the ready list -/

theorem higherPriority_order (priority : Tid → Int) : StrictWeakOrder (higherPriority priority) :=
  .ofKey priority

variable {k : Kernel}

/-- A thread that no list holds becomes ready. -/
theorem WellFormed.insertReady (h : k.toSched.WellFormed) (detached : k.toSched.Detached t)
    (alive : k.status t = .blocked ∨ k.status t = .running) :
    { insertReady t k with status := update k.status t .ready }.toSched.WellFormed := by
  have notReady : t ∉ k.readyList := by
    rw [h.mem_ready]
    rcases alive with blocked | running <;> simp_all
  have other : ∀ {u}, u ∈ k.readyList → u ≠ t := fun member same => notReady (same ▸ member)
  exact { h with
    fresh := by
      intro u late
      have different : u ≠ t := by
        rintro rfl
        have dying := (h.fresh u late).1
        rcases alive with blocked | running <;> simp_all
      exact (h.fresh u late).imp_left (status_kept different)
    readyNodup := by
      simp only [Threads.insertReady]
      exact (perm_listInsertOrdered t k.readyList).nodup_iff.mpr (nodup_cons.mpr ⟨notReady, h.readyNodup⟩)
    mem_ready := by
      intro u
      simp only [Threads.insertReady, mem_listInsertOrdered]
      by_cases same : u = t
      · subst same
        simp [detached.idleThread]
      · simpa [same] using h.mem_ready u
    ordered := ordered_listInsertOrdered (higherPriority_order _) h.ordered
    inOrder := by
      -- The new thread carries the latest stamp and lands behind all threads of its priority.
      refine pairwise_listInsertOrdered (higherPriority_order _) h.ordered (h.inOrder.imp_of_mem ?_) ?_ ?_
      · intro a b inReady inReady' inOrder
        simpa [InOrder, Threads.insertReady, other inReady, other inReady'] using inOrder
      · intro e inReady _ _ _ _
        simpa [Threads.insertReady, other inReady] using h.stamped e inReady
      · intro e inReady higher samePriority
        simp only [higherPriority, decide_eq_true_eq] at higher
        simp only [Threads.insertReady] at samePriority
        omega
    stamped := by
      intro u member
      simp only [Threads.insertReady, mem_listInsertOrdered] at member ⊢
      by_cases same : u = t
      · simp [same]
      · have inReady : u ∈ k.readyList := by simpa [same] using member
        simpa [same] using Nat.lt_succ_of_lt (h.stamped u inReady)
    waiting := fun sema u member =>
      (h.waiting sema u member).imp_left (status_kept fun same => detached.waiters sema (same ▸ member))
    sleeping := fun u member =>
      (h.sleeping u member).imp_left (status_kept fun same => detached.waitingList (same ▸ member))
    newborn := fun v u member =>
      (h.newborn v u member).imp_left (status_kept fun same => detached.creator v (same ▸ member)) }

variable {k' : Kernel} {newPriority : Int}

theorem Running.threadUnblock (h : k.toSched.Running) (detached : k.toSched.Detached t)
    (unblocked : threadUnblock t k = some k') : k'.toSched.Running := by
  obtain ⟨blocked, rfl⟩ := threadUnblock_eq unblocked
  refine { h.toWellFormed.insertReady detached (.inl blocked) with running := ?_ }
  have different : k.current ≠ t := by
    rintro rfl
    simp [h.running] at blocked
  simpa [Threads.insertReady, different] using h.running

/-- A thread that no waiting list holds is taken off the ready list and runs. -/
theorem WellFormed.dispatch (h : s.WellFormed) {next : Tid} {rest : List Tid} (sublist : rest.Sublist s.readyList)
    (taken : ∀ t, t ∈ rest ↔ t ∈ s.readyList ∧ t ≠ next) (created : next < s.nextThread)
    (waiters : ∀ sema, next ∉ s.waiters sema) (awake : next ∉ s.waitingList)
    (born : ∀ u, .createTail next ∉ s.stack u) :
    { s with readyList := rest, current := next, status := update s.status next .running }.Running :=
  { h with
    running := by simp
    fresh := fun t late =>
      (h.fresh t late).imp_left (status_kept fun same => absurd late (Nat.not_le_of_lt (same ▸ created)))
    readyNodup := h.readyNodup.sublist sublist
    mem_ready := by
      intro t
      by_cases same : t = next
      · simp [taken, same]
      · simpa [taken, same] using h.mem_ready t
    ordered := h.ordered.sublist sublist
    inOrder := h.inOrder.sublist sublist
    stamped := fun t member => h.stamped t (sublist.subset member)
    waiting := fun sema t member =>
      (h.waiting sema t member).imp_left (status_kept fun same => waiters sema (same ▸ member))
    sleeping := fun t member => (h.sleeping t member).imp_left (status_kept fun same => awake (same ▸ member))
    newborn := fun u t member => (h.newborn u t member).imp_left (status_kept fun same => born u (same ▸ member)) }

/-- Every frame of the idle thread belongs to `idle`, so it waits nowhere. -/
theorem WellFormed.idle_detached (h : s.WellFormed) {idle : Tid} (isIdle : s.idleThread = some idle) :
    idle < s.nextThread ∧ (∀ sema, idle ∉ s.waiters sema) ∧ idle ∉ s.waitingList ∧
      ∀ u, .createTail idle ∉ s.stack u := by
  obtain ⟨-, loop, member, loops⟩ := h.idleLoops idle isIdle
  have code := h.idle_code isIdle
  refine ⟨?_, fun sema waits => ?_, fun sleeps => ?_, fun u born => ?_⟩
  · by_contra late
    simp [(h.fresh idle (Nat.le_of_not_lt late)).2] at member
  · obtain ⟨-, frame, rest, top, waitsFor⟩ := h.waiting sema idle waits
    have safe := code frame (by simp [top])
    cases frame <;> simp_all [Frame.waitsFor, Frame.idleSafe]
  · obtain ⟨-, rest, top⟩ := h.sleeping idle sleeps
    simpa [Frame.idleSafe] using code .slept (by simp [top])
  · obtain ⟨-, unstarted⟩ := h.newborn u idle born
    rw [unstarted] at member
    simp only [kernelThread, mem_singleton] at member
    simp [member, Frame.loops] at loops

theorem WellFormed.schedule (h : k.toSched.WellFormed) (scheduled : schedule k = some k') : k'.toSched.Running := by
  obtain ⟨next, rest, picked, rfl⟩ := schedule_eq scheduled
  rcases picked with ready | ⟨ready, rfl, isIdle⟩
  · have isReady : k.status next = .ready := ((h.mem_ready next).mp (by simp [ready])).1
    have nodup := h.readyNodup
    rw [ready, nodup_cons] at nodup
    refine h.dispatch (by simp [ready]) (fun t => ?_) (h.lt_nextThread (by simp [isReady])) (fun sema waits => ?_)
      (fun sleeps => ?_) (fun u born => ?_)
    · simp only [ready, mem_cons]
      constructor
      · exact fun member => ⟨.inr member, fun same => nodup.1 (same ▸ member)⟩
      · rintro ⟨rfl | member, different⟩
        · exact absurd rfl different
        · exact member
    · simpa [isReady] using (h.waiting sema next waits).1
    · simpa [isReady] using (h.sleeping next sleeps).1
    · simpa [isReady] using (h.newborn u next born).1
  · obtain ⟨created, waiters, awake, born⟩ := h.idle_detached isIdle
    exact h.dispatch (nil_sublist _) (by simp [ready]) created waiters awake born

theorem schedule_fair (scheduled : schedule k = some k') (ordered : Ordered (higherPriority k.priority) k.readyList)
    (inOrder : k.readyList.Pairwise k.toSched.InOrder) : k'.toSched.Fair := by
  obtain ⟨next, rest, picked, rfl⟩ := schedule_eq scheduled
  rcases picked with ready | ⟨-, rfl, -⟩
  · rw [ready] at ordered inOrder
    intro t member
    have notHigher := (pairwise_cons.mp ordered).1 t member
    simp only [higherPriority, decide_eq_false_iff_not] at notHigher
    exact ⟨Int.not_lt.mp notHigher, (pairwise_cons.mp inOrder).1 t member⟩
  · intro t member
    cases member

/-! ## Giving up the processor -/

/-- The running thread is in no list that other threads could find it in. -/
theorem Running.current_detached (h : s.Running) (notIdle : s.idleThread ≠ some s.current) : s.Detached s.current where
  waiters sema waits := by simpa [h.running] using (h.waiting sema _ waits).1
  waitingList sleeps := by simpa [h.running] using (h.sleeping _ sleeps).1
  creator u born := by simpa [h.running] using (h.newborn u _ born).1
  idleThread := notIdle

/-- The running thread gets another status, without being ready. -/
theorem Running.stop (h : s.Running) (status : ThreadStatus)
    (stopped : status ≠ .ready ∨ s.idleThread = some s.current) :
    { s with status := update s.status s.current status }.WellFormed :=
  have other : ∀ {t was}, was ≠ .running → s.status t = was → update s.status s.current status t = was := by
    intro t was notRunning before
    refine status_kept (fun same => notRunning ?_) before
    rw [← before, same, h.running]
  { h with
    fresh := fun t late => (h.fresh t late).imp_left (other nofun)
    mem_ready := by
      intro t
      by_cases same : t = s.current
      · have member := h.mem_ready s.current
        rw [h.running] at member
        subst same
        rcases stopped with notReady | isIdle <;> simp_all
      · simpa [same] using h.mem_ready t
    waiting := fun sema t member => (h.waiting sema t member).imp_left (other nofun)
    sleeping := fun t member => (h.sleeping t member).imp_left (other nofun)
    newborn := fun u t member => (h.newborn u t member).imp_left (other nofun) }

section

variable (h : k.toSched.Running)

include h

/-- The state from which `thread_yield` calls `schedule`. -/
theorem Running.threadYield_wellFormed (yielded : threadYield k = some k') :
    ∃ before : Kernel, before.toSched.WellFormed ∧ Threads.schedule before = some k' := by
  unfold Threads.threadYield at yielded
  split_ifs at yielded
  have pushed : ({ k.push [.intrSetLevel k.intr] with intr := .off } : Kernel).toSched.Running :=
    h.push (by simp [plain, isIdle]) (.inl (by simp [idleSafe]))
  simp only at yielded
  split at yielded
  next isIdle => exact ⟨_, pushed.stop .ready (.inr isIdle), yielded⟩
  next notIdle =>
    exact ⟨_, pushed.toWellFormed.insertReady (pushed.current_detached notIdle) (.inr pushed.running), yielded⟩

theorem Running.threadYield (yielded : threadYield k = some k') : k'.toSched.Running := by
  obtain ⟨before, wellFormed, scheduled⟩ := h.threadYield_wellFormed yielded
  exact wellFormed.schedule scheduled

theorem Running.threadYield_fair (yielded : Threads.threadYield k = some k') : k'.toSched.Fair := by
  obtain ⟨before, wellFormed, scheduled⟩ := h.threadYield_wellFormed yielded
  exact schedule_fair scheduled wellFormed.ordered wellFormed.inOrder

theorem Running.threadBlock (blocked : threadBlock k = some k') : k'.toSched.Running :=
  (h.stop .blocked (.inl (by simp))).schedule (threadBlock_eq blocked)

/-- `thread_block` by a thread that has put itself into the list of the semaphore its next frame waits for. -/
theorem Running.semaWait {sema : SemaId} {again : Frame} (waitsFor : again.waitsFor = some sema)
    (notIdle : ∀ frame ∈ k.stack k.current, frame.isIdle = false) (waited : semaWait sema again k = some k') :
    k'.toSched.Running := by
  have plain : again.plain := by cases again <;> simp_all [Frame.waitsFor, Frame.plain, Frame.isIdle]
  have pushed : (k.push [again]).toSched.Running := h.push (by simp [plain]) (.inr notIdle)
  have stopped := pushed.stop .blocked (.inl (by simp))
  have absent : k.current ∉ k.waiters sema := fun waits => by
    simpa [h.running] using (h.waiting sema _ waits).1
  have nodup : (k.waiters sema ++ [k.current]).Nodup :=
    (perm_append_singleton _ _).nodup_iff.mpr (nodup_cons.mpr ⟨absent, h.waitersNodup sema⟩)
  refine WellFormed.schedule (stopped.setWaiters nodup fun t member => ?_) (threadBlock_eq waited)
  cases mem_append.mp member with
  | inl before => exact stopped.waiting sema t before
  | inr me =>
    obtain rfl := mem_singleton.mp me
    exact ⟨by simp [Kernel.push], again, k.stack k.current, by simp [Kernel.push], waitsFor⟩

theorem Running.timerSleep {start ticks : Int} (notIdle : ∀ frame ∈ k.stack k.current, frame.isIdle = false)
    (slept : timerSleep start ticks k = some k') : k'.toSched.Running := by
  unfold Threads.timerSleep at slept
  split_ifs at slept
  have pushed : (k.push [.slept]).toSched.Running := h.push (by simp [plain, isIdle]) (.inr notIdle)
  have stopped := pushed.stop .blocked (.inl (by simp))
  refine WellFormed.schedule ?_ (threadBlock_eq slept)
  have absent : k.current ∉ k.waitingList := fun sleeps => by
    simpa [h.running] using (h.sleeping _ sleeps).1
  exact { stopped with
    sleeping := by
      intro t member
      simp only [Kernel.push, mem_listInsertOrdered] at member
      rcases member with rfl | before
      · exact ⟨by simp [Kernel.push], k.stack k.current, by simp [Kernel.push]⟩
      · exact stopped.sleeping t before
    sleepersNodup :=
      (perm_listInsertOrdered _ _).nodup_iff.mpr (nodup_cons.mpr ⟨absent, h.sleepersNodup⟩) }

end

/-! ## Priorities -/

/-- The new priority is written and the ready list is sorted again. -/
theorem Running.setPriority (h : s.Running) (newPriority : Int) (t : Tid) : { s with
      priority := update s.priority t newPriority
      reprioritised := update s.reprioritised t true
      readyList := listSort (higherPriority (update s.priority t newPriority)) s.readyList }.Running :=
  have order := higherPriority_order (update s.priority t newPriority)
  have perm := perm_listSort order s.readyList
  { h with
    readyNodup := perm.nodup_iff.mpr h.readyNodup
    mem_ready := fun u => perm.mem_iff.trans (h.mem_ready u)
    ordered := ordered_listSort order _
    inOrder := by
      -- Sorting only swaps threads of different priorities; the stamp of `t` no longer counts.
      refine pairwise_listSort order (fun x y higher samePriority => ?_) (h.inOrder.imp ?_)
      · simp only [higherPriority, decide_eq_true_eq] at higher
        simp only at samePriority
        omega
      · intro a b inOrder samePriority aKept bKept
        by_cases aIsT : a = t
        · simp [aIsT] at aKept
        by_cases bIsT : b = t
        · simp [bIsT] at bKept
        simp only [aIsT, bIsT, ne_eq, not_false_eq_true, update_of_ne] at samePriority aKept bKept
        exact inOrder samePriority aKept bKept
    stamped := fun u member => h.stamped u (perm.mem_iff.mp member) }

theorem Running.specificThreadSetPriority_cases (h : k.toSched.Running)
    (set : specificThreadSetPriority newPriority t k = some k') :
    k'.toSched.Running ∧ (k'.current = k.current ∨ k'.toSched.Fair) := by
  have written := h.setPriority newPriority t
  simp only [Threads.specificThreadSetPriority] at set
  split at set
  · exact Option.some.inj set ▸ ⟨written, .inl rfl⟩
  split at set
  next =>
    have plain : ∀ frame ∈ [intrSetLevel k.intr], frame.plain := by simp [plain, isIdle]
    have pushed := written.push plain (.inl (by simp [idleSafe]))
    constructor
    · refine Running.threadYield ?_ set
      exact pushed
    · refine .inr (Running.threadYield_fair ?_ set)
      exact pushed
  next => exact Option.some.inj set ▸ ⟨written, .inl rfl⟩

end Sched

end Pintos.Threads
