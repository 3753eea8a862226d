import Pintos.Threads.DonationState

/-! # Priority donation

After each operation on locks, every thread runs at the maximum of its own priority and of the priorities of
the threads that wait for its locks.  Three things in the source break this: `recalculate_priority` looks at
the first waiter of each lock only, the list of waiters is not sorted and lacks the threads that are still
donating, and a donation that gives up the processor before its walk is complete leaves the rest of the chain
behind.  The condition `donatesInTime` excludes them.
-/

namespace Pintos.Threads

open Pintos.Kernel Library Sched Function List Option Frame Kernel

/-- A thread that waits for `plock` may be raised: the lock is held, or the thread has been woken for it.  If the
donation is preempted then, the holder of the lock must have the priority already. -/
def raisesInTime (k : Kernel) (tdonatee : Tid) (newPriority : Int) (plock : LockId) : Prop :=
  match k.holder plock with
  | none => tdonatee ∉ k.waiters (.lock plock)
  | some next =>
    (∃ t ∈ k.readyList, k.priority k.current ≤ update k.priority tdonatee newPriority t) → newPriority ≤ k.priority next

instance (k : Kernel) (tdonatee : Tid) (newPriority : Int) (plock : LockId) :
    Decidable (raisesInTime k tdonatee newPriority plock) := by
  unfold raisesInTime
  split <;> infer_instance

/-- Only locks are used, and threads created.  Whenever `recalculate_priority` is executed, the threads that wait
for the locks of the running thread are represented by a first waiter or are not above its own priority; whenever a
thread in `thread_set_priority` is preempted before that, they are not above the priority that it has set. -/
def donatesInTime : Label → Kernel → Prop
  | .run, k =>
    match k.stack k.current with
    | .call (.threadSetPriority newPriority) :: _ => 0 ≤ newPriority
    | .specificThreadSetPriority newPriority :: .recalculatePriority :: _ =>
      (∃ t ∈ k.readyList, newPriority ≤ k.priority t) →
        ∀ lock ∈ k.lockOwnList k.current, ∀ t < k.nextThread, Pending k t lock → k.priority t ≤ newPriority
    | .recalculatePriority :: _ =>
      ∀ lock ∈ k.lockOwnList k.current, ∀ t < k.nextThread, Pending k t lock →
        k.priority t ≤ k.originPriority k.current ∨
          ∃ other ∈ k.lockOwnList k.current, k.priority t ≤ firstWaiterPriority k (.lock other)
    | .lockPriorityDonate lock newPriority :: _ =>
      ∀ tdonatee ∈ k.holder lock, k.priority tdonatee < newPriority →
        ∀ plock ∈ k.plockAcq tdonatee, raisesInTime k tdonatee newPriority plock
    | _ => True
  | .call (.threadCreate _), _ | .call .threadYield, _ | .call (.lockAcquire _), _ | .call (.lockRelease _), _ => True
  | _, _ => False

instance : ∀ label k, Decidable (donatesInTime label k) := by
  intro label k
  cases label with
  | run =>
    simp only [donatesInTime]
    split <;> infer_instance
  | call call => cases call <;> simp only [donatesInTime] <;> infer_instance
  | interrupt _ => exact .isFalse id

/-- Besides, threads set their priorities. -/
def keepsDonations : Label → Kernel → Prop
  | .call (.threadSetPriority _), _ => True
  | label, k => donatesInTime label k

instance : ∀ label k, Decidable (keepsDonations label k) := by
  intro label k
  unfold keepsDonations
  split <;> infer_instance

theorem keepsDonations_of_donatesInTime {label : Label} {k : Kernel} (permitted : donatesInTime label k) :
    keepsDonations label k := by
  unfold keepsDonations
  split
  · trivial
  · exact permitted

/-- The priority that a thread will have when the next frame of the running thread has been executed. -/
def duePriority (k : Kernel) (t : Tid) : Int :=
  match k.stack k.current with
  | .specificThreadSetPriority newPriority :: _ => if t = k.current then newPriority else k.priority t
  | .lockPriorityDonate lock newPriority :: _ =>
    if k.holder lock = some t then max newPriority (k.priority t) else k.priority t
  | .donateNext tdonatee newPriority :: _ =>
    if (k.plockAcq tdonatee).bind k.holder = some t then max (k.priority t) newPriority else k.priority t
  | _ => k.priority t

def Recalculating (k : Kernel) (t : Tid) : Prop :=
  t = k.current ∧ match k.stack k.current with
    | .recalculatePriority :: _ | .specificThreadSetPriority _ :: .recalculatePriority :: _ => True
    | _ => False

/-- Every thread has its priority. -/
abbrev Settled (k : Kernel) : Prop :=
  Donating (fun _ => False) k.priority k

/-- Every thread will have its priority when the next frame of the running thread has been executed. -/
abbrev Due (k : Kernel) : Prop :=
  Donating (Recalculating k) (duePriority k) k

variable {k k' : Kernel} {frame : Frame} {rest : List Frame}

theorem Donating.conclude {due : Tid → Int} (h : Donating (fun _ => False) due k)
    (same : ∀ t, duePriority k t = due t) : Due k :=
  h.mono fun t _ => same t ▸ h.donated t id

/-- A preempted donation has nothing left to do when it goes on. -/
theorem Settled.donating (h : Settled k) (resting : Resting (k.stack k.current)) : Due k := by
  have due : duePriority k = k.priority := by
    funext t
    unfold duePriority
    split
    next top =>
      rw [top] at resting
      cases resting with
      | steady steady => cases steady _ (.head _)
    next top =>
      rw [top] at resting
      cases resting with
      | steady steady => cases steady _ (.head _)
    next tdonatee newPriority rest top =>
      split
      next follows =>
        obtain ⟨lock, waits, held⟩ := bind_eq_some_iff.mp follows
        have bound := (h.walking k.current tdonatee newPriority (by simp [top])).2.2.resolve_left (by simp [waits])
        have donated := (h.donated t id).2 (.inr ⟨tdonatee, lock, held, h.awaited tdonatee lock waits, rfl⟩)
        exact max_eq_left (bound.trans donated)
      next => rfl
    next => rfl
  exact h.conclude fun t => congrFun due t

theorem duePriority_set {newPriority : Int}
    (top : k.stack k.current = .specificThreadSetPriority newPriority :: rest) :
    duePriority k = update k.priority k.current newPriority := by
  funext t
  by_cases me : t = k.current <;> simp [duePriority, top, me]

/-- Frames that change the priority of a thread, or are about to. -/
def Frame.defers : Frame → Bool
  | .recalculatePriority | .specificThreadSetPriority _ | .lockPriorityDonate _ _ | .donateNext _ _ => true
  | _ => false

variable {level : IntrLevel} {exempt : Tid → Prop} {due : Tid → Int} {newPriority : Int} {t : Tid} {plock : LockId}
  {tdonatee : Tid} {c : Call} {lock : LockId} {between : Kernel} {s : SemaId}

theorem schedule_reschedules (scheduled : schedule k = some k') : Reschedules k k' := by
  obtain ⟨next, rest, picked, rfl⟩ := schedule_eq scheduled
  refine { ready := fun t ready => ?_ }
  cases picked with
  | inl first =>
    rw [first] at ready
    exact mem_cons.mp ready
  | inr idle => simp [idle.1] at ready

theorem threadYield_reschedules (yielded : threadYield k = some k') :
    Reschedules (k.push [.intrSetLevel k.intr]) k' ∧ (k.idleThread = some k.current ∨ k'.toSched.Active k.current) := by
  unfold threadYield at yielded
  split_ifs at yielded
  have moved := schedule_reschedules yielded
  by_cases idle : k.idleThread = some k.current
  · simp only [push, idle, if_true] at moved
    exact ⟨{ moved with }, .inl idle⟩
  · simp only [push, idle, if_false, insertReady] at moved
    refine ⟨{ moved with ready := fun t ready => moved.ready t ?_ }, .inr (moved.ready k.current ?_)⟩
    · exact (mem_listInsertOrdered ..).mpr (.inr ready)
    · exact (mem_listInsertOrdered ..).mpr (.inl rfl)

theorem Donating.push_level (h : Donating exempt due k) (level : IntrLevel) (resting : Resting (k.stack k.current)) :
    Donating exempt due (k.push [.intrSetLevel level]) := by
  refine h.setStack _ (.resting (.level level resting)) (by simp [Pending, waitsFor]) ?_ ?_ (by simp [walks])
  · intro tdonatee p member
    exact (h.walking k.current tdonatee p (by simpa using member)).2
  · intro lock p member
    exact h.donor k.current lock p (by simpa using member)

/-- The idle thread executes nothing but its own code. -/
theorem Sched.Running.not_idle (running : k.toSched.Running) (frame : Frame) (member : frame ∈ k.stack k.current)
    (notSafe : frame.idleSafe = false) : k.idleThread ≠ some k.current := by
  intro isIdle
  simp [running.idle_code isIdle frame member] at notSafe

theorem Donating.yield (yielded : threadYield k = some k') (h : Donating exempt due k)
    (resting : Resting (k.stack k.current))
    (awaits : ∀ lock, Pending k k.current lock → k.plockAcq k.current = some lock)
    (idle : k.idleThread = some k.current → (∀ lock, ¬ Pending k k.current lock) ∧
      ∀ frame ∈ k.stack k.current, frame.walks = false) :
    Donating exempt due k' ∧ Resting (k'.stack k'.current) := by
  obtain ⟨moved, stays⟩ := threadYield_reschedules yielded
  have pushed := h.push_level k.intr resting
  have restingPushed : Resting ((k.push [.intrSetLevel k.intr]).stack k.current) := by
    simpa [push] using Resting.level k.intr resting
  have pending (lock : LockId) : Pending (k.push [.intrSetLevel k.intr]) k.current lock ↔ Pending k k.current lock := by
    simp [Pending, push, waitsFor]
  constructor
  · refine pushed.reschedule moved (fun _ => ⟨restingPushed,
      fun lock waits => awaits lock ((pending lock).mp waits)⟩) ?_
    refine stays.symm.imp_right fun isIdle => ⟨fun lock waits => ?_, fun tdonatee p member => ?_⟩
    · exact absurd ((pending lock).mp waits) ((idle isIdle).1 lock)
    · cases (idle isIdle).2 _ (by simpa [push] using member)
  · rw [moved.stack]
    by_cases same : k'.current = k.current
    · exact same ▸ restingPushed
    · exact pushed.resting _ same

theorem Settled.block (blocked : threadBlock between = some k') (h : Settled k)
    (moved : Reschedules k between) (current : between.current = k.current) (resting : Resting (k.stack k.current))
    (waits : ∀ lock, Pending k k.current lock →
      k.plockAcq k.current = some lock ∧ k.holder lock ≠ none ∧ k.current ∈ k.waiters (.lock lock))
    (noNext : ∀ tdonatee p, .donateNext tdonatee p ∉ k.stack k.current) :
    Due k' := by
  have stays := h.stay moved current
  have switched : Reschedules between k' := { schedule_reschedules (threadBlock_eq blocked) with }
  have restingBetween : Resting (between.stack between.current) := by rwa [moved.stack, current]
  have settled : Settled k' := by
    rw [Settled, switched.priority, moved.priority]
    refine stays.reschedule switched (fun _ => ⟨restingBetween, fun lock pending => ?_⟩)
      (.inr ⟨fun lock pending => ?_, ?_⟩)
    · rw [moved.pending, current] at pending
      rw [moved.plockAcq, current]
      exact (waits lock pending).1
    · rw [moved.pending, current] at pending
      rw [moved.holder, moved.waiters, current]
      exact (waits lock pending).2
    · rwa [moved.stack, current]
  apply settled.donating
  rw [switched.stack]
  by_cases same : k'.current = between.current
  · exact same ▸ restingBetween
  · exact stays.resting _ same

/-- The priority is written and, if a ready thread is not below the running one, the processor given up. -/
theorem specificThreadSetPriority_reschedules (set : specificThreadSetPriority newPriority t k = some k') :
    Reschedules { k with priority := update k.priority t newPriority } k' ∧ k'.current = k.current ∨
      ∃ between, threadYield between = some k' ∧ between.current = k.current ∧ between.idleThread = k.idleThread ∧
        Reschedules ({ k with priority := update k.priority t newPriority }.push [.intrSetLevel k.intr]) between ∧
        ∃ first ∈ k.readyList, update k.priority t newPriority k.current ≤ update k.priority t newPriority first := by
  have members := perm_listSort (higherPriority_order (update k.priority t newPriority)) k.readyList
  simp only [specificThreadSetPriority] at set
  split at set
  next =>
    cases set
    exact .inl ⟨{ ready := fun u ready => .inr (members.mem_iff.mpr ready) }, rfl⟩
  next first rest sorted =>
    have isReady : first ∈ k.readyList := members.mem_iff.mp (sorted ▸ .head _)
    split at set
    next yields =>
      exact .inr ⟨_, set, rfl, rfl, { ready := fun u ready => .inr (members.mem_iff.mpr ready) },
        first, isReady, yields.1⟩
    next =>
      cases set
      exact .inl ⟨{ ready := fun u ready => .inr (members.mem_iff.mpr ready) }, rfl⟩

theorem Donating.setPriority (set : specificThreadSetPriority newPriority t k = some k')
    (h : Donating exempt due { k with priority := update k.priority t newPriority })
    (resting : Resting (k.stack k.current))
    (awaits : ∀ lock, Pending k k.current lock → k.plockAcq k.current = some lock)
    (idle : k.idleThread = some k.current → (∀ lock, ¬ Pending k k.current lock) ∧
      ∀ frame ∈ k.stack k.current, frame.walks = false) :
    Donating exempt due k' ∧ Resting (k'.stack k'.current) ∧ k'.priority = update k.priority t newPriority ∧
      (k'.current = k.current ∧ k'.stack = k.stack ∨ ∃ first ∈ k.readyList,
        update k.priority t newPriority k.current ≤ update k.priority t newPriority first) := by
  cases specificThreadSetPriority_reschedules set with
  | inl stays =>
    obtain ⟨moved, current⟩ := stays
    refine ⟨h.stay moved current, ?_, moved.priority, .inl ⟨current, moved.stack⟩⟩
    rw [moved.stack, current]
    exact resting
  | inr yields =>
    obtain ⟨between, yielded, current, idleThread, moved, first⟩ := yields
    have pushed := (h.push_level k.intr resting).stay moved current
    have priority := (threadYield_reschedules yielded).1.priority.trans moved.priority
    have stack : between.stack between.current = .intrSetLevel k.intr :: k.stack k.current := by
      simp [moved.stack, current, push]
    have waits (lock : LockId) (pending : Pending between between.current lock) :
        between.plockAcq between.current = some lock := by
      rw [moved.plockAcq, current]
      exact awaits lock (by simpa [Pending, stack, waitsFor] using pending)
    have still (isIdle : between.idleThread = some between.current) : (∀ lock, ¬ Pending between between.current lock) ∧
        ∀ frame ∈ between.stack between.current, frame.walks = false := by
      rw [idleThread, current] at isIdle
      simpa [Pending, stack, waitsFor, walks] using idle isIdle
    obtain ⟨after, restingAfter⟩ := pushed.yield yielded (stack ▸ .level _ resting) waits still
    exact ⟨after, restingAfter, priority, .inr first⟩

/-- The running thread writes its priority. -/
theorem Donating.setOwn (h : Donating exempt (update k.priority k.current newPriority) k)
    (top : k.stack k.current = .specificThreadSetPriority newPriority :: rest) (resting : Resting rest)
    (passive : ∀ frame ∈ rest, frame.steady ∨ frame = .recalculatePriority) (executed : step .run k = some k') :
    Donating exempt k'.priority k' ∧ Resting (k'.stack k'.current) ∧
      (k'.current = k.current ∧ k'.stack = update k.stack k.current rest ∨
        ∃ first ∈ k.readyList, newPriority ≤ update k.priority k.current newPriority first) := by
  have idle : ∀ lock, ¬ ∃ frame ∈ rest, frame.waitsFor = some (.lock lock) := by
    rintro lock ⟨frame, member, waits⟩
    obtain steady | rfl := passive frame member
    · exact waitsFor_of_steady steady lock waits
    · cases waits
  have still : ∀ frame ∈ rest, frame.walks = false := by
    intro frame member
    obtain steady | rfl := passive frame member
    · exact walks_of_steady steady
    · rfl
  have popped := h.setPassive (by simpa [Pending, top, waitsFor] using idle) (.resting resting)
    fun frame member => (passive frame member).imp_right .inl
  have written := popped.setCurrent newPriority (by simpa [Pending] using idle) (by simpa using still)
  simp only [step, top] at executed
  obtain ⟨after, restingAfter, priority, outcome⟩ := written.setPriority executed (by simpa using resting)
    (fun lock waits => absurd (by simpa [Pending] using waits) (idle lock))
    (fun _ => ⟨by simpa [Pending] using idle, by simpa using still⟩)
  refine ⟨after.mono fun t notExempt => ?_, restingAfter, by simpa using outcome⟩
  rw [priority]
  exact after.donated t notExempt

theorem push_popped (stack pushed : List Frame) :
    ({ k with stack := update k.stack k.current stack } : Kernel).push pushed =
      { k with stack := update k.stack k.current (pushed ++ stack) } := by
  simp [push]

theorem Preempting.calm_of_top (h : Preempting k) (top : k.stack k.current = frame :: rest)
    (isTop : (∃ c, frame = .call c) ∨ ∃ lock level, frame = .lockDown lock level) : k.toSched.Calm := by
  cases h with
  | handling _ handling =>
    rw [top] at handling
    rcases isTop with ⟨c, rfl⟩ | ⟨lock, level, rfl⟩ <;> cases handling
  | settling _ settling =>
    rw [top] at settling
    rcases isTop with ⟨c, rfl⟩ | ⟨lock, level, rfl⟩ <;> cases settling with
    | calm _ calm => exact calm

theorem pending_lockDown (steady : ∀ frame ∈ rest, frame.steady) (lock : LockId) (level : IntrLevel) (other : LockId) :
    (∃ frame ∈ .lockDown lock level :: rest, frame.waitsFor = some (.lock other)) ↔ other = lock := by
  rw [exists_mem_cons_iff, or_iff_left (not_pending_of_steady steady other)]
  simp [waitsFor, eq_comm]

/-- `sema_up` wakes a waiter of highest priority. -/
theorem semaUp_wakes (upped : semaUp s k = some k') :
    (∀ t ∈ k.readyList, t ∈ k'.readyList) ∧ ∃ rest, k'.waiters = update k.waiters s rest ∧
      (k.waiters s = [] ∧ rest = [] ∨ ∃ first ∈ k'.readyList, (k.waiters s).Perm (first :: rest) ∧
        ∀ t ∈ rest, k.priority t ≤ k.priority first) := by
  simp only [semaUp] at upped
  split at upped
  next empty =>
    have none := empty_of_sorted empty
    cases upped
    refine ⟨fun t ready => ready, [], ?_, .inl ⟨none, rfl⟩⟩
    rw [← none]
    exact (update_eq_self ..).symm
  next first rest sorted =>
    obtain ⟨-, rfl⟩ := threadUnblock_eq upped
    obtain ⟨perm, highest⟩ := highest_first sorted
    refine ⟨fun t ready => ?_, rest, rfl, .inr ⟨first, ?_, perm.symm, fun t later => ?_⟩⟩
    · exact (mem_listInsertOrdered ..).mpr (.inr ready)
    · exact (mem_listInsertOrdered ..).mpr (.inl rfl)
    · exact highest t (perm.mem_iff.mp (.tail _ later))

/-- The running thread is about to recalculate its priority; the other threads have theirs. -/
theorem Donating.recalculating (h : Donating (fun t => t = k.current) k.priority k)
    (idle : ∀ lock, ¬ Pending k k.current lock) (stack : List Frame) (steady : ∀ frame ∈ stack, frame.steady)
    (moved : Reschedules { k with stack := update k.stack k.current (.recalculatePriority :: stack) } k')
    (current : k'.current = k.current) : Due k' := by
  have pushed : Donating (fun t => t = k.current) k.priority
      { k with stack := update k.stack k.current (.recalculatePriority :: stack) } := by
    refine h.setPassive idle (.resting (.recalculate steady)) fun frame member => ?_
    exact (mem_cons.mp member).symm.imp (steady frame) .inl
  have top : k'.stack k'.current = .recalculatePriority :: stack := by
    simp [moved.stack, current]
  refine (pushed.stay moved current).mono fun t notExempt => ?_
  have due : duePriority k' t = k.priority t := by simp [duePriority, top, moved.priority]
  rw [due]
  refine (pushed.stay moved current).donated t fun me => notExempt ⟨me.trans current.symm, by simp [top]⟩

theorem isGreatest_foldl_max {α : Type} (f : α → Int) (list : List α) (start : Int) :
    IsGreatest (insert start { p | ∃ x ∈ list, f x = p }) (list.foldl (fun found x => max found (f x)) start) := by
  induction list generalizing start with
  | nil => exact ⟨.inl rfl, by rintro p (rfl | ⟨x, member, -⟩) <;> simp_all⟩
  | cons first rest ih =>
    obtain ⟨member, above⟩ := ih (max start (f first))
    rw [foldl_cons]
    constructor
    · rcases member with same | ⟨x, inRest, same⟩
      · rw [same]
        cases le_total start (f first) with
        | inl le => exact .inr ⟨first, by simp, (max_eq_right le).symm⟩
        | inr le => exact .inl (max_eq_left le)
      · exact .inr ⟨x, by simp [inRest], same⟩
    · have first_le := above (.inl rfl)
      rintro p (rfl | ⟨x, inList, rfl⟩)
      · exact (le_max_left _ _).trans first_le
      · cases mem_cons.mp inList with
        | inl same =>
          subst same
          exact (le_max_right _ _).trans first_le
        | inr inRest => exact above (.inr ⟨x, inRest, rfl⟩)

theorem isGreatest_recalculatedPriority (positive : 0 ≤ k.originPriority k.current) :
    IsGreatest (insert (k.originPriority k.current)
      { p | ∃ lock ∈ k.lockOwnList k.current, firstWaiterPriority k (.lock lock) = p }) (recalculatedPriority k) := by
  simp only [recalculatedPriority]
  split
  next none => simp [none]
  next owned _ =>
    obtain ⟨member, above⟩ := isGreatest_foldl_max (fun lock => firstWaiterPriority k (.lock lock))
      (k.lockOwnList k.current) 0
    split
    next higher =>
      constructor
      · cases member with
        | inl zero => exact absurd higher (by rw [zero]; exact Int.not_lt.mpr positive)
        | inr donated => exact .inr donated
      · rintro p (rfl | donated)
        · exact higher.le
        · exact above (.inr donated)
    next lower =>
      constructor
      · exact .inl rfl
      · rintro p (rfl | donated)
        · exact le_rfl
        · exact (above (.inr donated)).trans (Int.not_lt.mp lower)

/-- The maximum over the first waiters is the maximum over all waiters that they represent. -/
theorem isGreatest_donations (positive : 0 ≤ k.originPriority k.current)
    (owned : ∀ lock, lock ∈ k.lockOwnList k.current ↔ k.holder lock = some k.current)
    (queued : ∀ lock, ∀ w ∈ k.waiters (.lock lock), Pending k w lock)
    (fresh : ∀ t, k.nextThread ≤ t → k.stack t = [])
    (represented : ∀ lock ∈ k.lockOwnList k.current, ∀ w < k.nextThread, Pending k w lock →
      k.priority w ≤ k.originPriority k.current ∨
        ∃ other ∈ k.lockOwnList k.current, k.priority w ≤ firstWaiterPriority k (.lock other)) :
    IsGreatest (donations k k.current) (recalculatedPriority k) := by
  obtain ⟨member, above⟩ := isGreatest_recalculatedPriority positive
  constructor
  · rcases member with own | ⟨lock, mine, first⟩
    · exact .inl own
    · simp only [firstWaiterPriority] at first
      split at first
      next =>
        -- The word before the tail of an empty list is negative, and never the maximum.
        exact absurd (k.tailWord (.lock lock)).2
          (by rw [first]; exact Int.not_lt.mpr (positive.trans (above (.inl rfl))))
      next w rest queue => exact .inr ⟨w, lock, (owned lock).mp mine, queued lock w (by simp [queue]), first⟩
  · rintro p (rfl | ⟨w, lock, held, waits, rfl⟩)
    · exact above (.inl rfl)
    · have created : w < k.nextThread := by
        by_contra late
        obtain ⟨frame, inStack, -⟩ := waits
        simp [fresh w (Nat.le_of_not_lt late)] at inStack
      rcases represented lock ((owned lock).mpr held) w created waits with below | ⟨other, mine, below⟩
      · exact below.trans (above (.inl rfl))
      · exact below.trans (above (.inr ⟨other, mine, rfl⟩))

/-- The running thread is about to write its priority. -/
theorem Donating.setting (h : Donating exempt due k) (idle : ∀ lock, ¬ Pending k k.current lock)
    (steady : ∀ frame ∈ rest, frame.steady) (newPriority : Int)
    (donated : ∀ t, IsGreatest (donations k t) (if t = k.current then newPriority else k.priority t))
    (executed : ({ k with stack := update k.stack k.current rest } : Kernel).push
      [.specificThreadSetPriority newPriority] = k') : Due k' := by
  have settled : Donating (fun _ => False) _ k := h.mono fun t _ => donated t
  have pushed : Donating (fun _ => False) (fun t => if t = k.current then newPriority else k.priority t)
      { k with stack := update k.stack k.current (.specificThreadSetPriority newPriority :: rest) } := by
    refine settled.setPassive idle (.set newPriority steady) fun frame member => ?_
    exact (mem_cons.mp member).symm.imp (steady frame) fun same => .inr ⟨newPriority, same⟩
  rw [push_popped] at executed
  subst executed
  refine pushed.conclude fun t => ?_
  simp [duePriority]

/-- A walk that has nobody left to raise goes back to `lock_acquire`. -/
theorem Settled.ends (h : Settled k) (top : k.stack k.current = frame :: .lockDown lock level :: rest)
    (walks : frame.walks = true) (steady : ∀ frame ∈ rest, frame.steady) :
    Due { k with stack := update k.stack k.current (.lockDown lock level :: rest) } := by
  have popped : Settled { k with stack := update k.stack k.current (.lockDown lock level :: rest) } := by
    refine h.setStack _ (.resting (.down lock level steady)) ?_ ?_ ?_ ?_
    · cases frame <;> simp_all [Pending, waitsFor, Frame.walks]
    · exact fun next p member => (h.walking k.current next p (by simp [top, member])).2
    · exact fun other p member => h.donor k.current other p (by simp [top, member])
    · exact fun _ => ⟨frame, by simp [top], walks⟩
  exact popped.donating (by simpa using .down lock level steady)

theorem Executing.call_steady {origin : Int} (shape : Executing origin (.call c :: rest)) : (call c).steady := by
  cases shape with
  | resting resting =>
    cases resting with
    | steady steady => exact steady _ (.head _)

/-! ## Steps from a state that satisfies the invariant -/

structure DonationInvariant (k : Kernel) : Prop where
  running : k.toSched.Running
  locks : LockInvariant k
  preempting : Preempting k
  donating : Donating (Recalculating k) (duePriority k) k

namespace DonationInvariant

variable (h : DonationInvariant k)

include h

section

variable (top : k.stack k.current = frame :: rest)

include top

theorem settled (immediate : frame.defers = false) : Settled k := by
  have due : duePriority k = k.priority := by
    funext t
    cases frame <;> simp_all [duePriority, defers]
  have notExempt (t : Tid) : ¬ Recalculating k t := by
    rintro ⟨-, recalculating⟩
    cases frame <;> simp_all [defers]
  have donating := h.donating
  rw [due] at donating
  exact donating.mono fun t _ => donating.donated t (notExempt t)

/-! ## Frames that only continue -/

/-- The running thread is outside `lock_acquire`. -/
theorem steady (isSteady : frame.steady) (notLevel : ∀ level, frame ≠ .intrSetLevel level) :
    (∀ below ∈ rest, below.steady) ∧ Settled k ∧ ∀ lock, ¬ Pending k k.current lock := by
  have shape := h.donating.shape
  rw [top] at shape
  have below := shape.steady_of_top isSteady notLevel
  refine ⟨below, h.settled top (by cases frame <;> first | rfl | cases isSteady), fun lock => ?_⟩
  rw [Pending, top]
  exact not_pending_of_steady (by simpa [isSteady] using below) lock

theorem proceed (isSteady : frame.steady) (pushed : List Frame)
    (moved : Reschedules { k with stack := update k.stack k.current (pushed ++ rest) } k' := by exact {})
    (steady : ∀ next ∈ pushed, next.steady := by simp [invoke, Frame.steady])
    (notLevel : ∀ level, frame ≠ .intrSetLevel level := by simp) (current : k'.current = k.current := by rfl) :
    Due k' := by
  obtain ⟨below, settled, idle⟩ := h.steady top isSteady notLevel
  have all : ∀ next ∈ pushed ++ rest, next.steady := by
    intro next member
    cases mem_append.mp member with
    | inl new => exact steady next new
    | inr old => exact below next old
  have after : Settled k' := by
    have kept := (settled.setSteady idle all).stay moved current
    rwa [← moved.priority] at kept
  refine after.donating (.steady ?_)
  rw [moved.stack, current]
  simpa using all

end

theorem intrSetLevel (top : k.stack k.current = .intrSetLevel level :: rest)
    (executed : step .run k = some k') : Due k' := by
  have settled := h.settled top rfl
  have resting : Resting rest := by
    have shape := settled.shape
    rw [top] at shape
    cases shape with
    | resting resting => exact resting.pop_level
  simp only [step, top, exec] at executed
  split_ifs at executed
  cases executed
  have popped := settled.setStack rest (.resting resting) (by simp [Pending, top, waitsFor])
    (fun tdonatee p member => (settled.walking k.current tdonatee p (by simp [top, member])).2)
    (fun lock p member => settled.donor k.current lock p (by simp [top, member]))
    (fun walks => walks.imp fun frame walks => ⟨by simp [top, walks.1], walks.2⟩)
  have after : Settled { k with stack := update k.stack k.current rest, intr := level } :=
    { popped with }
  refine after.donating ?_
  simpa using resting

/-! ## Giving up the processor -/

theorem specificThreadSetPriority (top : k.stack k.current = .specificThreadSetPriority newPriority :: rest)
    (steady : ∀ frame ∈ rest, frame.steady) (executed : step .run k = some k') :
    Settled k' ∧ Resting (k'.stack k'.current) := by
  have notExempt (t : Tid) : ¬ Recalculating k t := by
    rintro ⟨-, recalculating⟩
    rw [top] at recalculating
    split at recalculating
    next same => cases same
    next same =>
      cases same
      cases steady .recalculatePriority (.head _)
    next => exact recalculating
  have donating : Donating (fun _ => False) (update k.priority k.current newPriority) k :=
    h.donating.mono fun t _ => duePriority_set top ▸ h.donating.donated t (notExempt t)
  obtain ⟨settled, resting, -⟩ := donating.setOwn top (.steady steady) (fun frame member => .inl (steady frame member))
    executed
  exact ⟨settled, resting⟩

/-- The donations to a running thread are below a priority of its own. -/
theorem isGreatest_origin : IsGreatest (donations k k.current) (k.originPriority k.current) ↔
    ∀ lock ∈ k.lockOwnList k.current, ∀ t < k.nextThread, Pending k t lock →
      k.priority t ≤ k.originPriority k.current := by
  have owned := h.locks.coherent.owned
  constructor
  · rintro ⟨-, above⟩ lock mine t - waits
    exact above (.inr ⟨t, lock, (owned lock _).mp mine, waits, rfl⟩)
  · intro covered
    refine ⟨.inl rfl, ?_⟩
    rintro p (rfl | ⟨t, lock, held, waits, rfl⟩)
    · exact le_rfl
    · refine covered lock ((owned lock _).mpr held) t ?_ waits
      by_contra late
      obtain ⟨frame, inStack, -⟩ := waits
      simp [(h.running.fresh t (Nat.le_of_not_lt late)).2] at inStack

theorem ready_ne (ready : t ∈ k.readyList) : t ≠ k.current := by
  rintro rfl
  simpa [h.running.running] using (h.running.mem_ready _).mp ready

/-- `thread_set_priority` sets the priority without donations.  If the thread gives up the processor then, its
donations must not be above it. -/
theorem setPlain (top : k.stack k.current = .specificThreadSetPriority newPriority :: .recalculatePriority :: rest)
    (isOrigin : k.originPriority k.current = newPriority) (steady : ∀ frame ∈ rest, frame.steady)
    (permitted : donatesInTime .run k) (executed : step .run k = some k') :
    Due k' ∧ (k'.current ≠ k.current → Settled k') := by
  have passive : ∀ frame ∈ .recalculatePriority :: rest, frame.steady ∨ frame = .recalculatePriority :=
    fun frame member => (mem_cons.mp member).symm.imp_left (steady frame)
  have donating : Donating (Recalculating k) (update k.priority k.current newPriority) k :=
    duePriority_set top ▸ h.donating
  obtain ⟨after, resting, outcome⟩ := donating.setOwn top (.recalculate steady) passive executed
  obtain ⟨current, stack⟩ | ⟨first, ready, yields⟩ := outcome
  · have isTop : k'.stack k'.current = .recalculatePriority :: rest := by simp [stack, current]
    refine ⟨after.mono fun t notExempt => ?_, absurd current⟩
    have due : duePriority k' t = k'.priority t := by simp [duePriority, isTop]
    rw [due]
    refine after.donated t fun recalculating => notExempt ⟨recalculating.1.trans current.symm, by simp [isTop]⟩
  · simp only [donatesInTime, top] at permitted
    have covered := permitted ⟨first, ready, by simpa [h.ready_ne ready] using yields⟩
    have whole : Donating (fun _ => False) (update k.priority k.current newPriority) k := by
      refine donating.mono fun t _ => ?_
      by_cases me : t = k.current
      · subst me
        simpa [isOrigin] using h.isGreatest_origin.mpr (by simpa [isOrigin] using covered)
      · exact donating.donated t fun recalculating => me recalculating.1
    obtain ⟨settled, resting, -⟩ := whole.setOwn top (.recalculate steady) passive executed
    exact ⟨Settled.donating settled resting, fun _ => settled⟩

/-! ## Donations -/

section

variable (top : k.stack k.current = .lockPriorityDonate plock newPriority :: .lockDown lock level :: rest)

include top

theorem donateTop : newPriority ≤ k.priority k.current ∧ Donating (fun _ => False) (duePriority k) k := by
  refine ⟨h.donating.donor k.current plock newPriority (by simp [top]), ?_⟩
  exact h.donating.mono fun t _ => h.donating.donated t (by simp [Recalculating, top])

/-- A donation that is preempted after it has raised a thread leaves nobody behind. -/
theorem followed (permitted : donatesInTime .run k) (held : k.holder plock = some tdonatee)
    (lower : k.priority tdonatee < newPriority)
    (yields : ∃ first ∈ k.readyList, update k.priority tdonatee newPriority k.current ≤
      update k.priority tdonatee newPriority first)
    (follows : (k.plockAcq tdonatee).bind k.holder = some t) :
    newPriority ≤ update k.priority tdonatee newPriority t := by
  obtain ⟨lock, waits, next⟩ := bind_eq_some_iff.mp follows
  have other : k.current ≠ tdonatee := by
    rintro rfl
    exact absurd (h.donateTop top).1 (Int.not_le.mpr lower)
  simp only [donatesInTime, top] at permitted
  have inTime := permitted tdonatee held lower lock waits
  simp only [raisesInTime, next] at inTime
  have notRaised : t ≠ tdonatee := by
    rintro rfl
    exact h.donating.notHolder t lock (h.donating.awaited t lock waits) next
  rw [update_of_ne notRaised]
  exact inTime (by simpa [other] using yields)

variable (steady : ∀ frame ∈ rest, frame.steady)

include steady

/-- The donation ends at a thread that has the priority already. -/
theorem donate_ends (held : k.holder plock = some tdonatee) (enough : newPriority ≤ k.priority tdonatee) :
    Due { k with stack := update k.stack k.current (.lockDown lock level :: rest) } := by
  have donating := (h.donateTop top).2
  have due : duePriority k = k.priority := by
    funext t
    simp only [duePriority, top, held, some.injEq]
    split
    next same => exact max_eq_right (same ▸ enough)
    next => rfl
  rw [due] at donating
  exact Settled.ends donating top rfl steady

/-- The donation raises the holder of the lock.  What is still missing is due to the holder of the lock that this
thread waits for. -/
theorem donate_raises (permitted : donatesInTime .run k) (held : k.holder plock = some tdonatee)
    (lower : k.priority tdonatee < newPriority) :
    Donating (fun _ => False) (fun t => if (k.plockAcq tdonatee).bind k.holder = some t
        then max (update k.priority tdonatee newPriority t) newPriority
        else update k.priority tdonatee newPriority t)
      { k with
        priority := update k.priority tdonatee newPriority
        stack := update k.stack k.current (.donateNext tdonatee newPriority :: .lockDown lock level :: rest) } := by
  obtain ⟨enough, donating⟩ := h.donateTop top
  have other : tdonatee ≠ k.current := by
    rintro rfl
    exact absurd enough (Int.not_le.mpr lower)
  have due : duePriority k = update k.priority tdonatee newPriority := by
    funext t
    simp only [duePriority, top, held, some.injEq]
    by_cases raised : t = tdonatee
    · subst raised
      simpa using lower.le
    · simp [raised, Ne.symm raised]
  have notWaiting (free : LockId) (isFree : k.holder free = none) : tdonatee ∉ k.waiters (.lock free) := by
    intro queued
    have waits := (donating.awaits tdonatee free (donating.queued free tdonatee queued)).resolve_right
      fun running => other running.1
    simp only [donatesInTime, top] at permitted
    have inTime := permitted tdonatee held lower free waits
    simp only [raisesInTime, isFree] at inTime
    exact inTime queued
  have raised := donating.raise other lower notWaiting
  rw [due] at raised
  refine raised.setStack _ (.resting (.next tdonatee newPriority lock level steady)) ?_ ?_ ?_ ?_
  · simp [Pending, top, waitsFor]
  · intro next p member
    cases mem_cons.mp member with
    | inl same =>
      cases same
      exact ⟨by simpa [Ne.symm other] using enough, .inr (by simp)⟩
    | inr later =>
      cases steady (.donateNext next p) (by simpa using later)
  · intro free p member
    cases steady (.lockPriorityDonate free p) (by simpa using member)
  · exact fun _ => ⟨.lockPriorityDonate plock newPriority, by simp [top], rfl⟩

theorem lockPriorityDonate (permitted : donatesInTime .run k) (executed : step .run k = some k') : Due k' := by
  simp only [step, top, exec, Threads.lockPriorityDonate] at executed
  split at executed
  · cases executed
  rename_i tdonatee held
  split at executed
  next lower =>
    have raised := h.donate_raises top steady permitted held lower
    rw [push_popped] at executed
    have notIdle : k.idleThread ≠ some k.current :=
      h.running.not_idle (.lockPriorityDonate plock newPriority) (by simp [top]) rfl
    obtain ⟨after, restingAfter, priority, outcome⟩ := raised.setPriority executed
      (by simpa using .next tdonatee newPriority lock level steady) (fun lock waits => raised.walker k.current
        lock waits ⟨.donateNext tdonatee newPriority, by simp, rfl⟩)
      (fun isIdle => absurd isIdle notIdle)
    have synch : k'.toSynch = k.toSynch := by
      cases switches_specificThreadSetPriority executed with
      | inl stays => exact stays.synch
      | inr yields => exact yields.synch
    cases outcome with
    | inl stays =>
      -- The walk goes on at once, and the next frame knows what is missing.
      refine after.conclude fun t => ?_
      simp [duePriority, stays.1, stays.2, synch, priority]
    | inr yields =>
      have settled : Settled k' := by
        refine after.mono fun t _ => ?_
        have greatest := after.donated t id
        rw [priority]
        split at greatest
        next follows => exact max_eq_left (h.followed top permitted held lower yields follows) ▸ greatest
        next => exact greatest
      exact settled.donating restingAfter
  next enough =>
    cases executed
    exact h.donate_ends top steady held (Int.not_lt.mp enough)

end

theorem donateNext (top : k.stack k.current = .donateNext tdonatee newPriority :: .lockDown lock level :: rest)
    (steady : ∀ frame ∈ rest, frame.steady) (executed : step .run k = some k') : Due k' := by
  have donating : Donating (fun _ => False) (duePriority k) k :=
    h.donating.mono fun t _ => h.donating.donated t (by simp [Recalculating, top])
  simp only [step, top, exec] at executed
  split at executed <;> cases executed
  next none =>
    have due : duePriority k = k.priority := by
      funext t
      simp [duePriority, top, none]
    rw [due] at donating
    exact Settled.ends donating top rfl steady
  next plock waits =>
    rw [push_popped]
    have enough := (donating.walking k.current tdonatee newPriority (by simp [top])).2.1
    have next : Donating (fun _ => False) (duePriority k) { k with
        stack := update k.stack k.current
          (.lockPriorityDonate plock newPriority :: .lockDown lock level :: rest) } := by
      refine donating.setStack _ (.donate plock newPriority lock level steady) ?_ ?_ ?_ ?_
      · simp [Pending, top, waitsFor]
      · intro other p member
        cases steady (.donateNext other p) (by simpa using member)
      · intro other p member
        cases mem_cons.mp member with
        | inl same =>
          cases same
          exact enough
        | inr later => exact donating.donor k.current other p (by simp [top, later])
      · exact fun _ => ⟨.donateNext tdonatee newPriority, by simp [top], rfl⟩
    refine next.conclude fun t => ?_
    simp [duePriority, top, waits, max_comm]

/-! ## Acquiring a lock -/

theorem begin_waiting (top : k.stack k.current = .call (.lockAcquire lock) :: rest) (level : IntrLevel)
    (donation : List Frame)
    (plockAcq : Tid → Option LockId)
    (begins : (donation = [] ∧ plockAcq = k.plockAcq ∧ k.holder lock = none) ∨
      donation = [.lockPriorityDonate lock (k.priority k.current)] ∧
        plockAcq = update k.plockAcq k.current (some lock) ∧
        ∃ holder, k.holder lock = some holder ∧ holder ≠ k.current) :
    Executing (k.originPriority k.current) (donation ++ .lockDown lock level :: rest) ∧ Donating (fun _ => False)
      (fun t => if k.holder lock = some t then max (k.priority k.current) (k.priority t) else k.priority t)
      { k with
        plockAcq := plockAcq
        stack := update k.stack k.current (donation ++ .lockDown lock level :: rest) } := by
  obtain ⟨steady, settled, idle⟩ := h.steady top rfl (by simp)
  have quiet (frame : Frame) (member : frame ∈ rest) := walks_of_steady (steady frame member)
  have shape : Executing (k.originPriority k.current) (donation ++ .lockDown lock level :: rest) := by
    rcases begins with ⟨rfl, -⟩ | ⟨rfl, -⟩
    · exact .resting (.down lock level steady)
    · exact .donate lock (k.priority k.current) lock level steady
  refine ⟨shape, settled.pend lock _ plockAcq idle shape ?_ ?_ ?_ ?_ ?_ (h.preempting.calm_of_top top (.inl ⟨_, rfl⟩))⟩
  · intro other
    have only := pending_lockDown steady lock level other
    rcases begins with ⟨rfl, -⟩ | ⟨rfl, -⟩
    · exact only
    · rw [singleton_append, exists_mem_cons_iff, or_iff_right (by simp [waitsFor])]
      exact only
  · intro tdonatee p member
    have inRest : .donateNext tdonatee p ∈ rest := by
      rcases begins with ⟨rfl, -⟩ | ⟨rfl, -⟩ <;> simpa using member
    cases steady _ inRest
  · intro other p member
    rcases begins with ⟨rfl, -⟩ | ⟨rfl, -⟩
    · cases steady (.lockPriorityDonate other p) (by simpa using member)
    · cases mem_cons.mp member with
      | inl same =>
        cases same
        rfl
      | inr later =>
        cases steady (.lockPriorityDonate other p) (by simpa using later)
  · rcases begins with ⟨-, rfl, free⟩ | ⟨-, rfl, holder, held, other⟩
    · exact .inl ⟨rfl, free⟩
    · exact .inr ⟨rfl, by simpa [held] using other⟩
  · intro free
    rcases begins with ⟨rfl, -⟩ | ⟨-, -, holder, held, -⟩
    · simpa [walks] using quiet
    · simp [free] at held

theorem lockAcquire (top : k.stack k.current = .call (.lockAcquire lock) :: rest)
    (executed : step .run k = some k') : Due k' := by
  simp only [step, top, exec, execCall, Threads.lockAcquire] at executed
  split_ifs at executed with notMine
  split at executed <;> cases executed
  next free =>
    obtain ⟨shape, waiting⟩ := h.begin_waiting top k.intr [] k.plockAcq (.inl ⟨rfl, rfl, free⟩)
    simp only [free, reduceCtorEq, if_false] at waiting
    have settled : Settled (({ k with stack := update k.stack k.current rest, intr := .off } : Kernel).push
        [.lockDown lock k.intr]) :=
      waiting.stay {} rfl
    refine settled.donating ?_
    cases shape with
    | resting resting => simpa [push] using resting
  next holder held =>
    have other : holder ≠ k.current := by
      rintro rfl
      exact notMine (.inr held)
    obtain ⟨-, waiting⟩ := h.begin_waiting top k.intr [.lockPriorityDonate lock (k.priority k.current)] _
      (.inr ⟨rfl, rfl, holder, held, other⟩)
    refine Donating.conclude (waiting.stay {} rfl) fun t => ?_
    simp [duePriority, push]

section

variable (top : k.stack k.current = .lockDown lock level :: rest) (steady : ∀ frame ∈ rest, frame.steady)

include top steady

theorem downTop : Settled k ∧ ∀ other, Pending k k.current other ↔ other = lock := by
  refine ⟨h.settled top rfl, fun other => ?_⟩
  rw [Pending, top]
  exact pending_lockDown steady lock level other

theorem lockDown_take (free : k.holder lock = none) : Settled { k with
    plockAcq := update k.plockAcq k.current none
    holder := update k.holder lock (some k.current)
    stack := update k.stack k.current rest } := by
  obtain ⟨settled, pends⟩ := h.downTop top steady
  refine settled.take pends steady free (fun other queued => ?_) (h.preempting.calm_of_top top (.inr ⟨_, _, rfl⟩)) rfl
  have blocked := (h.running.waiting (.lock other) k.current queued).1
  simp [h.running.running] at blocked

theorem lockDown (executed : step .run k = some k') : Due k' := by
  have coherent := h.locks.coherent
  simp only [step, top, exec] at executed
  split at executed
  next taken =>
    obtain ⟨settled, pends⟩ := h.downTop top steady
    have held : k.holder lock ≠ none := by
      intro free
      simp [coherent.value, free] at taken
    have queued : Settled { k with
        waiters := update k.waiters (.lock lock) (k.waiters (.lock lock) ++ [k.current]) } :=
      settled.enqueue ((pends lock).mpr rfl) held
    have same : update k.stack k.current (.lockDown lock level :: rest) = k.stack := by
      rw [← top, update_eq_self]
    refine queued.block executed { stack := by simp [push, same] } rfl
      (top ▸ .down lock level steady) (fun other pending => ?_) (fun tdonatee p member => ?_)
    · obtain rfl := (pends other).mp pending
      have awaits := (settled.awaits k.current other pending).resolve_right fun running => held running.2
      exact ⟨awaits, held, by simp⟩
    · cases steady (.donateNext tdonatee p) (by simpa [top] using member)
  next notTaken =>
    cases executed
    have settled := h.lockDown_take top steady (coherent.free_of_value notTaken)
    have after : Settled { lockOwn lock (semaTake (.lock lock)
        { k with stack := update k.stack k.current rest }) with intr := level } :=
      { settled with }
    exact after.donating (by simpa [lockOwn, semaTake] using .steady steady)

end

/-- The running thread blocks without waiting for a lock. -/
theorem block (top : k.stack k.current = frame :: rest) (isSteady : frame.steady)
    (notLevel : ∀ level, frame ≠ .intrSetLevel level) (next : Frame) (nextSteady : next.steady)
    (blocked : threadBlock between = some k')
    (moved : Reschedules { k with stack := update k.stack k.current (next :: rest) } between)
    (current : between.current = k.current) : Due k' := by
  obtain ⟨steady, settled, idle⟩ := h.steady top isSteady notLevel
  have all : ∀ below ∈ next :: rest, below.steady := by simpa [nextSteady] using steady
  have pushed : Settled { k with stack := update k.stack k.current (next :: rest) } := settled.setSteady idle all
  refine pushed.block blocked moved current (by simpa using .steady all) (fun lock waits => ?_)
    (fun tdonatee p member => ?_)
  · exact absurd (by simpa [Pending] using waits) (not_pending_of_steady all lock)
  · cases all _ (by simpa using member)

theorem isGreatest_recalculated (permitted : donatesInTime .run k)
    (top : k.stack k.current = .recalculatePriority :: rest) :
    IsGreatest (donations k k.current) (recalculatedPriority k) := by
  simp only [donatesInTime, top] at permitted
  exact isGreatest_donations (h.donating.origin k.current) (fun lock => h.locks.coherent.owned lock k.current)
    h.donating.queued (fun t late => (h.running.fresh t late).2) permitted

section

variable (executed : step .run k = some k')

include executed

/-! ## Releasing a lock -/

theorem semaUp (notLock : ∀ lock, SemaId.lock lock ≠ s)
    (top : k.stack k.current = .call (.semaUp s) :: rest) (isSteady : (call (.semaUp s)).steady) : Due k' := by
  obtain ⟨steady, settled, idle⟩ := h.steady top isSteady (by simp)
  simp only [step, top, exec, execCall] at executed
  have wakes := wakes_semaUp executed
  have synch := semaUp_synch executed
  obtain ⟨ready, waiters, woken, -⟩ := semaUp_wakes executed
  refine Donating.recalculating (settled.mono fun t _ => settled.donated t id) idle (.intrSetLevel k.intr :: rest)
    (by simpa [Frame.steady] using steady)
    ⟨by rw [synch], by rw [synch], by rw [synch], wakes.priority, ?_, fun lock => ?_,
      fun t isReady => .inr (ready t isReady)⟩
    wakes.current
  · rw [(grows_semaUp executed).stack]
    simp
  · rw [woken]
    simp [notLock lock]

theorem lockRelease (top : k.stack k.current = .call (.lockRelease lock) :: rest) : Due k' := by
  obtain ⟨steady, settled, idle⟩ := h.steady top rfl (by simp)
  simp only [step, top, exec, execCall, Threads.lockRelease] at executed
  split at executed
  swap
  · cases executed
  rename_i held
  split_ifs at executed
  have wakes := wakes_semaUp executed
  have synch := semaUp_synch executed
  obtain ⟨ready, waiters, woken, highest⟩ := semaUp_wakes executed
  have released := settled.release held ready highest
  refine Donating.recalculating (released.mono fun t notMe => released.donated t (by simpa using notMe)) idle
    (.intrSetLevel .off :: .intrSetLevel k.intr :: rest) (by simpa [Frame.steady] using steady)
      ⟨by rw [synch]; rfl, by rw [synch]; rfl, by rw [synch]; rfl,
      wakes.priority, ?_, fun other => by rw [woken]; rfl, fun t isReady => .inr isReady⟩ wakes.current
  rw [(grows_semaUp executed).stack]
  simp [push]

theorem recalculatePriority (permitted : donatesInTime .run k) (top : k.stack k.current = .recalculatePriority :: rest)
    (steady : ∀ frame ∈ rest, frame.steady) : Due k' := by
  have idle (lock : LockId) : ¬ Pending k k.current lock := by
    rw [Pending, top]
    simpa [waitsFor] using not_pending_of_steady steady lock
  simp only [step, top] at executed
  refine h.donating.setting idle steady (recalculatedPriority k) (fun t => ?_) (some.inj executed)
  split
  next me => exact me ▸ h.isGreatest_recalculated permitted top
  next notMe =>
    have greatest := h.donating.donated t fun recalculating => notMe recalculating.1
    simpa [duePriority, top] using greatest

theorem renewPriority (top : k.stack k.current = .renewPriority :: rest) : Due k' := by
  obtain ⟨steady, settled, idle⟩ := h.steady top rfl (by simp)
  simp only [step, top] at executed
  refine settled.setting idle steady (k.priority k.current) (fun t => ?_) (some.inj executed)
  split
  next me => exact me ▸ settled.donated t id
  next => exact settled.donated t id

/-! ## Threads -/

theorem threadYield (top : k.stack k.current = .call .threadYield :: rest) : Due k' := by
  obtain ⟨steady, settled, idle⟩ := h.steady top rfl (by simp)
  simp only [step, top, exec, execCall] at executed
  obtain ⟨after, resting⟩ := (settled.setSteady idle steady).yield executed (by simpa using .steady steady)
    (fun lock waits => absurd (by simpa [Pending] using waits) (not_pending_of_steady steady lock))
    (fun _ => ⟨fun lock => by simpa [Pending] using not_pending_of_steady steady lock,
      by simpa using fun frame member => walks_of_steady (steady frame member)⟩)
  have settledAfter : Settled k' := by
    rwa [Settled, (threadYield_reschedules executed).1.priority]
  exact settledAfter.donating resting

theorem threadCreate {priority : Int}
    (top : k.stack k.current = .call (.threadCreate priority) :: rest) : Due k' := by
  obtain ⟨steady, settled, idle⟩ := h.steady top rfl (by simp)
  have other := h.running.created.symm
  simp only [step, top, exec, execCall, Threads.threadCreate] at executed
  split_ifs at executed with inRange
  cases executed
  have created := settled.create other (h.running.fresh k.nextThread le_rfl).2
    (fun lock held => (h.locks.created lock k.nextThread held).false) inRange.1
  have all : ∀ frame ∈ invoke (.lockAcquire tidLock) ++ invoke (.lockRelease tidLock) ++
      [.createTail k.nextThread] ++ rest, frame.steady := by
    simpa [invoke, Frame.steady] using steady
  have pushed := created.setSteady (fun lock pending => idle lock (by simpa [Pending, other.symm] using pending)) all
  have after : Settled (({ initThread k.nextThread priority
      { k with stack := update k.stack k.current rest } with nextThread := k.nextThread + 1 } : Kernel).push
        (invoke (.lockAcquire tidLock) ++ invoke (.lockRelease tidLock) ++ [.createTail k.nextThread])) := by
    refine pushed.stay { stack := ?_ } rfl
    simp [push, initThread, update_comm other, other.symm]
  refine after.donating (.steady ?_)
  simpa [push, initThread, other.symm] using all

theorem threadSetPriority (positive : 0 ≤ newPriority)
    (top : k.stack k.current = .call (.threadSetPriority newPriority) :: rest) : Due k' := by
  obtain ⟨steady, settled, idle⟩ := h.steady top rfl (by simp)
  have resting : Resting (k.stack k.current) := by
    rw [top]
    exact .steady (by simpa [Frame.steady] using steady)
  have owned := settled.setOrigin newPriority positive resting
  have shape : Executing newPriority (.specificThreadSetPriority newPriority :: .recalculatePriority :: rest) :=
    .setPlain steady
  have pushed := owned.setPassive (by simpa [Pending] using idle) (by simpa using shape) fun frame member => by
      obtain rfl | rfl | member := by simpa using member
      · exact .inr (.inr ⟨_, rfl⟩)
      · exact .inr (.inl rfl)
      · exact .inl (steady frame member)
  simp only [step, top, exec, execCall] at executed
  cases executed
  have after : Donating _ _ (({ k with
      stack := update k.stack k.current rest
      originPriority := update k.originPriority k.current newPriority } : Kernel).push
        [.specificThreadSetPriority newPriority, .recalculatePriority]) := pushed.stay {} rfl
  refine after.mono fun t notExempt => ?_
  have notMe : t ≠ k.current := fun me => notExempt ⟨me, by simp [push]⟩
  simpa [duePriority, push, notMe] using after.donated t (by simpa using notMe)

theorem call (permitted : donatesInTime .run k) (top : k.stack k.current = .call c :: rest)
    (isSteady : (call c).steady) : Due k' := by
  cases c with
  | threadSetPriority newPriority =>
    exact h.threadSetPriority executed (by simpa [donatesInTime, top] using permitted) top
  | threadCreate priority => exact h.threadCreate executed top
  | threadYield => exact h.threadYield executed top
  | lockAcquire lock => exact h.lockAcquire top executed
  | lockRelease lock => exact h.lockRelease executed top
  | semaUp s =>
    refine h.semaUp executed ?_ top isSteady
    rintro lock rfl
    cases isSteady
  | semaDown s =>
    simp only [step, top, exec, execCall] at executed
    split_ifs at executed
    cases executed
    exact h.proceed top isSteady [.semaDownLoop s k.intr] {} (by cases s <;> simp_all [Frame.steady])
  | _ => cases isSteady

theorem run (permitted : donatesInTime .run k) : Due k' := by
  rcases top : k.stack k.current with _ | ⟨frame, rest⟩
  · simp [step, top] at executed
  have shape := h.donating.shape
  rw [top] at shape
  cases shape with
  | set _ steady =>
    obtain ⟨settled, resting⟩ := h.specificThreadSetPriority top steady executed
    exact settled.donating resting
  | setPlain steady => exact (h.setPlain top rfl steady permitted executed).1
  | donate _ _ _ _ steady => exact h.lockPriorityDonate top steady permitted executed
  | resting resting =>
    cases resting with
    | level => exact h.intrSetLevel top executed
    | down _ _ steady => exact h.lockDown top steady executed
    | next _ _ _ _ steady => exact h.donateNext top steady executed
    | recalculate steady => exact h.recalculatePriority executed permitted top steady
    | steady steady =>
      have isSteady := steady frame (.head _)
      cases frame with
      | call c => exact h.call executed permitted top isSteady
      | intrSetLevel level => exact h.intrSetLevel top executed
      | renewPriority => exact h.renewPriority executed top
      | ret c =>
        simp only [step, top] at executed
        cases executed
        exact h.proceed top isSteady []
      | semaDownLoop s level =>
        simp only [step, top, exec] at executed
        split at executed
        next =>
          refine h.block top isSteady (by simp) (.semaDownLoop s level) isSteady executed ?_ rfl
          refine { waiters := fun lock => ?_ }
          have notLock : SemaId.lock lock ≠ s := by
            rintro rfl
            cases isSteady
          simp [push, notLock]
        next =>
          cases executed
          exact h.proceed top isSteady []
      | createTail t =>
        simp only [step, top, exec] at executed
        split at executed
        next => cases executed
        next between unblocked =>
          obtain ⟨-, rfl⟩ := threadUnblock_eq unblocked
          cases executed
          exact h.proceed top isSteady [.renewPriority]
            { stack := by simp [push, insertReady],
              ready := fun u ready => .inr ((mem_listInsertOrdered ..).mpr (.inr ready)) }
      | idleStart =>
        simp only [step, top] at executed
        cases executed
        exact h.proceed top isSteady (invoke (.semaUp .idleStarted) ++ [.idleLoop])
      | idleLoop =>
        simp only [step, top] at executed
        exact h.block top isSteady (by simp) .idleHalt rfl executed {} rfl
      | idleHalt =>
        simp only [step, top] at executed
        cases executed
        exact h.proceed top isSteady [.idleLoop]
      | _ => cases isSteady

end

/-! ## Every run -/

theorem callStep (permitted : keepsDonations (.call c) k) (stepped : step (.call c) k = some k') :
    Due k' := by
  have steady : ∀ frame ∈ invoke c, frame.steady := by
    cases c <;> simp_all [keepsDonations, donatesInTime, invoke, Frame.steady]
  simp only [step] at stepped
  split at stepped
  next outside =>
    split at stepped
    next =>
      cases stepped
      have settled : Settled k := by
        refine h.donating.mono fun t _ => ?_
        simpa [duePriority, outside] using h.donating.donated t (by simp [Recalculating, outside])
      have pushed : Settled { k with stack := update k.stack k.current (invoke c) } :=
        settled.setSteady (fun lock => by simp [Pending, outside]) steady
      have after : Settled (k.push (invoke c)) := by simpa [push, outside] using pushed
      exact after.donating (by simpa [push, outside] using .steady steady)
    next => cases stepped
  next => cases stepped

theorem step {label : Label} (permitted : keepsDonations label k) (stepped : step label k = some k') :
    DonationInvariant k' := by
  cases label with
  | run =>
    have shape := h.donating.shape
    have tries : triesHeldLocks .run k := by
      simp only [triesHeldLocks]
      split
      next lock rest top => cases (top ▸ shape).call_steady
      next => trivial
    have unblocks : wakesNoneAbove .run k := by
      simp only [wakesNoneAbove]
      split
      next t rest top => cases (top ▸ shape).call_steady
      next => trivial
    exact ⟨h.running.step stepped, h.locks.step h.running tries stepped, h.preempting.step h.running unblocks stepped,
      h.run stepped permitted⟩
  | call c =>
    have tries : triesHeldLocks (.call c) k := trivial
    exact ⟨h.running.step stepped, h.locks.step h.running tries stepped, h.preempting.call stepped,
      h.callStep permitted stepped⟩
  | interrupt handler => cases permitted

end DonationInvariant

theorem donationInvariant_boot (semaInit : Nat → Nat) (tailWord : SemaId → { word : Int // word < 0 }) :
    DonationInvariant (boot semaInit tailWord) := by
  have steady : ∀ t, ∀ frame ∈ (boot semaInit tailWord).stack t, frame.steady :=
    boot_frames (by simp [invoke, steady]) (by simp [kernelThread, steady])
  have noPending (t : Tid) (lock : LockId) : ¬ Pending (boot semaInit tailWord) t lock :=
    not_pending_of_steady (steady t) lock
  have settled : Settled (boot semaInit tailWord) := by
    constructor
    case resting => exact fun t _ => .steady (steady t)
    case shape => exact .resting (.steady (steady _))
    case awaited => simp [boot]
    case awaits | walker | listed | notHolder => exact fun t lock pending => absurd pending (noPending t lock)
    case queued => simp [boot]
    case woken => simp [boot]
    case walking | donor =>
      intro t _ p member
      cases steady t _ member
    case origin =>
      intro t
      simp only [boot]
      split <;> decide
    case donated =>
      intro t _
      simp [donations, boot]
  exact ⟨running_boot semaInit tailWord, lockInvariant_boot semaInit tailWord, preempting_boot semaInit tailWord,
    settled.donating (.steady (steady _))⟩

/-- Whenever the running thread is outside the kernel functions, every thread has the largest of its own priority
and the priorities of the threads that wait for its locks. -/
theorem priority_isGreatest_donations (reached : Reachable donatesInTime k) (completed : k.stack k.current = [])
    (t : Tid) : IsGreatest (donations k t) (k.priority t) := by
  obtain ⟨semaInit, tailWord, reaches⟩ := reached
  have invariant := reaches.invariant DonationInvariant (donationInvariant_boot semaInit tailWord)
    fun before permitted stepped => before.step (keepsDonations_of_donatesInTime permitted) stepped
  simpa [duePriority, completed] using invariant.donating.donated t (by simp [Recalculating, completed])

/-- Thread 3 waits for a lock of thread 2, which waits for a lock of the initial thread. -/
theorem priority_isGreatest_donations_example : ∃ k : Kernel, k.holder 1 = some initialThread ∧ Pending k 2 1 ∧
    k.holder 2 = some 2 ∧ Pending k 3 2 ∧ k.priority 3 = 50 ∧
    IsGreatest (donations k 2) (k.priority 2) ∧ IsGreatest (donations k initialThread) (k.priority initialThread) := by
  obtain ⟨k, reached, completed, held, waits, nextHeld, nextWaits, priority⟩ := exists_reachable donatesInTime
    (fun k => k.stack k.current = [] ∧ k.holder 1 = some initialThread ∧ Pending k 2 1 ∧ k.holder 2 = some 2 ∧
      Pending k 3 2 ∧ k.priority 3 = 50)
    (callThen (.lockAcquire 1) 3 ++ callThen (.threadCreate 40) 14 ++ callThen (.lockAcquire 2) 3 ++
      callThen (.lockAcquire 1) 5 ++ callThen .threadYield 7 ++ callThen (.threadCreate 50) 14 ++
      callThen (.lockAcquire 2) 7)
    (by decide +kernel)
  exact ⟨k, held, waits, nextHeld, nextWaits, priority, priority_isGreatest_donations reached completed 2,
    priority_isGreatest_donations reached completed initialThread⟩

/-- Thread 2 has donated 40 through lock 1 and was preempted before it entered the list of waiters.  When the
initial thread releases lock 2, it falls back to its own priority, though it keeps lock 1. -/
theorem lockRelease_loses_donation : ∃ k, Reachable anyStep k ∧ k.stack k.current = [] ∧
    ¬ IsGreatest (donations k initialThread) (k.priority initialThread) := by
  obtain ⟨k, reached, completed, held, waits, lower⟩ := exists_reachable anyStep
    (fun k => k.stack k.current = [] ∧ k.holder 1 = some initialThread ∧ Pending k 2 1 ∧
      k.priority initialThread < k.priority 2)
    (callThen (.lockAcquire 1) 3 ++ callThen (.lockAcquire 2) 3 ++ callThen (.threadCreate 40) 14 ++
      callThen (.lockAcquire 1) 5 ++ callThen (.lockRelease 2) 12)
    (by decide +kernel)
  refine ⟨k, reached, completed, fun greatest => ?_⟩
  exact absurd lower (Int.not_lt.mpr (greatest.2 (.inr ⟨2, 1, held, waits, rfl⟩)))

/-! ## `thread_set_priority` -/

/-- Frames of `thread_set_priority` after it has set the thread's own priority. -/
def Frame.setsPriority : Frame → Bool
  | .specificThreadSetPriority _ | .recalculatePriority | .intrSetLevel _ => true
  | _ => false

/-- A thread in `thread_set_priority` is at its start, or has the new priority as its own. -/
def OwnSet (k : Kernel) : Prop :=
  ∀ t n, .ret (.threadSetPriority n) ∈ k.stack t → k.stack t = invoke (.threadSetPriority n) ∨
    k.originPriority t = n ∧ ∃ frames, k.stack t = frames ++ [.ret (.threadSetPriority n)] ∧
      ∀ frame ∈ frames, frame.setsPriority

theorem threadSetPriority_other (running : k.toSched.Running) {label : Label} (stepped : step label k = some k')
    (other : t ≠ k.current) (n : Int) (isRet : .ret (.threadSetPriority n) ∈ k'.stack t) :
    k'.stack t = k.stack t ∧ k'.originPriority t = k.originPriority t := by
  obtain same | ⟨-, new⟩ := (step_stack running.created stepped).2 t other
  · have created : t ≠ k.nextThread := by
      rintro rfl
      simp [same, (running.fresh _ le_rfl).2] at isRet
    refine ⟨same, ?_⟩
    have moved := step_synch stepped
    generalize k'.toSynch = after at moved
    cases moved with
    | run top synch => cases synch <;> simp [other, created, lockOwn, semaTake]
    | call | timer | device => rfl
  · simp [new, kernelThread] at isRet

theorem OwnSet.current (own : OwnSet k) (running : k.toSched.Running) {label : Label} (stepped : step label k = some k')
    (permitted : keepsDonations label k) (n : Int) (isRet : .ret (.threadSetPriority n) ∈ k'.stack k.current) :
    k'.stack k.current = invoke (.threadSetPriority n) ∨ k'.originPriority k.current = n ∧
      ∃ frames, k'.stack k.current = frames ++ [.ret (.threadSetPriority n)] ∧
        ∀ frame ∈ frames, frame.setsPriority := by
  have moved := (step_stack running.created stepped).1
  generalize k'.stack k.current = stack at moved isRet ⊢
  cases moved with
  | timer | device => cases permitted
  | @call c =>
    obtain rfl : .threadSetPriority n = c := by simpa [invoke] using isRet
    exact .inl rfl
  | @run frame rest pushed top continues =>
    have kept : .ret (.threadSetPriority n) ∈ rest := by
      refine (mem_append.mp isRet).resolve_left fun new => ?_
      cases continues <;> simp [invoke] at new
    refine .inr ?_
    obtain start | ⟨isOwn, frames, split, sets⟩ := own k.current n (by simp [top, kept])
    · cases top.symm.trans start
      simp only [step, top, exec, execCall] at stepped
      cases stepped
      refine ⟨by simp [push], pushed, rfl, ?_⟩
      cases continues <;> simp [Frame.setsPriority]
    · obtain _ | ⟨first, frames⟩ := frames
      · cases top.symm.trans split
        cases kept
      · cases top.symm.trans split
        have isSet := sets frame (.head _)
        have all : ∀ other ∈ pushed, other.setsPriority := by
          cases continues <;> first | (simp [Frame.setsPriority]; done) | cases isSet
        refine ⟨?_, pushed ++ frames, by simp, fun other member => ?_⟩
        · have synch := step_synch stepped
          generalize k'.toSynch = after at synch
          cases synch with
          | run top' synch =>
            cases top.symm.trans top'
            cases synch <;> first | exact isOwn | cases isSet
        · cases mem_append.mp member with
          | inl new => exact all other new
          | inr old => exact sets other (.tail _ old)

theorem OwnSet.step (own : OwnSet k) (running : k.toSched.Running) {label : Label} (permitted : keepsDonations label k)
    (stepped : step label k = some k') : OwnSet k' := by
  intro t n isRet
  by_cases me : t = k.current
  · subst me
    exact own.current running stepped permitted n isRet
  · obtain ⟨stack, origin⟩ := threadSetPriority_other running stepped me n isRet
    rw [stack, origin]
    exact own t n (stack ▸ isRet)

namespace DonationInvariant

variable (h : DonationInvariant k)

include h

end DonationInvariant

end Pintos.Threads
