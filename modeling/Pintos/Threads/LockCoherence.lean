import Pintos.Threads.ReadyQueue

/-! # Locks: the holder, the semaphore and the list of owned locks

`lock_acquire` and `lock_release` keep the three views of a lock together.  `lock_try_acquire` does not: where
it succeeds it sets the holder without entering the lock into the list of owned locks.
-/

namespace Pintos.Threads

open Sched Function Frame

/-- `lock_try_acquire` is only called on locks that some thread holds. -/
def triesHeldLocks : Label → Kernel → Prop
  | .run, k =>
    match k.stack k.current with
    | .call (.lockTryAcquire lock) :: _ => k.holder lock ≠ none
    | _ => True
  | _, _ => True

instance : ∀ label k, Decidable (triesHeldLocks label k)
  | .run, k => by
    simp only [triesHeldLocks]
    generalize k.stack k.current = stack
    revert stack
    exact id fun (stack : Stack) => by split <;> infer_instance
  | .call _, _ => .isTrue trivial
  | .interrupt _, _ => .isTrue trivial

/-- Frames that use the semaphore of a lock, other than those of `lock_acquire` and `lock_release`. -/
def Frame.usesLockSema : Frame → Bool
  | .call (.semaDown (.lock _)) | .call (.semaTryDown (.lock _)) | .call (.semaUp (.lock _))
  | .semaDownLoop (.lock _) _ | .lockTaken _ => true
  | _ => false

/-- The views of the locks agree: the history of acquires and releases, the holders, the semaphores and the
lists of owned locks. -/
structure LocksCoherent (s : Synch) : Prop where
  held : ∀ lock t, s.holder lock = some t ↔ (t, lock) ∈ s.sections
  sectionsNodup : s.sections.Nodup
  value : ∀ lock, s.value (.lock lock) = if s.holder lock = none then 1 else 0
  owned : ∀ lock t, lock ∈ s.lockOwnList t ↔ s.holder lock = some t
  ownedNodup : ∀ t, (s.lockOwnList t).Nodup

/-! ## One step -/

theorem Continues.usesLockSema {frame : Frame} {pushed : List Frame} (continues : Continues frame pushed)
    (notTry : ∀ lock, frame ≠ .call (.lockTryAcquire lock)) (other : frame.usesLockSema = false) :
    ∀ next ∈ pushed, next.usesLockSema = false := by
  cases continues with
  | lockTryAcquire lock => exact absurd rfl (notTry lock)
  | semaDown s | semaDownLoop s => cases s <;> simp_all [Frame.usesLockSema]
  | _ => simp [invoke, Frame.usesLockSema]

theorem Call.usesLockSema_of_isPublic {c : Call} (isPublic : c.isPublic) :
    ∀ frame ∈ invoke c, frame.usesLockSema = false := by
  cases c with
  | semaDown s | semaTryDown s | semaUp s => cases s <;> simp_all [invoke, usesLockSema, Call.isPublic]
  | _ => simp [invoke, usesLockSema]

variable {s : Synch} {lock : LockId}

section

variable (h : LocksCoherent s)

include h

theorem LocksCoherent.value_eq_zero (held : s.holder lock ≠ none) : s.value (.lock lock) = 0 := by
  rw [h.value, if_neg held]

theorem LocksCoherent.free_of_value (positive : s.value (.lock lock) ≠ 0) : s.holder lock = none := by
  by_contra held
  exact positive (h.value_eq_zero held)

theorem LocksCoherent.congr {s' : Synch} (holder : s'.holder = s.holder) (sections : s'.sections = s.sections)
    (lockOwnList : s'.lockOwnList = s.lockOwnList) (value : ∀ lock, s'.value (.lock lock) = s.value (.lock lock)) :
    LocksCoherent s' := by
  constructor
  case held => simpa only [holder, sections] using h.held
  case sectionsNodup => exact sections ▸ h.sectionsNodup
  case value => simpa only [holder, value] using h.value
  case owned => simpa only [holder, lockOwnList] using h.owned
  case ownedNodup => exact lockOwnList ▸ h.ownedNodup

theorem LocksCoherent.setValue {sema : SemaId} (other : ∀ lock, sema ≠ .lock lock) (value : Nat) :
    LocksCoherent { s with value := update s.value sema value } :=
  h.congr rfl rfl rfl fun lock => by simp [(other lock).symm]

theorem LocksCoherent.acquire (t : Tid)
    (free : s.holder lock = none) (plockAcq : Tid → Option LockId) : LocksCoherent { s with
      plockAcq := plockAcq
      value := update s.value (.lock lock) (s.value (.lock lock) - 1)
      lockOwnList := update s.lockOwnList t (s.lockOwnList t ++ [lock])
      holder := update s.holder lock (some t)
      sections := (t, lock) :: s.sections } := by
  have unowned : ∀ u, lock ∉ s.lockOwnList u := by
    intro u owned
    simp [(h.owned lock u).mp owned] at free
  constructor
  case held =>
    intro other u
    by_cases same : other = lock
    · subst same
      have outside : (u, other) ∉ s.sections := by
        intro inside
        simp [(h.held other u).mpr inside] at free
      simp [outside, eq_comm]
    · simpa [same] using h.held other u
  case sectionsNodup =>
    apply List.nodup_cons.mpr ⟨?_, h.sectionsNodup⟩
    intro inside
    simp [(h.held lock t).mpr inside] at free
  case value =>
    intro other
    by_cases same : other = lock
    · subst same
      simp [h.value, free]
    · simpa [same] using h.value other
  case owned =>
    intro other u
    by_cases mine : u = t
    · subst mine
      by_cases same : other = lock
      · simp [same]
      · simpa [same] using h.owned other u
    · by_cases same : other = lock
      · subst same
        simp [mine, unowned u, Ne.symm mine]
      · simpa [mine, same] using h.owned other u
  case ownedNodup =>
    intro u
    by_cases mine : u = t
    · subst mine
      simpa [List.nodup_append, h.ownedNodup u] using fun other owned => ne_of_mem_of_not_mem owned (unowned u)
    · simpa [mine] using h.ownedNodup u

theorem LocksCoherent.release {t : Tid} (held : s.holder lock = some t) : LocksCoherent { s with
      holder := update s.holder lock none
      lockOwnList := update s.lockOwnList t ((s.lockOwnList t).erase lock)
      value := update s.value (.lock lock) ((s.value (.lock lock) + 1) % 2 ^ 32)
      sections := s.sections.erase (t, lock) } := by
  constructor
  case held =>
    intro other u
    rw [h.sectionsNodup.mem_erase_iff, ← h.held other u]
    by_cases same : other = lock
    · subst same
      simp [held, eq_comm]
    · simp [same]
  case sectionsNodup => exact h.sectionsNodup.erase _
  case value =>
    intro other
    by_cases same : other = lock
    · subst same
      simp [h.value, held]
    · simpa [same] using h.value other
  case owned =>
    intro other u
    by_cases mine : u = t
    · subst mine
      simp only [update_self, (h.ownedNodup u).mem_erase_iff, h.owned other u]
      by_cases same : other = lock <;> simp [same]
    · simp only [update_of_ne mine, h.owned other u]
      by_cases same : other = lock
      · subst same
        simp [held, Ne.symm mine]
      · simp [same]
  case ownedNodup =>
    intro u
    by_cases mine : u = t
    · subst mine
      simpa using (h.ownedNodup u).erase lock
    · simpa [mine] using h.ownedNodup u

end

variable {k k' : Kernel}

/-- The views agree, and no frame is about to change them otherwise than `lock_acquire` and `lock_release` do. -/
structure LockInvariant (k : Kernel) : Prop where
  coherent : LocksCoherent k.toSynch
  created : ∀ lock t, k.holder lock = some t → t < k.nextThread
  frames : ∀ t, ∀ frame ∈ k.stack t, frame.usesLockSema = false

variable {label : Label}

section

variable (h : LockInvariant k)

include h

theorem LockInvariant.frames_step (running : k.toSched.Running)
    (permitted : triesHeldLocks label k) (stepped : step label k = some k') :
    ∀ t, ∀ frame ∈ k'.stack t, frame.usesLockSema = false := by
  obtain ⟨mine, others⟩ := step_stack running.created stepped
  intro t
  by_cases other : t = k.current
  · subst other
    have before := h.frames k.current
    generalize after : k'.stack k.current = stack at mine
    cases mine with
    | @run frame rest pushed top continues =>
      rw [top] at before
      by_cases tries : ∃ lock, frame = .call (.lockTryAcquire lock)
      · obtain ⟨lock, rfl⟩ := tries
        simp only [triesHeldLocks, top] at permitted
        -- A `lock_try_acquire` of a held lock returns without any change.
        simp only [step, top, exec, execCall, lockTryAcquire, h.coherent.value_eq_zero permitted] at stepped
        split at stepped
        next => cases stepped
        next =>
          cases stepped
          have popped : pushed ++ rest = rest := by simpa using after.symm
          rw [popped]
          exact fun frame member => before frame (.tail _ member)
      · have new := continues.usesLockSema (fun lock same => tries ⟨lock, same⟩) (before frame (.head _))
        intro next member
        cases List.mem_append.mp member with
        | inl pushed => exact new next pushed
        | inr old => exact before next (.tail _ old)
    | call outside isPublic => exact Call.usesLockSema_of_isPublic isPublic
    | timer | device => simpa [usesLockSema] using before
  · cases others t other with
    | inl same => exact same ▸ h.frames t
    | inr new => simp [new.2, kernelThread, usesLockSema]

theorem LockInvariant.coherent_step (permitted : triesHeldLocks label k)
    (stepped : step label k = some k') : LocksCoherent k'.toSynch := by
  have coherent := h.coherent
  have move := step_synch stepped
  generalize k'.toSynch = after at move
  cases move with
  | call | timer => exact coherent
  | device s => exact coherent.setValue (by simp) _
  | @run frame rest after top synch =>
    have plain := h.frames k.current frame (by simp [top])
    cases synch with
    | same => exact coherent
    | threadCreate priority inRange =>
      -- The new thread holds no lock, so that its list was empty before.
      refine coherent.congr rfl rfl ?_ fun lock => rfl
      refine update_eq_self_iff.mpr (Eq.symm (List.eq_nil_iff_forall_not_mem.mpr fun lock owned => ?_))
      exact (h.created lock _ ((coherent.owned lock _).mp owned)).false
    | threadSetPriority | lockAcquire | condSignal | condSorted => exact coherent.congr rfl rfl rfl fun lock => rfl
    | semaTryDown | semaUp | semaDownLoop =>
      refine coherent.setValue ?_ _
      rintro lock rfl
      cases plain
    | lockTryAcquire lock positive =>
      simp only [triesHeldLocks, top] at permitted
      exact absurd (coherent.free_of_value positive.ne') permitted
    | lockRelease lock held owned => exact coherent.release held
    | condWait cond lock => exact coherent.congr rfl rfl rfl fun lock => by simp
    | lockDown lock level positive => exact coherent.acquire k.current (coherent.free_of_value positive) _
    | lockTaken => cases plain

theorem LockInvariant.created_step (running : k.toSched.Running)
    (stepped : step label k = some k') : ∀ lock t, k'.holder lock = some t → t < k'.nextThread := by
  have le := (step_monotone stepped).2
  have current : k.current < k.nextThread := running.lt_nextThread (by simp [running.running])
  have move := step_synch stepped
  suffices before : ∀ lock t, k'.holder lock = some t → t < k.nextThread from
    fun lock t held => (before lock t held).trans_le le
  have own : ∀ lock other t, update k.holder lock (some k.current) other = some t → t < k.nextThread := by
    intro lock other t holds
    by_cases same : other = lock
    · have me : k.current = t := by simpa [same] using holds
      exact me ▸ current
    · exact h.created other t (by simpa [same] using holds)
  generalize k'.toSynch = after at move
  cases move with
  | call | timer | device => exact h.created
  | @run frame rest after top synch =>
    cases synch with
    | lockRelease lock held owned =>
      intro other t stillHeld
      by_cases same : other = lock
      · simp [same] at stillHeld
      · exact h.created other t (by simpa [same] using stillHeld)
    | lockDown lock | lockTaken lock => exact own lock
    | _ => exact h.created

theorem LockInvariant.step (running : k.toSched.Running) (permitted : triesHeldLocks label k)
    (stepped : step label k = some k') : LockInvariant k' :=
  ⟨h.coherent_step permitted stepped, h.created_step running stepped, h.frames_step running permitted stepped⟩

end

/-! ## Every run -/

theorem lockInvariant_boot (semaInit : Nat → Nat) (tailWord : SemaId → { word : Int // word < 0 }) :
    LockInvariant (boot semaInit tailWord) := by
  constructor
  case coherent => constructor <;> simp [boot]
  case created => simp [boot]
  case frames => exact boot_frames (by simp [invoke, usesLockSema]) (by simp [kernelThread, usesLockSema])

theorem Reachable.lockInvariant (reached : Reachable triesHeldLocks k) : LockInvariant k :=
  (reached.invariant LockInvariant lockInvariant_boot fun running h => h.step running).2

/-- At most one thread is past its acquire and before its release of a lock; it is the lock's holder, the
semaphore is 1 exactly while there is none, and the lock is in the list of its holder only. -/
theorem locks_coherent (reached : Reachable triesHeldLocks k) (lock : LockId) :
    (k.sections.Nodup ∧ ∀ t u, (t, lock) ∈ k.sections → (u, lock) ∈ k.sections → t = u) ∧
      (∀ t, k.holder lock = some t ↔ (t, lock) ∈ k.sections) ∧
      (k.value (.lock lock) = 1 ↔ k.holder lock = none) ∧
      ∀ t, (k.lockOwnList t).Nodup ∧ (lock ∈ k.lockOwnList t ↔ k.holder lock = some t) := by
  have coherent := reached.lockInvariant.coherent
  refine ⟨⟨coherent.sectionsNodup, fun t u one two => ?_⟩, coherent.held lock, ?_,
    fun t => ⟨coherent.ownedNodup t, coherent.owned lock t⟩⟩
  · have held := (coherent.held lock t).mpr one
    exact Option.some.inj (held.symm.trans ((coherent.held lock u).mpr two))
  · rw [coherent.value]
    split <;> simp_all

/-- The initial thread has a lock that another thread has tried to take. -/
theorem locks_coherent_example : ∃ k : Kernel, k.current = 2 ∧ k.holder 1 = some initialThread ∧
    k.lockOwnList initialThread = [1] ∧ (initialThread, 1) ∈ k.sections := by
  obtain ⟨k, reached, running, held, owned⟩ := exists_reachable triesHeldLocks
    (fun k => k.current = 2 ∧ k.holder 1 = some initialThread ∧ k.lockOwnList initialThread = [1])
    (callThen (.lockAcquire 1) 3 ++ callThen (.threadCreate 40) 14 ++ callThen (.lockTryAcquire 1) 2)
    (by decide +kernel)
  obtain ⟨-, section_iff, -⟩ := locks_coherent reached 1
  exact ⟨k, running, held, owned, (section_iff initialThread).mp held⟩

/-- Only functions of locks are called. -/
def lockCalls : Label → Kernel → Prop
  | .run, _ | .call (.lockAcquire _), _ | .call (.lockTryAcquire _), _ | .call (.lockRelease _), _ => True
  | _, _ => False

instance : ∀ label k, Decidable (lockCalls label k) := by
  intro label k
  unfold lockCalls
  split <;> infer_instance

/-- The initial thread has taken a free lock with `lock_try_acquire` and is about to release it: the lock is
not in its list, where `list_remove` would look for it. -/
theorem lockTryAcquire_not_owned : ∃ k, Reachable lockCalls k ∧
    k.stack k.current = invoke (.lockRelease 1) ∧ k.holder 1 = some k.current ∧ 1 ∉ k.lockOwnList k.current ∧
      step .run k = none := by
  obtain ⟨k, reached, shown⟩ := exists_reachable lockCalls
    (fun k => k.stack k.current = invoke (.lockRelease 1) ∧ k.holder 1 = some k.current ∧
      1 ∉ k.lockOwnList k.current ∧ (step .run k).isNone)
    (callThen (.lockTryAcquire 1) 3 ++ [.call (.lockRelease 1)]) (by decide +kernel)
  exact ⟨k, reached, by simpa using shown⟩

end Pintos.Threads
