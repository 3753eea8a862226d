import Pintos.Threads.LockCoherence
import Pintos.Threads.Preemption
import Mathlib.Order.Bounds.Basic
import Mathlib.Algebra.Order.Ring.Int

/-! # Donated priorities

What a state has to satisfy for every thread to run at the maximum of its own priority and the priorities of
the threads that wait for its locks, and what each elementary change of the state does to it.  A change that
is still to be completed by the next frame of the running thread is written into `due`, the priority that a
thread will have then.
-/

namespace Pintos.Threads

open Function Frame

/-- The thread has called `lock_acquire` on the lock and has not obtained it. -/
def Pending (k : Kernel) (t : Tid) (lock : LockId) : Prop :=
  ∃ frame ∈ k.stack t, frame.waitsFor = some (.lock lock)

instance (k : Kernel) (t : Tid) (lock : LockId) : Decidable (Pending k t lock) :=
  inferInstanceAs (Decidable (∃ frame ∈ k.stack t, _))

/-- The priorities that a thread has a claim to: its own, and those of the threads that wait for its locks. -/
def donations (k : Kernel) (t : Tid) : Set Int :=
  insert (k.originPriority t) { p | ∃ w lock, k.holder lock = some t ∧ Pending k w lock ∧ k.priority w = p }

def Sched.Active (s : Sched) (t : Tid) : Prop :=
  t = s.current ∨ t ∈ s.readyList

/-! ## Shapes of stacks -/

/-- Frames of functions on locks, of `thread_create`, `thread_yield` and `thread_set_priority`, and of the start of the
kernel, that neither acquire a lock nor change a priority. -/
def Frame.steady : Frame → Bool
  | .call (.threadCreate _) | .call .threadYield | .call (.threadSetPriority _) | .call (.lockAcquire _)
  | .call (.lockRelease _) | .call (.semaDown .idleStarted) | .call (.semaUp .idleStarted) | .ret _ | .intrSetLevel _
  | .semaDownLoop .idleStarted _ | .createTail _ | .renewPriority | .idleStart | .idleLoop | .idleHalt => true
  | _ => false

/-- The stack of a thread that can be switched away from. -/
inductive Resting : List Frame → Prop
  | steady {stack} (steady : ∀ frame ∈ stack, frame.steady) : Resting stack
  | level {stack} (level : IntrLevel) (rest : Resting stack) : Resting (.intrSetLevel level :: stack)
  | down {rest} (lock : LockId) (level : IntrLevel) (steady : ∀ frame ∈ rest, frame.steady) :
      Resting (.lockDown lock level :: rest)
  | next {rest} (tdonatee : Tid) (newPriority : Int) (lock : LockId) (level : IntrLevel)
      (steady : ∀ frame ∈ rest, frame.steady) :
      Resting (.donateNext tdonatee newPriority :: .lockDown lock level :: rest)
  | recalculate {rest} (steady : ∀ frame ∈ rest, frame.steady) : Resting (.recalculatePriority :: rest)

/-- The stack of the running thread, with its own priority. -/
inductive Executing (origin : Int) : List Frame → Prop
  | resting {stack} (rest : Resting stack) : Executing origin stack
  | set {rest} (newPriority : Int) (steady : ∀ frame ∈ rest, frame.steady) :
      Executing origin (.specificThreadSetPriority newPriority :: rest)
  -- `thread_set_priority` sets the priority before it looks for donations.
  | setPlain {rest} (steady : ∀ frame ∈ rest, frame.steady) :
      Executing origin (.specificThreadSetPriority origin :: .recalculatePriority :: rest)
  | donate {rest} (plock : LockId) (newPriority : Int) (lock : LockId) (level : IntrLevel)
      (steady : ∀ frame ∈ rest, frame.steady) :
      Executing origin (.lockPriorityDonate plock newPriority :: .lockDown lock level :: rest)

variable {stack : List Frame}

theorem Resting.pop_level {level : IntrLevel} (rest : Resting (.intrSetLevel level :: stack)) : Resting stack := by
  cases rest with
  | steady steady => exact .steady fun frame member => steady frame (.tail _ member)
  | level _ rest => exact rest

variable {frame : Frame}

theorem Executing.steady_of_top {origin : Int} (shape : Executing origin (frame :: stack)) (steady : frame.steady)
    (notLevel : ∀ level, frame ≠ .intrSetLevel level) : ∀ below ∈ stack, below.steady := by
  cases shape with
  | resting rest =>
    cases rest with
    | steady all => exact fun below member => all below (.tail _ member)
    | level level _ => exact absurd rfl (notLevel level)
    | down | next | recalculate => cases steady
  | set | setPlain | donate => cases steady

/-- A stack of steady frames waits for no lock and is not in the middle of a donation. -/
theorem waitsFor_of_steady (steady : frame.steady) (lock : LockId) : frame.waitsFor ≠ some (.lock lock) := by
  cases frame with
  | semaDownLoop s level => cases s <;> simp_all [Frame.steady, Frame.waitsFor]
  | lockDown => cases steady
  | _ => simp [waitsFor]

/-- Frames of a donation. -/
def Frame.walks : Frame → Bool
  | .lockPriorityDonate _ _ | .donateNext _ _ => true
  | _ => false

theorem walks_of_steady (steady : frame.steady) : frame.walks = false := by
  cases frame <;> simp_all [Frame.steady, Frame.walks]

/-! ## The invariant -/

structure Donating (exempt : Tid → Prop) (due : Tid → Int) (k : Kernel) : Prop where
  resting : ∀ t, t ≠ k.current → Resting (k.stack t)
  shape : Executing (k.originPriority k.current) (k.stack k.current)
  -- `plock_acq` is the lock that a thread waits for; it is not set for a lock that is free.
  awaited : ∀ t lock, k.plockAcq t = some lock → Pending k t lock
  awaits : ∀ t lock, Pending k t lock → k.plockAcq t = some lock ∨ t = k.current ∧ k.holder lock = none
  walker : ∀ t lock, Pending k t lock → (∃ frame ∈ k.stack t, frame.walks) → k.plockAcq t = some lock
  listed : ∀ t lock, Pending k t lock → k.toSched.Active t ∨ t ∈ k.waiters (.lock lock)
  queued : ∀ lock, ∀ t ∈ k.waiters (.lock lock), Pending k t lock
  notHolder : ∀ t lock, Pending k t lock → k.holder lock ≠ some t
  -- A waiter of highest priority has been woken for a lock that is free.
  woken : ∀ lock, k.holder lock = none → ∀ t ∈ k.waiters (.lock lock),
    ∃ w, k.toSched.Active w ∧ Pending k w lock ∧ k.priority t ≤ k.priority w
  -- A donation that was preempted has nothing left to do.
  walking : ∀ t tdonatee p, .donateNext tdonatee p ∈ k.stack t →
    k.toSched.Active t ∧ p ≤ k.priority t ∧ (k.plockAcq tdonatee = none ∨ p ≤ k.priority tdonatee)
  donor : ∀ t lock p, .lockPriorityDonate lock p ∈ k.stack t → p ≤ k.priority t
  origin : ∀ t, 0 ≤ k.originPriority t
  donated : ∀ t, ¬ exempt t → IsGreatest (donations k t) (due t)

variable {exempt : Tid → Prop} {due : Tid → Int} {k k' : Kernel}

theorem donations_congr (pending : ∀ t lock, Pending k' t lock ↔ Pending k t lock)
    (originPriority : k'.originPriority = k.originPriority) (holder : k'.holder = k.holder)
    (priority : k'.priority = k.priority) (t : Tid) : donations k' t = donations k t := by
  simp only [donations, originPriority, holder, pending, priority]

section

variable (h : Donating exempt due k)

include h

theorem Donating.mono {exempt' : Tid → Prop} {due' : Tid → Int}
    (donated : ∀ t, ¬ exempt' t → IsGreatest (donations k t) (due' t)) : Donating exempt' due' k :=
  { h with donated := donated }

/-! ## Switching between threads -/

omit h in
/-- Nothing has changed but which threads are ready and which one is running. -/
structure Reschedules (k k' : Kernel) : Prop where
  originPriority : k'.originPriority = k.originPriority := by rfl
  plockAcq : k'.plockAcq = k.plockAcq := by rfl
  holder : k'.holder = k.holder := by rfl
  priority : k'.priority = k.priority := by rfl
  stack : k'.stack = k.stack := by first | rfl | simp [Kernel.push]
  waiters : ∀ lock, k'.waiters (.lock lock) = k.waiters (.lock lock) := by intro; rfl
  ready : ∀ t ∈ k.readyList, k'.toSched.Active t := by exact fun t ready => .inr ready

omit h in
theorem Reschedules.pending (moved : Reschedules k k') (t : Tid) (lock : LockId) :
    Pending k' t lock ↔ Pending k t lock := by
  simp only [Pending, moved.stack]

/-- The running thread may be switched away from if it stays ready, or waits for its lock. -/
theorem Donating.reschedule (moved : Reschedules k k') (resting : k'.current ≠ k.current → Resting (k.stack k.current) ∧
      ∀ lock, Pending k k.current lock → k.plockAcq k.current = some lock)
    (leaves : k'.toSched.Active k.current ∨
      (∀ lock, Pending k k.current lock → k.holder lock ≠ none ∧ k.current ∈ k.waiters (.lock lock)) ∧
        ∀ tdonatee p, .donateNext tdonatee p ∉ k.stack k.current) : Donating exempt due k' := by
  have active {t : Tid} (isActive : k.toSched.Active t) (stays : t = k.current → k'.toSched.Active k.current) :
      k'.toSched.Active t := by
    cases isActive with
    | inl running => exact running ▸ stays running
    | inr ready => exact moved.ready t ready
  constructor
  case resting =>
    intro t other
    rw [moved.stack]
    by_cases was : t = k.current
    · subst was
      exact (resting (Ne.symm other)).1
    · exact h.resting t was
  case shape =>
    rw [moved.stack, moved.originPriority]
    by_cases same : k'.current = k.current
    · exact same ▸ h.shape
    · exact .resting (h.resting _ same)
  case awaited => simpa only [moved.pending, moved.plockAcq] using h.awaited
  case awaits =>
    intro t lock pending
    rw [moved.plockAcq, moved.holder]
    rw [moved.pending] at pending
    cases h.awaits t lock pending with
    | inl waits => exact .inl waits
    | inr running =>
      obtain ⟨rfl, free⟩ := running
      by_cases same : k'.current = k.current
      · exact .inr ⟨same.symm, free⟩
      · exact .inl ((resting same).2 lock pending)
  case walker => simpa only [moved.pending, moved.stack, moved.plockAcq] using h.walker
  case listed =>
    intro t lock pending
    rw [moved.pending] at pending
    rw [moved.waiters]
    cases h.listed t lock pending with
    | inr waits => exact .inr waits
    | inl isActive =>
      by_cases was : t = k.current
      · subst was
        cases leaves with
        | inl stays => exact .inl stays
        | inr blocks => exact .inr (blocks.1 lock pending).2
      · exact .inl (active isActive fun same => absurd same was)
  case queued => simpa only [moved.pending, moved.waiters] using h.queued
  case notHolder => simpa only [moved.pending, moved.holder] using h.notHolder
  case woken =>
    intro lock free t waits
    rw [moved.holder] at free
    rw [moved.waiters] at waits
    obtain ⟨w, isActive, pending, le⟩ := h.woken lock free t waits
    refine ⟨w, active isActive fun was => ?_, (moved.pending w lock).mpr pending, by rwa [moved.priority]⟩
    subst was
    exact leaves.resolve_right fun blocks => (blocks.1 lock pending).1 free
  case walking =>
    intro t tdonatee p member
    rw [moved.stack] at member
    obtain ⟨isActive, bound⟩ := h.walking t tdonatee p member
    refine ⟨active isActive fun was => ?_, by rwa [moved.priority, moved.plockAcq]⟩
    subst was
    exact leaves.resolve_right fun blocks => blocks.2 tdonatee p member
  case donor => simpa only [moved.stack, moved.priority] using h.donor
  case origin => simpa only [moved.originPriority] using h.origin
  case donated =>
    intro t notExempt
    rw [donations_congr moved.pending moved.originPriority moved.holder moved.priority]
    exact h.donated t notExempt

theorem Donating.stay (moved : Reschedules k k') (current : k'.current = k.current) : Donating exempt due k' :=
  h.reschedule moved (absurd current) (.inl (.inl current.symm))

/-! ## The stack of the running thread -/

theorem Donating.setStack (stack : List Frame) (shape : Executing (k.originPriority k.current) stack)
    (pends : ∀ lock, (∃ frame ∈ stack, frame.waitsFor = some (.lock lock)) ↔ Pending k k.current lock)
    (walks : ∀ tdonatee p, .donateNext tdonatee p ∈ stack →
      p ≤ k.priority k.current ∧ (k.plockAcq tdonatee = none ∨ p ≤ k.priority tdonatee))
    (donates : ∀ lock p, .lockPriorityDonate lock p ∈ stack → p ≤ k.priority k.current)
    (walker : (∃ frame ∈ stack, frame.walks) → ∃ frame ∈ k.stack k.current, frame.walks) :
    Donating exempt due { k with stack := update k.stack k.current stack } := by
  have pending : ∀ t lock, Pending { k with stack := update k.stack k.current stack } t lock ↔
      Pending k t lock := by
    intro t lock
    by_cases me : t = k.current
    · subst me
      simpa [Pending] using pends lock
    · simp [Pending, me]
  constructor
  case resting =>
    intro t other
    simpa [show t ≠ k.current from other] using h.resting t other
  case shape => simpa using shape
  case awaited => simpa only [pending] using h.awaited
  case awaits => simpa only [pending] using h.awaits
  case walker =>
    intro t lock pends walks
    refine h.walker t lock ((pending t lock).mp pends) ?_
    by_cases me : t = k.current
    · subst me
      exact walker (by simpa using walks)
    · simpa [me] using walks
  case listed => exact fun t lock pends => h.listed t lock ((pending t lock).mp pends)
  case queued => simpa only [pending] using h.queued
  case notHolder => simpa only [pending] using h.notHolder
  case woken =>
    intro lock free t waits
    obtain ⟨w, isActive, pends, le⟩ := h.woken lock free t waits
    exact ⟨w, isActive, (pending w lock).mpr pends, le⟩
  case walking =>
    intro t tdonatee p member
    by_cases me : t = k.current
    · subst me
      exact ⟨.inl rfl, walks tdonatee p (by simpa using member)⟩
    · exact h.walking t tdonatee p (by simpa [me] using member)
  case donor =>
    intro t lock p member
    by_cases me : t = k.current
    · subst me
      exact donates lock p (by simpa using member)
    · exact h.donor t lock p (by simpa [me] using member)
  case origin => exact h.origin
  case donated =>
    intro t notExempt
    have same := donations_congr pending rfl rfl rfl t
    exact same ▸ h.donated t notExempt

omit h in
theorem not_pending_of_steady (steady : ∀ frame ∈ stack, frame.steady) (lock : LockId) :
    ¬ ∃ frame ∈ stack, frame.waitsFor = some (.lock lock) := by
  rintro ⟨frame, member, waits⟩
  exact waitsFor_of_steady (steady frame member) lock waits

/-- The running thread is outside `lock_acquire`, and stays there. -/
theorem Donating.setPassive (idle : ∀ lock, ¬ Pending k k.current lock)
    (shape : Executing (k.originPriority k.current) stack)
    (passive : ∀ frame ∈ stack, frame.steady ∨ frame = .recalculatePriority ∨
      ∃ newPriority, frame = .specificThreadSetPriority newPriority) :
    Donating exempt due { k with stack := update k.stack k.current stack } := by
  refine h.setStack stack shape (fun lock => iff_of_false ?_ (idle lock)) (fun tdonatee p member => ?_)
    (fun lock p member => ?_) ?_
  · rintro ⟨frame, member, waits⟩
    rcases passive frame member with steady | rfl | ⟨_, rfl⟩
    · exact waitsFor_of_steady steady lock waits
    all_goals cases waits
  · rcases passive _ member with steady | same | ⟨_, same⟩
    · cases steady
    all_goals cases same
  · rcases passive _ member with steady | same | ⟨_, same⟩
    · cases steady
    all_goals cases same
  · rintro ⟨frame, member, walks⟩
    rcases passive frame member with steady | rfl | ⟨_, rfl⟩
    · simp [walks_of_steady steady] at walks
    all_goals cases walks

theorem Donating.setSteady (idle : ∀ lock, ¬ Pending k k.current lock) (steady : ∀ frame ∈ stack, frame.steady) :
    Donating exempt due { k with stack := update k.stack k.current stack } :=
  h.setPassive idle (.resting (.steady steady)) fun frame member => .inl (steady frame member)

/-! ## Priorities -/

variable {t donor : Tid}

omit h in
theorem donations_setPriority (newPriority : Int) (noDonor : ∀ lock, k.holder lock = some t → ¬ Pending k donor lock) :
    donations { k with priority := update k.priority donor newPriority } t = donations k t := by
  refine congrArg (insert _) (Set.ext fun p => exists₂_congr fun w lock => ?_)
  refine and_congr_right fun held => and_congr_right fun pending => ?_
  have other : w ≠ donor := fun same => noDonor lock held (same ▸ pending)
  simp [other]

/-- The priority of the running thread, which waits for nothing, donates to nobody. -/
theorem Donating.setCurrent (newPriority : Int) (idle : ∀ lock, ¬ Pending k k.current lock)
    (still : ∀ frame ∈ k.stack k.current, frame.walks = false) :
    Donating exempt due { k with priority := update k.priority k.current newPriority } := by
  have other {t : Tid} {lock : LockId} (pending : Pending k t lock) : t ≠ k.current := by
    rintro rfl
    exact idle lock pending
  exact { h with
    woken := by
      intro lock free t waits
      obtain ⟨w, isActive, pending, le⟩ := h.woken lock free t waits
      refine ⟨w, isActive, pending, ?_⟩
      simpa [other pending, other (h.queued lock t waits)] using le
    walking := by
      intro t tdonatee p member
      obtain ⟨isActive, le, bound⟩ := h.walking t tdonatee p member
      have notMe : t ≠ k.current := by
        rintro rfl
        cases still _ member
      refine ⟨isActive, by simpa [notMe] using le, ?_⟩
      by_cases me : tdonatee = k.current
      · refine .inl (Option.eq_none_iff_forall_ne_some.mpr fun lock waits => ?_)
        exact idle lock (me ▸ h.awaited tdonatee lock waits)
      · simpa [me] using bound
    donor := by
      intro t lock p member
      have notMe : t ≠ k.current := by
        rintro rfl
        cases still _ member
      simpa [notMe] using h.donor t lock p member
    donated := by
      intro t notExempt
      rw [donations_setPriority newPriority fun lock _ => idle lock]
      exact h.donated t notExempt }

/-- The own priority of the running thread changes, and with it what the thread has a claim to. -/
theorem Donating.setOrigin (newPriority : Int) (positive : 0 ≤ newPriority) (resting : Resting (k.stack k.current)) :
    Donating (fun t => exempt t ∨ t = k.current) due
      { k with originPriority := update k.originPriority k.current newPriority } := by
  refine { h with shape := .resting resting, origin := fun t => ?_, donated := fun t notExempt => ?_ }
  · by_cases me : t = k.current
    · simpa [me] using positive
    · simpa [me] using h.origin t
  · obtain ⟨notExempt, notMe⟩ := not_or.mp notExempt
    have same : donations { k with originPriority := update k.originPriority k.current newPriority } t =
        donations k t := by
      simp [donations, notMe, Pending]
    rw [same]
    exact h.donated t notExempt

variable {lock : LockId} {newPriority : Int}

omit h in
theorem isGreatest_raise {greatest : Int} (isGreatest : IsGreatest (donations k t) greatest)
    (lower : k.priority donor < newPriority) (held : k.holder lock = some t) (pending : Pending k donor lock) :
    IsGreatest (donations { k with priority := update k.priority donor newPriority } t)
      (max greatest newPriority) := by
  constructor
  · cases le_total newPriority greatest with
    | inl below =>
      rw [max_eq_left below]
      cases isGreatest.1 with
      | inl own => exact .inl own
      | inr donated =>
        obtain ⟨w, other, otherHeld, otherPending, rfl⟩ := donated
        have notDonor : w ≠ donor := by
          rintro rfl
          exact absurd below (Int.not_le.mpr lower)
        exact .inr ⟨w, other, otherHeld, otherPending, by simp [notDonor]⟩
    | inr above =>
      rw [max_eq_right above]
      exact .inr ⟨donor, lock, held, pending, by simp⟩
  · rintro p (rfl | ⟨w, other, otherHeld, otherPending, rfl⟩)
    · exact (isGreatest.2 (.inl rfl)).trans (le_max_left _ _)
    · by_cases isDonor : w = donor
      · subst isDonor
        simp
      · have below := isGreatest.2 (.inr ⟨w, other, otherHeld, otherPending, rfl⟩)
        simpa [isDonor] using .inl below

/-- A donation raises a thread.  Only the holder of the lock that this thread waits for then has a claim to more
than before. -/
theorem Donating.raise {tdonatee : Tid} (other : tdonatee ≠ k.current) (lower : k.priority tdonatee < newPriority)
    (notWaiting : ∀ lock, k.holder lock = none → tdonatee ∉ k.waiters (.lock lock)) :
    Donating exempt (fun t => if (k.plockAcq tdonatee).bind k.holder = some t then max (due t) newPriority else due t)
      { k with priority := update k.priority tdonatee newPriority } := by
  have le (t : Tid) : k.priority t ≤ update k.priority tdonatee newPriority t := by
    by_cases raised : t = tdonatee
    · subst raised
      simpa using lower.le
    · simp [raised]
  exact { h with
    woken := by
      intro lock free t waits
      obtain ⟨w, isActive, pending, below⟩ := h.woken lock free t waits
      have notRaised : t ≠ tdonatee := by
        rintro rfl
        exact notWaiting lock free waits
      refine ⟨w, isActive, pending, ?_⟩
      simpa [notRaised] using below.trans (le w)
    walking := by
      intro t next p member
      obtain ⟨isActive, below, bound⟩ := h.walking t next p member
      exact ⟨isActive, below.trans (le t), bound.imp_right fun bound => bound.trans (le next)⟩
    donor := fun t lock p member => (h.donor t lock p member).trans (le t)
    donated := by
      intro t notExempt
      by_cases follows : (k.plockAcq tdonatee).bind k.holder = some t
      · obtain ⟨lock, waits, held⟩ := Option.bind_eq_some_iff.mp follows
        rw [if_pos follows]
        exact isGreatest_raise (h.donated t notExempt) lower held (h.awaited tdonatee lock waits)
      · rw [if_neg follows, donations_setPriority newPriority fun lock held pending => ?_]
        · exact h.donated t notExempt
        · have waits := (h.awaits tdonatee lock pending).resolve_right fun running => other running.1
          exact follows (by simp [waits, held]) }

/-! ## Locks -/

omit h in
theorem donations_pend {w : Tid} (pending : ∀ t other, Pending k' t other ↔ Pending k t other ∨ t = w ∧ other = lock)
    (originPriority : k'.originPriority = k.originPriority) (holder : k'.holder = k.holder)
    (priority : k'.priority = k.priority) :
    donations k' t = if k.holder lock = some t then insert (k.priority w) (donations k t) else donations k t := by
  split <;> ext p
  next held =>
    simp only [donations, originPriority, holder, priority, pending, Set.mem_insert_iff, Set.mem_ofPred_eq]
    constructor
    · rintro (own | ⟨u, other, otherHeld, before | ⟨rfl, rfl⟩, rfl⟩)
      · exact .inr (.inl own)
      · exact .inr (.inr ⟨u, other, otherHeld, before, rfl⟩)
      · exact .inl rfl
    · rintro (rfl | own | ⟨u, other, otherHeld, before, rfl⟩)
      · exact .inr ⟨w, lock, held, .inr ⟨rfl, rfl⟩, rfl⟩
      · exact .inl own
      · exact .inr ⟨u, other, otherHeld, .inl before, rfl⟩
  next notHeld =>
    simp only [donations, originPriority, holder, priority, pending, Set.mem_insert_iff, Set.mem_ofPred_eq]
    refine or_congr_right (exists₂_congr fun u other => and_congr_right fun otherHeld => and_congr_left fun _ => ?_)
    exact or_iff_left fun new => notHeld (new.2 ▸ otherHeld)

/-- The running thread begins to wait for a lock.  If the lock is held, its holder has a claim to the priority
of the running thread. -/
theorem Donating.pend (lock : LockId) (stack : List Frame)
    (plockAcq : Tid → Option LockId) (idle : ∀ other, ¬ Pending k k.current other)
    (shape : Executing (k.originPriority k.current) stack)
    (pends : ∀ other, (∃ frame ∈ stack, frame.waitsFor = some (.lock other)) ↔ other = lock)
    (noNext : ∀ tdonatee p, .donateNext tdonatee p ∉ stack)
    (donates : ∀ other p, .lockPriorityDonate other p ∈ stack → p = k.priority k.current)
    (waits : plockAcq = k.plockAcq ∧ k.holder lock = none ∨
      plockAcq = update k.plockAcq k.current (some lock) ∧ k.holder lock ≠ some k.current)
    (quiet : k.holder lock = none → ¬ ∃ frame ∈ stack, frame.walks) (calm : k.toSched.Calm) :
    Donating exempt (fun t => if k.holder lock = some t then max (k.priority k.current) (due t) else due t)
      { k with plockAcq := plockAcq, stack := update k.stack k.current stack } := by
  have pending (t : Tid) (other : LockId) :
      Pending { k with plockAcq := plockAcq, stack := update k.stack k.current stack } t other ↔
        Pending k t other ∨ t = k.current ∧ other = lock := by
    by_cases me : t = k.current
    · subst me
      rw [or_iff_right (idle other)]
      simpa [Pending] using pends other
    · simp [Pending, me]
  have notMe {t : Tid} {other : LockId} (before : Pending k t other) : t ≠ k.current := by
    rintro rfl
    exact idle other before
  have same {t : Tid} (other : t ≠ k.current) : plockAcq t = k.plockAcq t := by
    cases waits with
    | inl free => rw [free.1]
    | inr held => simp [held.1, other]
  constructor
  case resting =>
    intro t other
    simpa [show t ≠ k.current from other] using h.resting t other
  case shape => simpa using shape
  case awaited =>
    intro t other awaits
    apply (pending t other).mpr
    by_cases me : t = k.current
    · subst me
      cases waits with
      | inl free => exact .inl (h.awaited _ other (free.1 ▸ awaits))
      | inr held => exact .inr ⟨rfl, by simpa [held.1, eq_comm] using awaits⟩
    · exact .inl (h.awaited t other ((same me).symm.trans awaits))
  case awaits =>
    intro t other pends
    cases (pending t other).mp pends with
    | inl before =>
      exact .inl ((same (notMe before)).trans
        ((h.awaits t other before).resolve_right fun running => notMe before running.1))
    | inr new =>
      obtain ⟨rfl, rfl⟩ := new
      cases waits with
      | inl free => exact .inr ⟨rfl, free.2⟩
      | inr held => exact .inl (by simp [held.1])
  case walker =>
    intro t other pends walks
    cases (pending t other).mp pends with
    | inl before => exact (same (notMe before)).trans (h.walker t other before (by simpa [notMe before] using walks))
    | inr new =>
      obtain ⟨rfl, rfl⟩ := new
      cases waits with
      | inl free => exact absurd (by simpa using walks) (quiet free.2)
      | inr held => simp [held.1]
  case listed =>
    intro t other pends
    cases (pending t other).mp pends with
    | inl before => exact h.listed t other before
    | inr new => exact .inl (.inl new.1)
  case queued => exact fun other t waiting => (pending t other).mpr (.inl (h.queued other t waiting))
  case notHolder =>
    intro t other pends
    cases (pending t other).mp pends with
    | inl before => exact h.notHolder t other before
    | inr new =>
      obtain ⟨rfl, rfl⟩ := new
      cases waits with
      | inl free => simp [free.2]
      | inr held => exact held.2
  case woken =>
    intro other free t waiting
    obtain ⟨w, isActive, before, le⟩ := h.woken other free t waiting
    exact ⟨w, isActive, (pending w other).mpr (.inl before), le⟩
  case walking =>
    intro t tdonatee p member
    have notMe : t ≠ k.current := by
      rintro rfl
      exact noNext tdonatee p (by simpa using member)
    obtain ⟨isActive, le, bound⟩ := h.walking t tdonatee p (by simpa [notMe] using member)
    refine ⟨isActive, le, ?_⟩
    by_cases me : tdonatee = k.current
    · subst me
      exact .inr (le.trans (calm t (isActive.resolve_left notMe)))
    · exact bound.imp_left (same me).trans
  case donor =>
    intro t other p member
    by_cases me : t = k.current
    · subst me
      exact (donates other p (by simpa using member)).le
    · exact h.donor t other p (by simpa [me] using member)
  case origin => exact h.origin
  case donated =>
    intro t notExempt
    rw [donations_pend pending rfl rfl rfl]
    split
    next => exact (h.donated t notExempt).insert _
    next => exact h.donated t notExempt

/-- The running thread obtains a free lock: no other thread that waits for it has a higher priority. -/
theorem Donating.take (pends : ∀ other, Pending k k.current other ↔ other = lock)
    (steady : ∀ frame ∈ stack, frame.steady) (free : k.holder lock = none)
    (notQueued : ∀ other, k.current ∉ k.waiters (.lock other)) (calm : k.toSched.Calm)
    (settled : due k.current = k.priority k.current) :
    Donating exempt due { k with
      plockAcq := update k.plockAcq k.current none
      holder := update k.holder lock (some k.current)
      stack := update k.stack k.current stack } := by
  have pending (t : Tid) (other : LockId) : (∃ frame ∈ update k.stack k.current stack t,
      frame.waitsFor = some (.lock other)) ↔ Pending k t other ∧ t ≠ k.current := by
    by_cases me : t = k.current
    · subst me
      simpa [Pending] using not_pending_of_steady steady other
    · simp [Pending, me]
  have notMine {w : Tid} {other : LockId} (notTaken : other ≠ lock) (waits : Pending k w other) : w ≠ k.current := by
    rintro rfl
    exact notTaken ((pends other).mp waits)
  have lower {t : Tid} (isActive : k.toSched.Active t) : k.priority t ≤ k.priority k.current := by
    cases isActive with
    | inl running => exact running ▸ le_rfl
    | inr ready => exact calm t ready
  -- Every thread that waits for the lock is ready, or waits behind a thread that was woken for it.
  have below {w : Tid} (waits : Pending k w lock) : k.priority w ≤ k.priority k.current := by
    cases h.listed w lock waits with
    | inl isActive => exact lower isActive
    | inr queued =>
      obtain ⟨first, isActive, -, le⟩ := h.woken lock free w queued
      exact le.trans (lower isActive)
  constructor
  case resting =>
    intro t other
    simpa [show t ≠ k.current from other] using h.resting t other
  case shape => simpa using Executing.resting (.steady steady)
  case awaited =>
    intro t other awaits
    have notMe : t ≠ k.current := by
      rintro rfl
      simp at awaits
    exact (pending t other).mpr ⟨h.awaited t other (by simpa [notMe] using awaits), notMe⟩
  case awaits =>
    intro t other waits
    obtain ⟨before, notMe⟩ := (pending t other).mp waits
    have awaits := (h.awaits t other before).resolve_right fun running => notMe running.1
    exact .inl (by simpa [notMe] using awaits)
  case walker =>
    intro t other waits walks
    obtain ⟨before, notMe⟩ := (pending t other).mp waits
    simpa [notMe] using h.walker t other before (by simpa [notMe] using walks)
  case listed => exact fun t other waits => h.listed t other ((pending t other).mp waits).1
  case queued =>
    intro other t queued
    exact (pending t other).mpr ⟨h.queued other t queued, ne_of_mem_of_not_mem queued (notQueued other)⟩
  case notHolder =>
    intro t other waits
    obtain ⟨before, notMe⟩ := (pending t other).mp waits
    by_cases taken : other = lock
    · simp [taken, Ne.symm notMe]
    · simpa [taken] using h.notHolder t other before
  case woken =>
    intro other stillFree t queued
    have notTaken : other ≠ lock := by
      rintro rfl
      simp at stillFree
    obtain ⟨w, isActive, waits, le⟩ := h.woken other (by simpa [notTaken] using stillFree) t queued
    exact ⟨w, isActive, (pending w other).mpr ⟨waits, notMine notTaken waits⟩, le⟩
  case walking =>
    intro t tdonatee p member
    have notMe : t ≠ k.current := by
      rintro rfl
      cases steady _ (by simpa using member)
    obtain ⟨isActive, le, bound⟩ := h.walking t tdonatee p (by simpa [notMe] using member)
    refine ⟨isActive, le, bound.imp_left fun awaits => ?_⟩
    by_cases me : tdonatee = k.current
    · simp [me]
    · simpa [me] using awaits
  case donor =>
    intro t other p member
    have notMe : t ≠ k.current := by
      rintro rfl
      cases steady _ (by simpa using member)
    exact h.donor t other p (by simpa [notMe] using member)
  case origin => exact h.origin
  case donated =>
    intro t notExempt
    have greatest := h.donated t notExempt
    constructor
    · cases greatest.1 with
      | inl own => exact .inl own
      | inr donated =>
        obtain ⟨w, other, held, waits, eq⟩ := donated
        have notTaken : other ≠ lock := by
          rintro rfl
          simp [free] at held
        exact .inr ⟨w, other, by simpa [notTaken] using held, (pending w other).mpr ⟨waits, notMine notTaken waits⟩, eq⟩
    · rintro p (rfl | ⟨w, other, held, waits, rfl⟩)
      · exact greatest.2 (.inl rfl)
      · have before := ((pending w other).mp waits).1
        by_cases taken : other = lock
        · subst taken
          obtain rfl : k.current = t := by simpa using held
          exact settled ▸ below before
        · exact greatest.2 (.inr ⟨w, other, by simpa [taken] using held, before, rfl⟩)

/-- A lock is released, and the waiter of highest priority woken.  The priority of the thread that held it is
still to be recalculated. -/
theorem Donating.release {rest readyList : List Tid}
    (held : k.holder lock = some k.current) (ready : ∀ t ∈ k.readyList, t ∈ readyList)
    (wakes : k.waiters (.lock lock) = [] ∧ rest = [] ∨
      ∃ first ∈ readyList, (k.waiters (.lock lock)).Perm (first :: rest) ∧
        ∀ t ∈ rest, k.priority t ≤ k.priority first) :
    Donating (fun t => exempt t ∨ t = k.current) due { k with
      holder := update k.holder lock none
      waiters := update k.waiters (.lock lock) rest
      readyList := readyList } := by
  have active {t : Tid} (isActive : k.toSched.Active t) : t = k.current ∨ t ∈ readyList :=
    isActive.imp_right (ready t)
  have kept {t : Tid} {other : LockId} (stillHeld : update k.holder lock none other = some t) :
      k.holder other = some t := by
    by_cases released : other = lock
    · simp [released] at stillHeld
    · simpa [released] using stillHeld
  have subset : ∀ t ∈ rest, t ∈ k.waiters (.lock lock) := by
    intro t member
    cases wakes with
    | inl none => simp [none.2] at member
    | inr some =>
      obtain ⟨first, -, perm, -⟩ := some
      exact perm.mem_iff.mpr (.tail _ member)
  refine { h with
    awaits := ?awaits, listed := ?listed, queued := ?queued, notHolder := ?notHolder, woken := ?woken
    walking := ?walking, donated := ?donated }
  case awaits =>
    intro t other waits
    refine (h.awaits t other waits).imp_right fun running => ⟨running.1, ?_⟩
    by_cases released : other = lock
    · simp [released]
    · simpa [released] using running.2
  case listed =>
    intro t other waits
    cases h.listed t other waits with
    | inl isActive => exact .inl (active isActive)
    | inr queued =>
      by_cases released : other = lock
      · subst released
        cases wakes with
        | inl none => simp [none.1] at queued
        | inr some =>
          obtain ⟨first, isReady, perm, -⟩ := some
          cases List.mem_cons.mp (perm.mem_iff.mp queued) with
          | inl isFirst => exact .inl (.inr (isFirst ▸ isReady))
          | inr later => exact .inr (by simpa using later)
      · exact .inr (by simpa [released] using queued)
  case queued =>
    intro other t queued
    by_cases released : other = lock
    · subst released
      exact h.queued other t (subset t (by simpa using queued))
    · exact h.queued other t (by simpa [released] using queued)
  case notHolder => exact fun t other waits stillHeld => h.notHolder t other waits (kept stillHeld)
  case woken =>
    intro other free t queued
    by_cases released : other = lock
    · subst released
      have member : t ∈ rest := by simpa using queued
      cases wakes with
      | inl none => simp [none.2] at member
      | inr some =>
        obtain ⟨first, isReady, perm, highest⟩ := some
        exact ⟨first, .inr isReady, h.queued other first (perm.mem_iff.mpr (.head _)), highest t member⟩
    · obtain ⟨w, isActive, waits, le⟩ :=
        h.woken other (by simpa [released] using free) t (by simpa [released] using queued)
      exact ⟨w, active isActive, waits, le⟩
  case walking =>
    intro t tdonatee p member
    obtain ⟨isActive, bound⟩ := h.walking t tdonatee p member
    exact ⟨active isActive, bound⟩
  case donated =>
    intro t notExempt
    simp only [not_or] at notExempt
    have greatest := h.donated t notExempt.1
    constructor
    · refine greatest.1.imp_right ?_
      rintro ⟨w, other, otherHeld, waits, eq⟩
      have notReleased : other ≠ lock := by
        rintro rfl
        exact notExempt.2 (Option.some.inj (otherHeld.symm.trans held))
      exact ⟨w, other, by simpa [notReleased] using otherHeld, waits, eq⟩
    · rintro p (rfl | ⟨w, other, stillHeld, waits, rfl⟩)
      · exact greatest.2 (.inl rfl)
      · exact greatest.2 (.inr ⟨w, other, kept stillHeld, waits, rfl⟩)

/-- The running thread enters the list of waiters of a lock that is held. -/
theorem Donating.enqueue (waits : Pending k k.current lock) (held : k.holder lock ≠ none) : Donating exempt due { k with
      waiters := update k.waiters (.lock lock) (k.waiters (.lock lock) ++ [k.current]) } := by
  have queues (t : Tid) (other : LockId) :
      t ∈ update k.waiters (.lock lock) (k.waiters (.lock lock) ++ [k.current]) (.lock other) ↔
        t ∈ k.waiters (.lock other) ∨ t = k.current ∧ other = lock := by
    by_cases same : other = lock
    · subst same
      simp
    · simp [same]
  exact { h with
    listed := fun t other pending =>
      (h.listed t other pending).imp_right fun queued => (queues t other).mpr (.inl queued)
    queued := by
      intro other t queued
      cases (queues t other).mp queued with
      | inl before => exact h.queued other t before
      | inr new =>
        obtain ⟨rfl, rfl⟩ := new
        exact waits
    woken := by
      intro other free t queued
      cases (queues t other).mp queued with
      | inl before => exact h.woken other free t before
      | inr new => exact absurd free (new.2 ▸ held) }

/-! ## New threads -/

theorem Donating.create {priority : Int} (other : t ≠ k.current) (new : k.stack t = [])
    (noLock : ∀ lock, k.holder lock ≠ some t) (positive : 0 ≤ priority) :
    Donating exempt (update due t priority) { k with
      priority := update k.priority t priority
      originPriority := update k.originPriority t priority
      plockAcq := update k.plockAcq t none
      stack := update k.stack t kernelThread } := by
  have pending (u : Tid) (lock : LockId) : (∃ frame ∈ update k.stack t kernelThread u,
      frame.waitsFor = some (.lock lock)) ↔ Pending k u lock := by
    by_cases isNew : u = t
    · subst isNew
      simp [Pending, new, kernelThread, waitsFor]
    · simp [Pending, isNew]
  have older {u : Tid} {lock : LockId} (waits : Pending k u lock) : u ≠ t := by
    rintro rfl
    simp [Pending, new] at waits
  have stackOf {u : Tid} {frame : Frame} (member : frame ∈ update k.stack t kernelThread u)
      (notLevel : frame ≠ .intrSetLevel .on) : u ≠ t ∧ frame ∈ k.stack u := by
    by_cases isNew : u = t
    · subst isNew
      simp [kernelThread, notLevel] at member
    · exact ⟨isNew, by simpa [isNew] using member⟩
  constructor
  case resting =>
    intro u notRunning
    by_cases isNew : u = t
    · subst isNew
      simpa using Resting.steady (by simp [kernelThread, steady])
    · simpa [isNew] using h.resting u notRunning
  case shape => simpa [Ne.symm other] using h.shape
  case awaited =>
    intro u lock awaits
    have notNew : u ≠ t := by
      rintro rfl
      simp at awaits
    exact (pending u lock).mpr (h.awaited u lock (by simpa [notNew] using awaits))
  case awaits =>
    intro u lock waits
    have before := (pending u lock).mp waits
    simpa [older before] using h.awaits u lock before
  case walker =>
    intro u lock waits walks
    have before := (pending u lock).mp waits
    simpa [older before] using h.walker u lock before (by simpa [older before] using walks)
  case listed => exact fun u lock waits => h.listed u lock ((pending u lock).mp waits)
  case queued => exact fun lock u queued => (pending u lock).mpr (h.queued lock u queued)
  case notHolder => exact fun u lock waits => h.notHolder u lock ((pending u lock).mp waits)
  case woken =>
    intro lock free u queued
    obtain ⟨w, isActive, waits, le⟩ := h.woken lock free u queued
    refine ⟨w, isActive, (pending w lock).mpr waits, ?_⟩
    simpa [older waits, older (h.queued lock u queued)] using le
  case walking =>
    intro u tdonatee p member
    obtain ⟨notNew, before⟩ := stackOf member (by simp)
    obtain ⟨isActive, le, bound⟩ := h.walking u tdonatee p before
    refine ⟨isActive, by simpa [notNew] using le, ?_⟩
    by_cases isNew : tdonatee = t
    · exact .inl (by simp [isNew])
    · simpa [isNew] using bound
  case donor =>
    intro u lock p member
    obtain ⟨notNew, before⟩ := stackOf member (by simp)
    simpa [notNew] using h.donor u lock p before
  case origin =>
    intro u
    by_cases isNew : u = t
    · simpa [isNew] using positive
    · simpa [isNew] using h.origin u
  case donated =>
    intro u notExempt
    by_cases isNew : u = t
    · subst isNew
      constructor
      · exact .inl (by simp)
      · rintro p (rfl | ⟨w, lock, held, waits, rfl⟩)
        · simp
        · exact absurd held (noLock lock)
    · have greatest := h.donated u notExempt
      simp only [update_of_ne isNew]
      constructor
      · refine greatest.1.imp (fun own => by simpa [isNew] using own) ?_
        rintro ⟨w, lock, held, waits, eq⟩
        exact ⟨w, lock, held, (pending w lock).mpr waits, by simpa [older waits] using eq⟩
      · rintro p (rfl | ⟨w, lock, held, waits, rfl⟩)
        · simpa [isNew] using greatest.2 (.inl rfl)
        · have before := (pending w lock).mp waits
          simpa [older before] using greatest.2 (.inr ⟨w, lock, held, before, rfl⟩)

end

end Pintos.Threads
