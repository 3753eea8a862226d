import Mathlib.Data.List.Nodup
import Pintos.Threads.ReadyQueue

/-! # Semaphores (`threads/synch.c`)

What each step does to the value and the waiters of each semaphore, and the account of every semaphore along every run:
its downs and ups, and the threads that `sema_up` has made ready and that have not yet tested the value again.
-/

namespace Pintos.Threads

open Library Function List

/-- What a thread or an interrupt handler does to a semaphore in one step. -/
inductive SemaEvent
  | up
  | tryDown
  -- The test of the loop of `sema_down`, for the first time or after a wait.
  | test
  -- `sema_init` of the semaphore of `cond_wait`.
  | init
  deriving DecidableEq, Repr

/-- The event of a frame, executed by the given thread. -/
def Frame.semaEvent (current : Tid) : Frame → Option (SemaId × SemaEvent)
  | .call (.semaUp s) => some (s, .up)
  | .call (.lockRelease lock) => some (.lock lock, .up)
  | .call (.semaTryDown s) => some (s, .tryDown)
  | .call (.lockTryAcquire lock) => some (.lock lock, .tryDown)
  | .call (.condWait _ _) => some (.waiter current, .init)
  | .semaDownLoop s _ => some (s, .test)
  | .lockDown lock _ => some (.lock lock, .test)
  | _ => none

def semaEvent (label : Label) (k : Kernel) : Option (SemaId × SemaEvent) :=
  match label with
  | .run => (k.stack k.current).head?.bind (Frame.semaEvent k.current)
  | .call _ | .interrupt .timer => none
  | .interrupt (.device s) => some (.sema s, .up)

/-! ## One step -/

/-- `sema_up` makes the given waiter ready, or nobody where there is none. -/
inductive Readies (s : SemaId) (k k' : Kernel) : Prop
  | nobody (empty : k.waiters s = []) (waiters : k'.waiters = k.waiters)
  | first (first : Tid) (rest : List Tid) (perm : (first :: rest).Perm (k.waiters s))
      (highest : ∀ t ∈ k.waiters s, k.priority t ≤ k.priority first)
      (waiters : k'.waiters = update k.waiters s rest)
      (status : k'.status = update k.status first .ready)

/-- What an event does to the semaphores. -/
inductive SemaMove (k k' : Kernel) : Option (SemaId × SemaEvent) → Prop
  | none (value : k'.value = k.value) (waiters : k'.waiters = k.waiters) : SemaMove k k' none
  | up (s : SemaId) (value : k'.value = update k.value s ((k.value s + 1) % 2 ^ 32)) (readies : Readies s k k') :
      SemaMove k k' (some (s, .up))
  | fail (s : SemaId) (zero : k.value s = 0) (value : k'.value = k.value) (waiters : k'.waiters = k.waiters) :
      SemaMove k k' (some (s, .tryDown))
  | tryDown (s : SemaId) (positive : 0 < k.value s) (value : k'.value = update k.value s (k.value s - 1))
      (waiters : k'.waiters = k.waiters) : SemaMove k k' (some (s, .tryDown))
  | wait (s : SemaId) (zero : k.value s = 0) (value : k'.value = k.value)
      (waiters : k'.waiters = update k.waiters s (k.waiters s ++ [k.current])) : SemaMove k k' (some (s, .test))
  | down (s : SemaId) (positive : 0 < k.value s) (value : k'.value = update k.value s (k.value s - 1))
      (waiters : k'.waiters = k.waiters) : SemaMove k k' (some (s, .test))
  | init (s : SemaId) (value : k'.value = update k.value s 0)
      (waiters : k'.waiters = update k.waiters s []) : SemaMove k k' (some (s, .init))

variable {k k' between : Kernel} {s : SemaId} {rest : List Tid} {first : Tid} {event : SemaEvent} {label : Label}

theorem semaUp_semaMove (upped : semaUp s k = some k') : SemaMove k k' (some (s, .up)) := by
  have value : k'.value = update k.value s ((k.value s + 1) % 2 ^ 32) :=
    congrArg Synch.value (semaUp_synch upped)
  refine .up s value ?_
  simp only [semaUp] at upped
  split at upped
  next empty =>
    cases upped
    exact .nobody (empty_of_sorted empty) rfl
  next first rest sorted =>
    obtain ⟨perm, highest⟩ := highest_first sorted
    obtain ⟨_, rfl⟩ := threadUnblock_eq upped
    exact .first first rest perm highest rfl rfl

theorem Readies.of_same (readies : Readies s between k') (waiters : between.waiters = k.waiters)
    (priority : between.priority = k.priority) (status : between.status = k.status) : Readies s k k' := by
  cases readies with
  | nobody empty same => exact .nobody (waiters ▸ empty) (same.trans waiters)
  | first first rest perm highest after ready =>
    rw [waiters] at perm highest after
    rw [priority] at highest
    rw [status] at ready
    exact .first first rest perm highest after ready

/-- A step that starts with changes elsewhere. -/
theorem SemaMove.of_same {event : Option (SemaId × SemaEvent)} (move : SemaMove between k' event)
    (value : between.value = k.value) (waiters : between.waiters = k.waiters) (priority : between.priority = k.priority)
    (status : between.status = k.status) (current : between.current = k.current) : SemaMove k k' event := by
  cases move with
  | none sameValue sameWaiters => exact .none (sameValue.trans value) (sameWaiters.trans waiters)
  | up s added readies => exact .up s (value ▸ added) (readies.of_same waiters priority status)
  | fail s zero sameValue sameWaiters =>
    exact .fail s (value ▸ zero) (sameValue.trans value) (sameWaiters.trans waiters)
  | tryDown s positive taken sameWaiters =>
    exact .tryDown s (value ▸ positive) (value ▸ taken) (sameWaiters.trans waiters)
  | wait s zero sameValue waits =>
    exact .wait s (value ▸ zero) (sameValue.trans value) (by rw [waits, waiters, current])
  | down s positive taken sameWaiters => exact .down s (value ▸ positive) (value ▸ taken) (sameWaiters.trans waiters)
  | init s zero empty => exact .init s (value ▸ zero) (waiters ▸ empty)

theorem exec_semaMove {frame : Frame} (executed : exec frame k = some k') :
    SemaMove k k' (frame.semaEvent k.current) := by
  obtain ⟨change, frames, ending, effect, run⟩ := exec_effect executed
  by_cases isUp : ∃ s, ending = .up s
  · obtain ⟨s, rfl⟩ := isUp
    cases effect with
    | semaUp | lockRelease => exact (semaUp_semaMove run).of_same rfl rfl rfl rfl rfl
  obtain ⟨pushed, -, switches⟩ := Ending.switches run fun s same => isUp ⟨s, same⟩
  have value := congrArg Synch.value switches.synch
  have waiters := switches.waiters
  cases effect with
  | semaUp s => exact absurd ⟨s, rfl⟩ isUp
  | lockRelease lock => exact absurd ⟨_, rfl⟩ isUp
  | semaTryDown s positive => exact .tryDown s positive value waiters
  | semaTryDownFails s zero => exact .fail s zero value waiters
  | lockTryAcquire lock positive => exact .tryDown (.lock lock) positive value waiters
  | lockTryAcquireFails lock zero => exact .fail (.lock lock) zero value waiters
  | condWait => exact .init (.waiter k.current) value waiters
  | semaWait s _ zero => exact .wait s zero value waiters
  | semaTake s _ positive => exact .down s (Nat.pos_of_ne_zero positive) value waiters
  | lockWait lock _ zero => exact .wait (.lock lock) zero value waiters
  | lockTake lock _ positive => exact .down (.lock lock) (Nat.pos_of_ne_zero positive) value waiters
  | _ => exact .none value waiters

/-- What each step does to the semaphores. -/
theorem step_semaMove (stepped : step label k = some k') : SemaMove k k' (semaEvent label k) := by
  cases step_cases stepped with
  | run top executed =>
    rw [semaEvent, top]
    exact (exec_semaMove executed).of_same rfl rfl rfl rfl rfl
  | call outside isPublic pushed => exact pushed ▸ .none rfl rfl
  | timer _ handled =>
    obtain ⟨_, _, _, _, _, _, rfl⟩ := wakeSleepers_spec handled
    exact .none rfl rfl
  | device _ handled => exact (semaUp_semaMove handled).of_same rfl rfl rfl rfl rfl

/-! ## Accounts -/

/-- The history of a semaphore since its last `sema_init`: its first value, completed downs with successful try-downs,
ups, and the threads that `sema_up` has made ready and that have not tested the value again. -/
structure Account where
  initial : Nat
  downs : Nat
  ups : Nat
  woken : List Tid

/-- The account after an event of the running thread or of an interrupt handler. -/
def Account.record (event : SemaEvent) (s : SemaId) (k k' : Kernel) (account : Account) : Account :=
  match event with
  | .up => { account with
      ups := account.ups + 1
      woken := (k.waiters s).filter (fun t => k'.status t = .ready) ++ account.woken }
  | .tryDown => if 0 < k.value s then { account with downs := account.downs + 1 } else account
  | .test =>
    let account := { account with woken := account.woken.erase k.current }
    if 0 < k.value s then { account with downs := account.downs + 1 } else account
  | .init => { initial := 0, downs := 0, ups := 0, woken := [] }

/-- The kernel with the accounts of its semaphores. -/
structure Audited where
  kernel : Kernel
  accounts : SemaId → Account

/-- A step of the kernel, recorded. -/
def Audited.step (label : Label) (audited : Audited) : Option Audited :=
  (Threads.step label audited.kernel).map fun next => {
    kernel := next
    accounts :=
      match semaEvent label audited.kernel with
      | none => audited.accounts
      | some (s, event) =>
        update audited.accounts s ((audited.accounts s).record event s audited.kernel next) }

/-- The law of one semaphore. -/
structure Balanced (account : Account) (value : Nat) (waiters : List Tid) : Prop where
  sum : account.initial + account.ups < 2 ^ 32 → value + account.downs = account.initial + account.ups
  woken : waiters ≠ [] → value ≤ account.woken.length
  nodup : account.woken.Nodup
  apart : ∀ t ∈ account.woken, t ∉ waiters

theorem Readies.filter (running : k.toSched.Running) (perm : (first :: rest).Perm (k.waiters s))
    (status : k'.status = update k.status first .ready) :
    (k.waiters s).filter (fun t => k'.status t = .ready) = [first] := by
  have waits : first ∈ k.waiters s := perm.mem_iff.mp mem_cons_self
  have onlyFirst : ∀ t ∈ k.waiters s, decide (k'.status t = .ready) = (t == first) := by
    intro t isWaiter
    by_cases same : t = first
    · subst same
      simp [status]
    · have blocked := (running.waiting s t isWaiter).1
      simp [status, same, blocked]
  rw [filter_congr onlyFirst, filter_beq, count_eq_one_of_mem (running.waitersNodup s) waits]
  rfl

section

variable {account : Account} {value : Nat} {waiters rest : List Tid} {t : Tid}

section

variable (h : Balanced account value waiters)

include h

/-- `sema_up` with nobody waiting. -/
theorem Balanced.up (empty : waiters = []) :
    Balanced { account with ups := account.ups + 1 } ((value + 1) % 2 ^ 32) waiters := by
  refine ⟨fun bound => ?_, fun waits => absurd empty waits, h.nodup, h.apart⟩
  have bound : account.initial + (account.ups + 1) < 2 ^ 32 := bound
  have sum := h.sum (by omega)
  show (value + 1) % 2 ^ 32 + account.downs = account.initial + (account.ups + 1)
  omega

/-- `sema_up` that makes a waiter ready. -/
theorem Balanced.wake (perm : (t :: rest).Perm waiters) (nodup : waiters.Nodup) :
    Balanced { account with ups := account.ups + 1, woken := t :: account.woken } ((value + 1) % 2 ^ 32) rest := by
  have waits : t ∈ waiters := perm.mem_iff.mp mem_cons_self
  have notWoken : t ∉ account.woken := fun isWoken => h.apart t isWoken waits
  have notRest : t ∉ rest := (nodup_cons.mp (perm.nodup_iff.mpr nodup)).1
  refine ⟨fun bound => ?_, fun _ => ?_, nodup_cons.mpr ⟨notWoken, h.nodup⟩, fun u isWoken => ?_⟩
  · have bound : account.initial + (account.ups + 1) < 2 ^ 32 := bound
    have sum := h.sum (by omega)
    show (value + 1) % 2 ^ 32 + account.downs = account.initial + (account.ups + 1)
    omega
  · have enough := h.woken (ne_nil_of_mem waits)
    calc (value + 1) % 2 ^ 32 ≤ value + 1 := Nat.mod_le _ _
      _ ≤ account.woken.length + 1 := Nat.succ_le_succ enough
  · cases mem_cons.mp isWoken with
    | inl isFirst => exact isFirst ▸ notRest
    | inr before => exact fun isRest => h.apart u before (perm.mem_iff.mp (mem_cons_of_mem _ isRest))

theorem Balanced.tryDown (positive : 0 < value) :
    Balanced { account with downs := account.downs + 1 } (value - 1) waiters := by
  refine ⟨fun bound => ?_, fun waits => ?_, h.nodup, h.apart⟩
  · have sum := h.sum bound
    show value - 1 + (account.downs + 1) = account.initial + account.ups
    omega
  · have enough := h.woken waits
    show value - 1 ≤ account.woken.length
    omega

omit h in
/-- A thread that tests a value of 0, and waits. -/
theorem Balanced.wait (h : Balanced account 0 waiters) (t : Tid) :
    Balanced { account with woken := account.woken.erase t } 0 (waiters ++ [t]) := by
  refine ⟨h.sum, fun _ => Nat.zero_le _, h.nodup.erase t, fun u isWoken => ?_⟩
  obtain ⟨other, before⟩ := (h.nodup.mem_erase_iff).mp isWoken
  simp only [mem_append, mem_singleton, not_or]
  exact ⟨h.apart u before, other⟩

/-- A thread that tests a positive value. -/
theorem Balanced.down (positive : 0 < value) (t : Tid) :
    Balanced { account with woken := account.woken.erase t, downs := account.downs + 1 } (value - 1) waiters := by
  obtain ⟨sum, woken, _, _⟩ := h.tryDown positive
  refine ⟨sum, fun waits => ?_, h.nodup.erase t, fun u isWoken => h.apart u (mem_of_mem_erase isWoken)⟩
  have enough := h.woken waits
  have oneLess := le_length_erase (a := t) (l := account.woken)
  show value - 1 ≤ (account.woken.erase t).length
  omega

end

end

/-- An event is about one semaphore. -/
theorem SemaMove.other {s' : SemaId} (move : SemaMove k k' (some (s', event))) (different : s ≠ s') :
    k'.value s = k.value s ∧ k'.waiters s = k.waiters s := by
  cases move with
  | up _ value readies =>
    refine ⟨by rw [value, update_of_ne different], ?_⟩
    cases readies with
    | nobody _ waiters => rw [waiters]
    | first _ _ _ _ waiters _ => rw [waiters, update_of_ne different]
  | fail _ _ value waiters => exact ⟨by rw [value], by rw [waiters]⟩
  | tryDown _ _ value waiters | down _ _ value waiters =>
    exact ⟨by rw [value, update_of_ne different], by rw [waiters]⟩
  | wait _ _ value waiters => exact ⟨by rw [value], by rw [waiters, update_of_ne different]⟩
  | init _ value waiters => exact ⟨by rw [value, update_of_ne different], by rw [waiters, update_of_ne different]⟩

/-- An event keeps the account of its semaphore. -/
theorem SemaMove.balanced {account : Account} (move : SemaMove k k' (some (s, event))) (running : k.toSched.Running)
    (h : Balanced account (k.value s) (k.waiters s)) :
    Balanced (account.record event s k k') (k'.value s) (k'.waiters s) := by
  cases move with
  | up _ value readies =>
    rw [value, update_self, Account.record]
    cases readies with
    | nobody empty waiters =>
      rw [waiters, empty]
      exact (empty ▸ h).up rfl
    | first first rest perm highest waiters status =>
      rw [waiters, update_self, Readies.filter running perm status]
      exact h.wake perm (running.waitersNodup s)
  | fail _ zero value waiters =>
    rw [value, waiters, Account.record, if_neg (by omega)]
    exact h
  | tryDown _ positive value waiters =>
    rw [value, waiters, update_self, Account.record, if_pos positive]
    exact h.tryDown positive
  | wait _ zero value waiters =>
    rw [value, waiters, update_self, zero, Account.record, if_neg (by omega)]
    exact (zero ▸ h).wait k.current
  | down _ positive value waiters =>
    rw [value, waiters, update_self, Account.record, if_pos positive]
    exact h.down positive k.current
  | init _ value waiters =>
    rw [value, waiters, update_self, update_self, Account.record]
    exact ⟨fun _ => rfl, fun waits => absurd rfl waits, nodup_nil, nofun⟩

variable {audited : Audited}

/-- One step keeps the accounts of all semaphores. -/
theorem balanced_step {next : Audited} (running : audited.kernel.toSched.Running)
    (balanced : ∀ s, Balanced (audited.accounts s) (audited.kernel.value s) (audited.kernel.waiters s))
    (stepped : audited.step label = some next) (s : SemaId) :
    Balanced (next.accounts s) (next.kernel.value s) (next.kernel.waiters s) := by
  obtain ⟨k', taken, rfl⟩ := Option.map_eq_some_iff.mp stepped
  have move := step_semaMove taken
  have before := balanced s
  dsimp only
  cases event : semaEvent label audited.kernel with
  | none =>
    rw [event] at move
    cases move with
    | none value waiters =>
      rw [value, waiters]
      exact before
  | some change =>
    obtain ⟨s', event⟩ := change
    rw [event] at move
    dsimp only
    by_cases same : s = s'
    · subst same
      rw [update_self]
      exact move.balanced running before
    · obtain ⟨value, waiters⟩ := move.other same
      rw [update_of_ne same, value, waiters]
      exact before

/-! ## Every run -/

/-- The kernel at its start, with the first values of its semaphores. -/
def Audited.boot (semaInit : Nat → Nat) (tailWord : SemaId → { word : Int // word < 0 }) : Audited where
  kernel := Threads.boot semaInit tailWord
  accounts s := { initial := (Threads.boot semaInit tailWord).value s, downs := 0, ups := 0, woken := [] }

theorem Audited.balanced {semaInit : Nat → Nat} {tailWord : SemaId → { word : Int // word < 0 }}
    (reached : Reaches Audited.step (fun _ _ => True) (Audited.boot semaInit tailWord) audited) :
    audited.kernel.toSched.Running ∧
      ∀ s, Balanced (audited.accounts s) (audited.kernel.value s) (audited.kernel.waiters s) := by
  refine reached.invariant (fun audited => audited.kernel.toSched.Running ∧
    ∀ s, Balanced (audited.accounts s) (audited.kernel.value s) (audited.kernel.waiters s)) ?_ ?_
  · refine ⟨Sched.running_boot semaInit tailWord, fun s => ⟨fun _ => rfl, fun waits => absurd rfl waits, ?_, nofun⟩⟩
    exact nodup_nil
  · intro label audited next both _ stepped
    obtain ⟨running, balanced⟩ := both
    refine ⟨?_, balanced_step running balanced stepped⟩
    obtain ⟨_, taken, rfl⟩ := Option.map_eq_some_iff.mp stepped
    exact running.step taken

/-- The law of semaphores: the value with the downs is the first value with the ups; a value that is not yet taken
while threads wait is announced to as many threads; and each `sema_up` makes the waiter with the highest priority
ready, and no other one. -/
theorem semaphore_law {semaInit : Nat → Nat} {tailWord : SemaId → { word : Int // word < 0 }}
    (reached : Reaches Audited.step (fun _ _ => True) (Audited.boot semaInit tailWord) audited) (s : SemaId) :
    ((audited.accounts s).initial + (audited.accounts s).ups < 2 ^ 32 →
      audited.kernel.value s + (audited.accounts s).downs = (audited.accounts s).initial + (audited.accounts s).ups) ∧
    (audited.kernel.waiters s ≠ [] → audited.kernel.value s ≤ (audited.accounts s).woken.length) ∧
    (audited.accounts s).woken.Nodup ∧
    ∀ label next, step label audited.kernel = some next → semaEvent label audited.kernel = some (s, .up) →
      audited.kernel.waiters s ≠ [] → ∃ first ∈ audited.kernel.waiters s,
        (∀ t ∈ audited.kernel.waiters s, audited.kernel.priority t ≤ audited.kernel.priority first) ∧
        (∀ t ∈ audited.kernel.waiters s, next.status t = .ready ↔ t = first) ∧
        (next.waiters s).Perm ((audited.kernel.waiters s).erase first) := by
  obtain ⟨running, balanced⟩ := Audited.balanced reached
  have h := balanced s
  refine ⟨h.sum, h.woken, h.nodup, fun label next stepped isUp waits => ?_⟩
  have move := step_semaMove stepped
  rw [isUp] at move
  cases move with
  | up _ _ readies =>
    cases readies with
    | nobody empty _ => exact absurd empty waits
    | first first rest perm highest waiters status =>
      have isWaiter : first ∈ audited.kernel.waiters s := perm.mem_iff.mp mem_cons_self
      refine ⟨first, isWaiter, highest, fun t isWaiter => ?_, ?_⟩
      · have chosen : t ∈ (audited.kernel.waiters s).filter (fun t => next.status t = .ready) ↔ t ∈ [first] := by
          rw [Readies.filter running perm status]
        simpa [isWaiter] using chosen
      · rw [waiters, update_self]
        exact (cons_perm_iff_perm_erase.mp perm).2

/-- Two threads wait, and the one with the higher priority has been made ready: the value is 1. -/
theorem semaphore_law_example : ∃ audited,
    Reaches Audited.step (fun _ _ => True) (Audited.boot (fun _ => 0) fun _ => ⟨-1, by decide⟩) audited ∧
    audited.kernel.waiters (.sema 0) = [2] ∧ (audited.accounts (.sema 0)).woken = [3] ∧
    (audited.accounts (.sema 0)).initial + (audited.accounts (.sema 0)).ups = 1 ∧
    audited.kernel.value (.sema 0) + (audited.accounts (.sema 0)).downs = 1 ∧ audited.kernel.value (.sema 0) ≤ 1 := by
  obtain ⟨audited, reached, waiters, woken, ups⟩ := exists_reached Audited.step (fun _ _ => True)
    (Audited.boot (fun _ => 0) fun _ => ⟨-1, by decide⟩)
    (fun audited => audited.kernel.waiters (.sema 0) = [2] ∧ (audited.accounts (.sema 0)).woken = [3] ∧
      (audited.accounts (.sema 0)).initial + (audited.accounts (.sema 0)).ups = 1)
    (startUp ++ callThen (.threadCreate 40) 14 ++ callThen (.semaDown (.sema 0)) 5 ++ callThen (.threadCreate 41) 14 ++
      callThen (.semaDown (.sema 0)) 5 ++ callThen (.semaUp (.sema 0)) 1)
    (by decide +kernel)
  obtain ⟨sum, enough, _⟩ := semaphore_law reached (.sema 0)
  refine ⟨audited, reached, waiters, woken, ups, ups ▸ sum (by omega), ?_⟩
  have enough := enough (by simp [waiters])
  rwa [woken] at enough

end Pintos.Threads
