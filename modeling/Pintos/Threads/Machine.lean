import Pintos.Threads.Kernel
import Pintos.Library.Transition

/-! # Synchronization, the timer and the whole kernel as a transition system

`exec` gives each frame its effect, after `threads/synch.c`, `threads/thread.c`, `devices/timer.c` and
`intr_handler`.  `step` is one move of the system: the running thread executes its next frame, calls a
function from code outside the kernel functions, or is interrupted.
-/

namespace Pintos.Threads

open Pintos.Kernel Library Function

/-- A call from kernel code, and the point it returns to. -/
def invoke (c : Call) : List Frame :=
  [.call c, .ret c]

/-! ## `synch.c` -/

/-- `sema_up`, up to its call of `recalculate_priority`. -/
def semaUp (s : SemaId) (k : Kernel) : Option Kernel :=
  let waiters := k.waiters s
  let k := { k.push [.recalculatePriority, .intrSetLevel k.intr] with
    intr := .off
    -- `value` is an `unsigned int`.
    value := update k.value s ((k.value s + 1) % 2 ^ 32) }
  match if 1 < waiters.length then listSort (higherPriority k.priority) waiters else waiters with
  | [] => some k
  | first :: rest => threadUnblock first { k with waiters := update k.waiters s rest }

/-- The body of the loop of `sema_down`: wait behind the other waiters, and test again when woken. -/
def semaWait (s : SemaId) (again : Frame) (k : Kernel) : Option Kernel :=
  threadBlock ({ k with waiters := update k.waiters s (k.waiters s ++ [k.current]) }.push [again])

def semaTake (s : SemaId) (k : Kernel) : Kernel :=
  { k with value := update k.value s (k.value s - 1) }

def lockAcquire (lock : LockId) (k : Kernel) : Option Kernel :=
  if k.inExternalIntr = true ∨ k.holder lock = some k.current then none
  else
    let oldLevel := k.intr
    let k := { k with intr := .off }
    match k.holder lock with
    | none => some (k.push [.lockDown lock oldLevel])
    | some _ =>
      let k := { k with plockAcq := update k.plockAcq k.current (some lock) }
      some (k.push [.lockPriorityDonate lock (k.priority k.current), .lockDown lock oldLevel])

/-- The end of `lock_acquire`, after its `sema_down`. -/
def lockOwn (lock : LockId) (k : Kernel) : Kernel :=
  { k with
    lockOwnList := update k.lockOwnList k.current (k.lockOwnList k.current ++ [lock])
    plockAcq := update k.plockAcq k.current none
    holder := update k.holder lock (some k.current)
    sections := (k.current, lock) :: k.sections }

def lockPriorityDonate (lock : LockId) (newPriority : Int) (k : Kernel) : Option Kernel :=
  match k.holder lock with
  | none => none
  | some tdonatee =>
    if k.priority tdonatee < newPriority then
      specificThreadSetPriority newPriority tdonatee (k.push [.donateNext tdonatee newPriority])
    else some k

def lockTryAcquire (lock : LockId) (k : Kernel) : Option Kernel :=
  if k.holder lock = some k.current then none
  else if 0 < k.value (.lock lock) then some ((semaTake (.lock lock) k).push [.lockTaken lock])
  else some k

def lockRelease (lock : LockId) (k : Kernel) : Option Kernel :=
  if k.holder lock = some k.current then
    let oldLevel := k.intr
    -- `list_remove` on an element that is in no list follows whatever pointers it holds.
    if lock ∈ k.lockOwnList k.current then
      let k := { k with
        intr := .off
        holder := update k.holder lock none
        lockOwnList := update k.lockOwnList k.current ((k.lockOwnList k.current).erase lock)
        sections := k.sections.erase (k.current, lock) }
      semaUp (.lock lock) (k.push [.intrSetLevel oldLevel])
    else none
  else none

def condWait (cond : CondId) (lock : LockId) (k : Kernel) : Option Kernel :=
  if k.inExternalIntr = false ∧ k.holder lock = some k.current then
    let waiter := SemaId.waiter k.current
    let k := { k with
      value := update k.value waiter 0
      waiters := update k.waiters waiter []
      conds := update k.conds cond (k.conds cond ++ [k.current]) }
    some (k.push (invoke (.lockRelease lock) ++ invoke (.semaDown waiter) ++ invoke (.lockAcquire lock)))
  else none

def higherPriorityInsema (k : Kernel) (x y : Tid) : Bool :=
  decide (firstWaiterPriority k (.waiter y) < firstWaiterPriority k (.waiter x))

def condSignal (cond : CondId) (lock : LockId) (k : Kernel) : Option Kernel :=
  if k.inExternalIntr = false ∧ k.holder lock = some k.current then
    match k.conds cond with
    | [] => some k
    | waiters =>
      let sorted := listSort (higherPriorityInsema k) waiters
      some ({ k with conds := update k.conds cond sorted }.push [.condSorted cond])
  else none

/-- The rest of `cond_signal`, from the assertion at the end of `list_sort` on.  Interrupts are on, so that the order
may have changed since the list was sorted. -/
def condSorted (cond : CondId) (k : Kernel) : Option Kernel :=
  if isSorted (higherPriorityInsema k) (k.conds cond) then
    match k.conds cond with
    | [] => none
    | first :: rest =>
      some ({ k with conds := update k.conds cond rest }.push (invoke (.semaUp (.waiter first))))
  else none

def condBroadcast (cond : CondId) (lock : LockId) (k : Kernel) : Option Kernel :=
  match k.conds cond with
  | [] => some k
  | _ => some (k.push (invoke (.condSignal cond lock) ++ [.call (.condBroadcast cond lock)]))

/-! ## `timer.c` -/

/-- `wakeup_tick` is an `int`, `ticks` an `int64_t`. -/
def wakeupAt (start ticks : Int) : Int :=
  ((start + ticks).bmod (2 ^ 64)).bmod (2 ^ 32)

/-- `timer_sleep`, from its assertion on. -/
def timerSleep (start ticks : Int) (k : Kernel) : Option Kernel :=
  if k.intr = .on then
    let wakeupTick := update k.wakeupTick k.current (wakeupAt start ticks)
    let k := { k with
      intr := .off
      wakeupTick := wakeupTick
      waitingList := listInsertOrdered (fun x y => decide (wakeupTick x < wakeupTick y)) k.current k.waitingList }
    threadBlock (k.push [.slept])
  else none

/-- The loop of `timer_interrupt` over the waiting list. -/
def wakeSleepers : List Tid → Kernel → Option Kernel
  | [], k => some k
  | sleeper :: rest, k =>
    if k.wakeupTick sleeper ≤ k.ticks then
      match threadUnblock sleeper { k with waitingList := rest } with
      | none => none
      | some k => wakeSleepers rest k
    else some k

/-- `timer_interrupt`, with `thread_tick`. -/
def timerInterrupt (k : Kernel) : Option Kernel :=
  let threadTicks := k.threadTicks + 1
  wakeSleepers k.waitingList { k with
    ticks := (k.ticks + 1).bmod (2 ^ 64)
    threadTicks := threadTicks
    yieldOnReturn := k.yieldOnReturn || decide (timeSlice ≤ threadTicks) }

/-! ## Frames -/

def threadCreate (priority : Int) (k : Kernel) : Option Kernel :=
  if priMin ≤ priority ∧ priority ≤ priMax then
    let t := k.nextThread
    let k := { initThread t priority k with nextThread := t + 1 }
    -- `allocate_tid` takes and releases `tid_lock`.
    some (k.push (invoke (.lockAcquire tidLock) ++ invoke (.lockRelease tidLock) ++ [.createTail t]))
  else none

def execCall (c : Call) (k : Kernel) : Option Kernel :=
  match c with
  | .threadCreate priority => threadCreate priority k
  | .threadExit =>
    if k.inExternalIntr = false then
      schedule { k with intr := .off, status := update k.status k.current .dying }
    else none
  | .threadBlock => threadBlock ({ k with intr := .off }.push [.parked, .intrSetLevel k.intr])
  | .threadUnblock t =>
    -- Only a thread that blocked itself is unblocked from outside; the others are still in a list.
    match k.stack t with
    | .parked :: _ => threadUnblock t k
    | _ => none
  | .threadYield => threadYield k
  | .threadSetPriority newPriority =>
    let k := { k with originPriority := update k.originPriority k.current newPriority }
    some (k.push [.specificThreadSetPriority newPriority, .recalculatePriority])
  | .semaDown s =>
    if k.inExternalIntr = false then some ({ k with intr := .off }.push [.semaDownLoop s k.intr]) else none
  | .semaTryDown s => if 0 < k.value s then some (semaTake s k) else some k
  | .semaUp s => semaUp s k
  | .lockAcquire lock => lockAcquire lock k
  | .lockTryAcquire lock => lockTryAcquire lock k
  | .lockRelease lock => lockRelease lock k
  | .condWait cond lock => condWait cond lock k
  | .condSignal cond lock => condSignal cond lock k
  | .condBroadcast cond lock => condBroadcast cond lock k
  | .timerSleep ticks => some (k.push [.sleep k.ticks ticks])
  | .intrSetLevel level => some (k.push [.intrSetLevel level])

def exec (frame : Frame) (k : Kernel) : Option Kernel :=
  match frame with
  | .call c => execCall c k
  | .ret _ => some k
  | .intrSetLevel level =>
    if level = .on ∧ k.inExternalIntr = true then none else some { k with intr := level }
  | .specificThreadSetPriority newPriority => specificThreadSetPriority newPriority k.current k
  | .recalculatePriority => some (k.push [.specificThreadSetPriority (recalculatedPriority k)])
  | .lockPriorityDonate lock newPriority => lockPriorityDonate lock newPriority k
  | .donateNext tdonatee newPriority =>
    match k.plockAcq tdonatee with
    | none => some k
    | some plock => some (k.push [.lockPriorityDonate plock newPriority])
  | .semaDownLoop s oldLevel =>
    if k.value s = 0 then semaWait s (.semaDownLoop s oldLevel) k
    else some { semaTake s k with intr := oldLevel }
  | .lockDown lock oldLevel =>
    if k.value (.lock lock) = 0 then semaWait (.lock lock) (.lockDown lock oldLevel) k
    else some { lockOwn lock (semaTake (.lock lock) k) with intr := oldLevel }
  | .condSorted cond => condSorted cond k
  | .lockTaken lock =>
    some { k with
      holder := update k.holder lock (some k.current)
      sections := (k.current, lock) :: k.sections }
  | .createTail t =>
    match threadUnblock t k with
    | none => none
    | some k => some (k.push [.renewPriority])
  | .renewPriority => some (k.push [.specificThreadSetPriority (k.priority k.current)])
  | .sleep start ticks => timerSleep start ticks k
  | .slept => some { k with intr := .on }
  | .parked => some k
  | .intrExit =>
    let k := { k with inExternalIntr := false }
    if k.yieldOnReturn then threadYield k else some k
  | .iret => some { k with intr := .on }
  | .idleStart =>
    some ({ k with idleThread := some k.current }.push (invoke (.semaUp .idleStarted) ++ [Frame.idleLoop]))
  | .idleLoop => threadBlock ({ k with intr := .off }.push [.idleHalt])
  -- `sti; hlt`: any interrupt ends the wait.
  | .idleHalt => some ({ k with intr := .on }.push [.idleLoop])

/-! ## The system -/

/-- Handlers of external interrupts: the timer, and devices that announce completion with `sema_up`. -/
inductive Handler
  | timer
  | device (sema : Nat)
  deriving DecidableEq, Repr

inductive Label
  | run
  | call (call : Call)
  | interrupt (handler : Handler)
  deriving DecidableEq, Repr

/-- Calls that code outside `threads/` makes; semaphores inside locks and conditions belong to those. -/
def Call.isPublic : Call → Bool
  | .semaDown (.sema _) | .semaTryDown (.sema _) | .semaUp (.sema _) => true
  | .semaDown _ | .semaTryDown _ | .semaUp _ => false
  | _ => true

/-- The dispatch of `intr_handler` for an external interrupt. -/
def intrHandler (handler : Handler) (k : Kernel) : Option Kernel :=
  let k := { k.push [.intrExit, .iret] with intr := .off, inExternalIntr := true, yieldOnReturn := false }
  match handler with
  | .timer => timerInterrupt k
  | .device s => semaUp (.sema s) k

def step (label : Label) (k : Kernel) : Option Kernel :=
  match label with
  | .run =>
    match k.stack k.current with
    | [] => none
    | frame :: rest => exec frame { k with stack := update k.stack k.current rest }
  | .call c =>
    match k.stack k.current with
    | [] => if c.isPublic then some (k.push (invoke c)) else none
    | _ => none
  | .interrupt handler => if k.intr = .on then intrHandler handler k else none

/-- The initial thread inside `thread_start`, after it has created the idle thread. -/
def boot (semaInit : Nat → Nat) (tailWord : SemaId → { word : Int // word < 0 }) : Kernel where
  status t := if t = initialThread then .running else if t = idleTid then .ready else .dying
  priority t := if t = idleTid then priMin else priDefault
  stack t :=
    if t = initialThread then .intrSetLevel .on :: invoke (.semaDown .idleStarted)
    else if t = idleTid then kernelThread ++ [.idleStart]
    else []
  waiters _ := []
  readyList := [idleTid]
  waitingList := []
  current := initialThread
  idleThread := none
  nextThread := idleTid + 1
  clock := 1
  readySince _ := 0
  reprioritised _ := false
  originPriority t := if t = idleTid then priMin else priDefault
  plockAcq _ := none
  lockOwnList _ := []
  wakeupTick _ := 0
  holder _ := none
  value
    | .lock _ => 1
    | .sema s => semaInit s
    | .waiter _ | .idleStarted => 0
  conds _ := []
  ticks := 0
  threadTicks := 0
  intr := .off
  inExternalIntr := false
  yieldOnReturn := false
  tailWord := tailWord
  sections := []

/-- The states reached from the start of the kernel, for any initial values of the semaphores, by runs whose
steps are all allowed. -/
def Reachable (allowed : Label → Kernel → Prop) (k : Kernel) : Prop :=
  ∃ semaInit tailWord, Reaches step allowed (boot semaInit tailWord) k

/-- Any call, any interrupt. -/
def anyStep (_ : Label) (_ : Kernel) : Prop :=
  True

instance : ∀ label k, Decidable (anyStep label k) :=
  fun _ _ => .isTrue trivial

/-- `thread_start` up to its return. -/
def startUp : List Label :=
  List.replicate 10 .run

/-- A call, and as many steps of the running thread. -/
def callThen (c : Call) (steps : Nat) : List Label :=
  .call c :: List.replicate steps .run

/-- A run after `thread_start`, replayed with semaphores at 0, shows that a state is reachable. -/
theorem exists_reachable (allowed : Label → Kernel → Prop) [∀ label k, Decidable (allowed label k)]
    (property : Kernel → Prop) [DecidablePred property] (labels : List Label)
    (found : (execute step allowed (startUp ++ labels) (boot (fun _ => 0) fun _ => ⟨-1, by decide⟩)).any
      (fun k => decide (property k)) = true) :
    ∃ k, Reachable allowed k ∧ property k := by
  obtain ⟨k, reaches, shown⟩ := exists_reached step allowed _ property _ found
  exact ⟨k, ⟨_, _, reaches⟩, shown⟩

end Pintos.Threads
