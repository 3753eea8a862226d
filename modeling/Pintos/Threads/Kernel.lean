import Pintos.Kernel.List
import Mathlib.Algebra.Group.Int.Defs
import Mathlib.Algebra.Group.Nat.Defs

/-! # Kernel threads and the ready queue (`threads/thread.c`)

The state of the uniprocessor kernel.  A thread that is not running, and the running one inside a kernel
function, is described by the frames it still has to execute; a frame runs without interruption unless it
says otherwise, so frames end where interrupts may be on or where the processor may be given up.
`none` is a failed assertion or an access the source leaves undefined.
-/

namespace Pintos.Threads

open Pintos.Kernel Function

/-- A thread, in place of the address of its `struct thread`.  A new thread gets a new number. -/
abbrev Tid := Nat

abbrev LockId := Nat

abbrev CondId := Nat

/-- `enum thread_status`; threads not created yet count as dying. -/
inductive ThreadStatus
  | running
  | ready
  | blocked
  | dying
  deriving DecidableEq, Repr

/-- `enum intr_level` -/
inductive IntrLevel
  | off
  | on
  deriving DecidableEq, Repr

/-- The semaphores of the kernel, by where they are stored. -/
inductive SemaId
  -- The semaphore inside a lock.
  | lock (lock : LockId)
  | sema (sema : Nat)
  -- The `struct semaphore_elem` on the stack of a thread inside `cond_wait`.
  | waiter (thread : Tid)
  -- The local semaphore of `thread_start`.
  | idleStarted
  deriving DecidableEq, Repr

inductive Call
  | threadCreate (priority : Int)
  | threadExit
  | threadBlock
  | threadUnblock (thread : Tid)
  | threadYield
  | threadSetPriority (newPriority : Int)
  | semaDown (sema : SemaId)
  | semaTryDown (sema : SemaId)
  | semaUp (sema : SemaId)
  | lockAcquire (lock : LockId)
  | lockTryAcquire (lock : LockId)
  | lockRelease (lock : LockId)
  | condWait (cond : CondId) (lock : LockId)
  | condSignal (cond : CondId) (lock : LockId)
  | condBroadcast (cond : CondId) (lock : LockId)
  | timerSleep (ticks : Int)
  | intrSetLevel (level : IntrLevel)
  deriving DecidableEq, Repr

/-- A piece of kernel code that is still to be executed. -/
inductive Frame
  | call (call : Call)
  -- The point in the caller to which a call returns.
  | ret (call : Call)
  | intrSetLevel (level : IntrLevel)
  -- `specific_thread_set_priority` on the running thread.
  | specificThreadSetPriority (newPriority : Int)
  | recalculatePriority
  | lockPriorityDonate (lock : LockId) (newPriority : Int)
  -- The rest of `lock_priority_donate` once the donatee has its new priority.
  | donateNext (donatee : Tid) (newPriority : Int)
  -- The loop of `sema_down`, with the level to restore.
  | semaDownLoop (sema : SemaId) (oldLevel : IntrLevel)
  -- `lock_acquire` from its `sema_down` on.
  | lockDown (lock : LockId) (oldLevel : IntrLevel)
  -- `cond_signal` after the passes of its `list_sort`.
  | condSorted (cond : CondId)
  -- `lock_try_acquire` after a successful `sema_try_down`.
  | lockTaken (lock : LockId)
  -- `thread_create` from its `thread_unblock` on.
  | createTail (thread : Tid)
  -- The last statement of `thread_create`.
  | renewPriority
  -- `timer_sleep` after it has read the clock.
  | sleep (start ticks : Int)
  -- The end of `timer_sleep`, after its `thread_block`.
  | slept
  -- A thread that called `thread_block` itself waits for a `thread_unblock`.
  | parked
  -- The end of `intr_handler`.
  | intrExit
  -- The return from an interrupt into the interrupted code.
  | iret
  | idleStart
  | idleLoop
  | idleHalt
  deriving DecidableEq, Repr

/-- What a thread still has to execute, the next piece first. -/
abbrev Stack := List Frame

/-- The initial thread, which runs `main`. -/
def initialThread : Tid := 0

/-- The thread that `thread_start` creates to execute `idle`. -/
def idleTid : Tid := 1

def tidLock : LockId := 0

def priMin : Int := 0

def priDefault : Int := 31

def priMax : Int := 63

def timeSlice : Nat := 4

/-- Threads, the lists their `elem` can be in, and the ready queue.  Each member of `struct thread` and of
`struct semaphore` is a map of its own. -/
structure Sched where
  status : Tid → ThreadStatus
  priority : Tid → Int
  -- What a thread still has to execute; empty in code outside the kernel functions.
  stack : Tid → List Frame
  waiters : SemaId → List Tid
  readyList : List Tid
  -- The sleeping threads of `timer.c`.
  waitingList : List Tid
  current : Tid
  idleThread : Option Tid
  nextThread : Tid
  -- History, which no function reads: the number of insertions into the ready list so far, when a thread
  -- was last inserted, and whether its priority has been written since.
  clock : Nat
  readySince : Tid → Nat
  reprioritised : Tid → Bool

/-- What `synch.c` and the donation of priorities keep. -/
structure Synch where
  originPriority : Tid → Int
  -- The lock a thread is waiting for.
  plockAcq : Tid → Option LockId
  lockOwnList : Tid → List LockId
  holder : LockId → Option Tid
  value : SemaId → Nat
  -- The threads whose `semaphore_elem` is in a condition's list.
  conds : CondId → List Tid
  -- History: who is past an acquire of which lock and before its release.
  sections : List (Tid × LockId)

structure Kernel extends Sched, Synch where
  wakeupTick : Tid → Int
  ticks : Int
  threadTicks : Nat
  intr : IntrLevel
  inExternalIntr : Bool
  yieldOnReturn : Bool
  -- The word before the tail of a `waiters` list.  Taken for the priority of the first waiter of an empty
  -- list, it is the kernel address of the tail, so a negative `int`.
  tailWord : SemaId → { word : Int // word < 0 }

/-- Frames that the running thread has to execute next. -/
def Kernel.push (k : Kernel) (frames : List Frame) : Kernel :=
  { k with stack := update k.stack k.current (frames ++ k.stack k.current) }

def higherPriority (priority : Tid → Int) (x y : Tid) : Bool :=
  decide (priority y < priority x)

/-- `list_insert_ordered (&ready_list, &t->elem, higher_priority, NULL)` -/
def insertReady (t : Tid) (k : Kernel) : Kernel :=
  { k with
    readyList := listInsertOrdered (higherPriority k.priority) t k.readyList
    clock := k.clock + 1
    readySince := update k.readySince t k.clock
    reprioritised := update k.reprioritised t false }

def threadUnblock (t : Tid) (k : Kernel) : Option Kernel :=
  if k.status t = .blocked then
    let k := insertReady t k
    some { k with status := update k.status t .ready }
  else none

/-- `next_thread_to_run`: the thread, and the ready list without it. -/
def nextThreadToRun (k : Kernel) : Option (Tid × List Tid) :=
  match k.readyList with
  | [] => k.idleThread.map fun idle => (idle, [])
  | next :: rest => some (next, rest)

/-- `schedule` and the `schedule_tail` of the thread it switches to. -/
def schedule (k : Kernel) : Option Kernel :=
  match nextThreadToRun k with
  | none => none
  | some (next, rest) =>
    some { k with
      readyList := rest
      current := next
      status := update k.status next .running
      threadTicks := 0 }

def threadBlock (k : Kernel) : Option Kernel :=
  if k.inExternalIntr = false ∧ k.intr = .off then
    schedule { k with status := update k.status k.current .blocked }
  else none

def threadYield (k : Kernel) : Option Kernel :=
  if k.inExternalIntr = false then
    let k := { k.push [.intrSetLevel k.intr] with intr := .off }
    let k := if k.idleThread = some k.current then k else insertReady k.current k
    schedule { k with status := update k.status k.current .ready }
  else none

/-- When the ready list is empty the function returns without restoring the interrupt level. -/
def specificThreadSetPriority (newPriority : Int) (newT : Tid) (k : Kernel) : Option Kernel :=
  let oldLevel := k.intr
  let priority := update k.priority newT newPriority
  let k := { k with
    intr := .off
    priority := priority
    reprioritised := update k.reprioritised newT true
    readyList := listSort (higherPriority priority) k.readyList }
  match k.readyList with
  | [] => some k
  | tfirst :: _ =>
    if k.priority k.current ≤ k.priority tfirst ∧ k.inExternalIntr = false then
      threadYield (k.push [.intrSetLevel oldLevel])
    else some { k with intr := oldLevel }

/-- `list_entry (list_begin (&sema->waiters), struct thread, elem)->priority`, also where the list is empty. -/
def firstWaiterPriority (k : Kernel) (s : SemaId) : Int :=
  match k.waiters s with
  | [] => k.tailWord s
  | first :: _ => k.priority first

/-- The priority that `recalculate_priority` gives to the running thread. -/
def recalculatedPriority (k : Kernel) : Int :=
  let origin := k.originPriority k.current
  match k.lockOwnList k.current with
  | [] => origin
  | owned =>
    let findPriority := owned.foldl (fun found plock => max found (firstWaiterPriority k (.lock plock))) 0
    if origin < findPriority then findPriority else origin

/-- `kernel_thread` enables interrupts before it calls the thread's function. -/
def kernelThread : List Frame :=
  [.intrSetLevel .on]

/-- `init_thread` for a page from `palloc_get_page`.  It also clears the wake-up tick of `initial_thread`. -/
def initThread (t : Tid) (priority : Int) (k : Kernel) : Kernel :=
  { k with
    status := update k.status t .blocked
    priority := update k.priority t priority
    originPriority := update k.originPriority t priority
    plockAcq := update k.plockAcq t none
    lockOwnList := update k.lockOwnList t []
    wakeupTick := update (update k.wakeupTick t 0) initialThread 0
    stack := update k.stack t kernelThread }

end Pintos.Threads
