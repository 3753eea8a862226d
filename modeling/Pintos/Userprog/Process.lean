import Mathlib.Logic.Function.Basic
import Pintos.Library.Transition

/-! # Processes

A model of `process_execute`, `start_process`, `process_wait`, `process_kill` and of the exit system call, after
`userprog/process.c` and `userprog/syscall.c`.  A thread is the page that holds its `struct thread` and its
stack; `schedule_tail` frees the page, which later threads can be given again.  A step takes one thread up to its
next operation on a lock or a semaphore, and any thread that is not blocked may take the next step.
-/

namespace Pintos.Userprog

open Library Function

abbrev Tid := Int

/-- Where a `struct thread` is. -/
abbrev Page := Nat

/-- Where a `struct child_elem` is. -/
abbrev Elem := Nat

structure ChildElem where
  semaphore : Nat
  tchild : Option Page
  childTid : Tid
  exitStatus : Int
  deriving DecidableEq, Repr

/-- What a thread has to execute next, with the local variables of the function it is in. -/
inductive Frame
  -- `start_process`
  | load
  | loaded (success : Bool)
  | started (success : Bool)
  -- User code, between two system calls.
  | user
  -- `process_execute`, where `TID_ERROR` is `none`
  | executeLock
  | executeCreate
  | executeDown (tid : Option Tid)
  | executeRegister (tid : Option Tid)
  -- `SYS_EXIT`
  | exitLock (status : Int)
  | exitStatus (status : Int)
  -- `process_wait`
  | waitLock (childTid : Tid)
  | waitFind (childTid : Tid)
  | waitDown (childTid : Tid) (i : Elem)
  | waitRelock (childTid : Tid) (i : Elem)
  | waitFree (childTid : Tid) (i : Elem)
  -- `process_kill`
  | kill (ttarget : Option Page)
  | killParentLock (ttarget : Page)
  | killFindSema (ttarget : Page)
  | killListLock (ttarget : Page) (childSema : Option Elem)
  | killLoop (ttarget : Page) (childSema elemPointer : Option Elem)
  | killDown (ttarget : Page) (childSema : Option Elem) (i : Elem) (elemPointer : Option Elem)
  | killRelock (ttarget : Page) (childSema : Option Elem) (i : Elem) (elemPointer : Option Elem)
  | killFree (ttarget : Page) (childSema : Option Elem) (i : Elem) (elemPointer : Option Elem)
  | killTeardown (ttarget : Page) (childSema : Option Elem)
  | killUp (childSema : Option Elem)
  -- `thread_exit`, after `process_exit`
  | die
  deriving DecidableEq, Repr

/-- A call that has returned: `process_execute` with a new child, or `process_wait`, with its result and whether it
has waited for the semaphore of a child. -/
inductive Event
  | executed (tid : Tid)
  | waited (childTid : Tid) (result : Int) (down : Bool)
  deriving DecidableEq, Repr

/-- Each member of `struct thread` is a map of its own. -/
structure State where
  -- `none` where a page holds no thread, so that `magic` is not `THREAD_MAGIC`.
  tid : Page → Option Tid
  tparent : Page → Page
  creationSema : Page → Nat
  -- The holder of `child_list_lock`.
  childListLock : Page → Option Page
  childList : Page → List Elem
  childSuccess : Page → Bool
  ttmpchild : Page → Option Page
  stack : Page → List Frame
  elems : Elem → Option ChildElem
  -- The pages of the kernel pool are those below.
  poolSize : Nat
  nextTid : Tid
  nextElem : Elem
  -- History, which no function reads: the thread that created the one on a page, the statuses given to
  -- `SYS_EXIT`, the threads that `process_kill` has signalled, the threads that tore down each thread, and the
  -- calls each thread has made, the last one first.
  parentTid : Page → Tid
  exits : Tid → Option Int
  signalled : Tid → Bool
  teardowns : Tid → List Tid
  calls : Tid → List Event

/-- The page of the initial thread, which was not obtained from `palloc_get_page`. -/
def initialPage : Page := 0

namespace State

def push (p : Page) (frames : List Frame) (s : State) : State :=
  { s with stack := update s.stack p (frames ++ s.stack p) }

/-- `lock_acquire (&q->child_list_lock)` by the thread on page `p`, where it does not block. -/
def lockAcquire (p q : Page) (s : State) : Option State :=
  if (s.tid q).isSome ∧ s.childListLock q = none then
    some { s with childListLock := update s.childListLock q (some p) }
  else none

def lockRelease (p q : Page) (s : State) : Option State :=
  if (s.tid q).isSome ∧ s.childListLock q = some p then
    some { s with childListLock := update s.childListLock q none }
  else none

/-- `sema_down (&i->semaphore)`, where it does not block. -/
def elemDown (i : Elem) (s : State) : Option State :=
  match s.elems i with
  | none => none
  | some elem =>
    if 0 < elem.semaphore then
      some { s with elems := update s.elems i (some { elem with semaphore := elem.semaphore - 1 }) }
    else none

/-- Whether `i->child_tid == tid`. -/
def isChild (s : State) (tid : Tid) (i : Elem) : Bool :=
  (s.elems i).any fun elem => decide (elem.childTid = tid)

def findChild (tid : Tid) (t : Page) (s : State) : Option Elem :=
  (s.childList t).find? (s.isChild tid)

def log (tid : Option Tid) (event : Event) (s : State) : State :=
  match tid with
  | none => s
  | some tid => { s with calls := update s.calls tid (event :: s.calls tid) }

end State

def listNext (i : Elem) (list : List Elem) : Option Elem :=
  ((list.dropWhile fun j => decide (j ≠ i)).drop 1).head?

def threadExit (p : Page) : List Frame :=
  [.kill (some p), .die]

/-- What is not determined by the program of the kernel: whether `load` and `malloc` succeed, the page that
`thread_create` gets, and what a user program does. -/
inductive Choice
  | go
  | load (success : Bool)
  | create (page : Option Page)
  | malloc (success : Bool)
  | execute
  | wait (childTid : Tid)
  | exit (status : Int)
  | kill
  deriving DecidableEq, Repr

/-! ## `process_execute` and `start_process` -/

/-- `thread_create (file_name, PRI_DEFAULT, start_process, fn_copy)` on a page from `palloc_get_page`. -/
def threadCreate (p q : Page) (creator : Tid) (s : State) : State :=
  { s with
    tid := update s.tid q (some s.nextTid)
    tparent := update s.tparent q p
    creationSema := update s.creationSema q 0
    childListLock := update s.childListLock q none
    childList := update s.childList q []
    childSuccess := update s.childSuccess q false
    ttmpchild := update s.ttmpchild q none
    stack := update s.stack q [.load]
    nextTid := s.nextTid + 1
    parentTid := update s.parentTid q creator }

/-- The end of `process_execute`, after `sema_down (&tcurrent->creation_sema)`. -/
def executeRegister (p : Page) (tid : Option Tid) (malloc : Bool) (s : State) : Option State :=
  match tid with
  | none => s.lockRelease p p
  | some tid =>
    if s.childSuccess p = false ∨ malloc = false then s.lockRelease p p
    -- `ASSERT (c_elem->tchild->magic == 0xcd6abf4b)`
    else if (s.ttmpchild p).all (fun tchild => (s.tid tchild).isSome) then
      let cElem : ChildElem := { semaphore := 0, tchild := s.ttmpchild p, childTid := tid, exitStatus := -1 }
      let s := { s with
        ttmpchild := update s.ttmpchild p none
        elems := update s.elems s.nextElem (some cElem)
        nextElem := s.nextElem + 1
        childList := update s.childList p (s.childList p ++ [s.nextElem]) }
      (s.log (s.tid p) (.executed tid)).lockRelease p p
    else none

/-- `start_process`, after `load`. -/
def startProcess (p : Page) (success : Bool) (s : State) : Option State :=
  let tparent := s.tparent p
  if (s.tid tparent).isSome then
    some { s with
      childSuccess := update s.childSuccess tparent success
      ttmpchild := update s.ttmpchild tparent (some p)
      creationSema := update s.creationSema tparent (s.creationSema tparent + 1) }
  else none

/-! ## `SYS_EXIT` and `process_wait` -/

/-- `find_child (tcurrent->tid, tcurrent->tparent)->exit_status = status`, then the lock is released. -/
def exitStatus (p : Page) (status : Int) (s : State) : Option State :=
  match s.tid p with
  | none => none
  | some tid =>
    match s.findChild tid (s.tparent p) with
    | none => none
    | some tElem =>
      let s := { s with
        elems := update s.elems tElem ((s.elems tElem).map fun elem : ChildElem => { elem with exitStatus := status })
        exits := update s.exits tid (some status) }
      s.lockRelease p (s.tparent p)

/-- The search of `process_wait` through the list of children. -/
def waitFind (p : Page) (childTid : Tid) (s : State) : Option State :=
  match s.findChild childTid p with
  | some i => (s.lockRelease p p).map (State.push p [.waitDown childTid i])
  | none => (s.log (s.tid p) (.waited childTid (-1) false)).lockRelease p p

/-- The end of `process_wait`, after it has acquired the lock again. -/
def waitFree (p : Page) (childTid : Tid) (i : Elem) (s : State) : Option State :=
  match s.elems i with
  | none => none
  | some elem =>
    let s := { s with
      childList := update s.childList p ((s.childList p).erase i)
      elems := update s.elems i none }
    (s.log (s.tid p) (.waited childTid elem.exitStatus true)).lockRelease p p

/-! ## `process_kill` -/

/-- The check of the magic number, and of `ttarget->tparent->tid != ttarget->tid`. -/
def kill (p : Page) (ttarget : Option Page) (s : State) : Option State :=
  match ttarget with
  | none => some s
  | some target =>
    match s.tid target with
    | none => some s
    | some tid =>
      match s.tid (s.tparent target) with
      | none => none
      | some parent =>
        if parent ≠ tid then some (s.push p [.killParentLock target])
        else some (s.push p [.killListLock target none])

/-- The loop that looks for the semaphore of the target; it does not stop at the first match. -/
def killFindSema (p target : Page) (s : State) : Option State :=
  match s.tid target with
  | none => none
  | some tid =>
    let childSema := ((s.childList (s.tparent target)).filter (s.isChild tid)).getLast?
    (s.lockRelease p (s.tparent target)).map (State.push p [.killListLock target childSema])

/-- The condition of the loop over the children of the target, and the body up to the recursive call. -/
def killLoop (p target : Page) (childSema elemPointer : Option Elem) (s : State) : Option State :=
  match elemPointer with
  | none => (s.lockRelease p target).map (State.push p [.killTeardown target childSema])
  | some i =>
    match s.elems i with
    | none => none
    | some elem =>
      (s.lockRelease p target).map
        (State.push p [.kill elem.tchild, .killDown target childSema i (listNext i (s.childList target))])

/-- `list_remove (&i->elem); free (i);` -/
def killFree (p target : Page) (childSema : Option Elem) (i : Elem) (elemPointer : Option Elem) (s : State) :
    Option State :=
  match s.tid target, s.elems i with
  | some _, some _ =>
    some ({ s with
      childList := update s.childList target ((s.childList target).erase i)
      elems := update s.elems i none }.push p [.killLoop target childSema elemPointer])
  | _, _ => none

/-- The files, the executable, the frames, the supplementary page table and the page directory of the target. -/
def killTeardown (p target : Page) (childSema : Option Elem) (s : State) : Option State :=
  match s.tid p, s.tid target with
  | some actor, some tid =>
    some ({ s with teardowns := update s.teardowns tid (actor :: s.teardowns tid) }.push p [.killUp childSema])
  | _, _ => none

def killUp (childSema : Option Elem) (s : State) : Option State :=
  match childSema with
  | none => some s
  | some i =>
    match s.elems i with
    | none => none
    | some elem =>
      some { s with
        elems := update s.elems i (some { elem with semaphore := elem.semaphore + 1 })
        signalled := update s.signalled elem.childTid true }

/-- The switch away from a dying thread, whose page `schedule_tail` frees.  The initial thread keeps its page, and
is never scheduled again. -/
def die (p : Page) (s : State) : Option State :=
  if p = initialPage then none else some { s with tid := update s.tid p none }

/-! ## The system -/

def exec (p : Page) (frame : Frame) (choice : Choice) (s : State) : Option State :=
  match frame, choice with
  | .load, .load success => some (s.push p [.loaded success])
  | .loaded success, .go => (startProcess p success s).map (State.push p [.started success])
  | .started success, .go => some (s.push p (if success then [.user] else threadExit p))
  | .user, .execute =>
    some ({ s with childSuccess := update s.childSuccess p false }.push p [.executeLock, .user])
  | .user, .wait childTid => some (s.push p [.waitLock childTid, .user])
  -- The initial thread runs no user program.
  | .user, .exit status => if p = initialPage then none else some (s.push p [.exitLock status])
  | .user, .kill => some (s.push p (threadExit p))
  | .executeLock, .go => (s.lockAcquire p p).map (State.push p [.executeCreate])
  | .executeCreate, .create none => some (s.push p [.executeDown none])
  | .executeCreate, .create (some q) =>
    match s.tid p with
    | none => none
    | some creator =>
      if q < s.poolSize ∧ s.tid q = none then
        some ((threadCreate p q creator s).push p [.executeDown (some s.nextTid)])
      else none
  | .executeDown tid, .go =>
    if 0 < s.creationSema p then
      some ({ s with creationSema := update s.creationSema p (s.creationSema p - 1) }.push p [.executeRegister tid])
    else none
  | .executeRegister tid, .malloc success => executeRegister p tid success s
  | .exitLock status, .go => (s.lockAcquire p (s.tparent p)).map (State.push p [.exitStatus status])
  | .exitStatus status, .go => (exitStatus p status s).map (State.push p (threadExit p))
  | .waitLock childTid, .go => (s.lockAcquire p p).map (State.push p [.waitFind childTid])
  | .waitFind childTid, .go => waitFind p childTid s
  | .waitDown childTid i, .go => (s.elemDown i).map (State.push p [.waitRelock childTid i])
  | .waitRelock childTid i, .go => (s.lockAcquire p p).map (State.push p [.waitFree childTid i])
  | .waitFree childTid i, .go => waitFree p childTid i s
  | .kill ttarget, .go => kill p ttarget s
  | .killParentLock target, .go =>
    if (s.tid target).isSome then (s.lockAcquire p (s.tparent target)).map (State.push p [.killFindSema target])
    else none
  | .killFindSema target, .go => killFindSema p target s
  | .killListLock target childSema, .go =>
    (s.lockAcquire p target).map (State.push p [.killLoop target childSema (s.childList target).head?])
  | .killLoop target childSema elemPointer, .go => killLoop p target childSema elemPointer s
  | .killDown target childSema i elemPointer, .go =>
    (s.elemDown i).map (State.push p [.killRelock target childSema i elemPointer])
  | .killRelock target childSema i elemPointer, .go =>
    (s.lockAcquire p target).map (State.push p [.killFree target childSema i elemPointer])
  | .killFree target childSema i elemPointer, .go => killFree p target childSema i elemPointer s
  | .killTeardown target childSema, .go => killTeardown p target childSema s
  | .killUp childSema, .go => killUp childSema s
  | .die, .go => die p s
  | _, _ => none

/-- The thread that moves, and how. -/
structure Label where
  page : Page
  choice : Choice
  deriving DecidableEq, Repr

def step (label : Label) (s : State) : Option State :=
  match s.tid label.page, s.stack label.page with
  | some _, frame :: rest =>
    exec label.page frame label.choice { s with stack := update s.stack label.page rest }
  | _, _ => none

/-- The initial thread alone. -/
def boot (poolSize : Nat) : State where
  tid p := if p = initialPage then some 1 else none
  tparent _ := initialPage
  creationSema _ := 0
  childListLock _ := none
  childList _ := []
  childSuccess _ := false
  ttmpchild _ := none
  stack p := if p = initialPage then [.user] else []
  elems _ := none
  poolSize := poolSize
  nextTid := 2
  nextElem := 0
  parentTid _ := 1
  exits _ := none
  signalled _ := false
  teardowns _ := []
  calls _ := []

/-- The states reached from the initial thread alone, for any number of pages, by runs whose steps are all
allowed. -/
def Reachable (allowed : Label → State → Prop) (s : State) : Prop :=
  ∃ poolSize, Reaches step allowed (boot poolSize) s

end Pintos.Userprog
