import Pintos.Library.Transition
import Pintos.Vm.Memory

/-! # Paging

A model of `page_fault`, `setup_stack`, `load_segment`, `munmap_list` and of the memory part of `process_kill`, after
`userprog/exception.c`, `userprog/process.c` and `threads/thread.c`.  One process at a time is in the kernel; it takes
one step from a task to the next.  In between, user processes access their memory and make system calls.
-/

namespace Pintos.Vm

open Kernel Library Function

/-- Whether the allocations of a step from the kernel pool succeed: the key of `page_lookup`, a `struct page`, and a
page table; and the stack pointer below the arguments, at the end of `setup_stack`. -/
structure Memory where
  lookup : Bool
  entry : Bool
  table : Bool
  esp : Nat
  deriving DecidableEq, Repr

namespace State

/-! ## Eviction -/

/-- The loop of `frame_table_find_victim`, for at most as many turns. -/
def victimLoop : Nat → FrameElem → State → Option (FrameElem × State)
  | 0, _, _ => none
  | turns + 1, totest, s =>
    if s.pagedirIsAccessed totest.pd totest.vaddr || s.pagedirIsStack totest.pd totest.vaddr then
      let s := s.pagedirSetAccessed totest.pd totest.vaddr false
      match s.frameTable ++ [totest] with
      | [] => none
      | next :: rest => victimLoop turns next { s with frameTable := rest }
    else some (totest, s)

/-- `frame_table_find_victim`.  All accessed bits are clear after one round, so a loop that goes on for two rounds has
only stack pages to look at and never ends. -/
def frameTableFindVictim (s : State) : Option (FrameElem × State) :=
  match s.frameTable with
  | [] => none
  | totest :: rest => victimLoop (2 * s.frameTable.length) totest { s with frameTable := rest }

/-- `swap_table_scan_and_flip`; the index is `BITMAP_ERROR` where the table is full. -/
def swapTableScanAndFlip (s : State) : Option Nat × State :=
  match bitmapScanAndFlip s.swapTable 0 1 false with
  | none => (none, s)
  | some (index, swapTable) => (some index, { s with swapTable })

/-- The loop of `disk_write`.  The bounds wrap around for `BITMAP_ERROR`, so that nothing is written. -/
def swapOut (swappingIndex : Option Nat) (bytes : Bytes) (s : State) : State :=
  { s with swapDisk := swappingIndex.elim s.swapDisk fun index => (s.swapWrite index bytes).swapDisk }

/-- What the eviction in `page_fault` does with the victim.  `file_write_at` is asserted to write the whole page. -/
def evictPage (frElem : FrameElem) (swappingIndex : Option Nat) (s : State) : Option State := do
  let victimPage ← s.pageLookup frElem.pd frElem.vaddr
  let victimKvaddr ← s.pagedirGetPage frElem.pd frElem.vaddr
  let s := s.pagedirSetAccessed frElem.pd frElem.vaddr true
  let s := s.pagedirClearPage frElem.pd frElem.vaddr
  if victimPage.mmaped then
    if s.pagedirIsDirty frElem.pd frElem.vaddr then
      let s := s.pagedirSetDirty frElem.pd frElem.vaddr false
      let file ← victimPage.f
      let (written, s) := s.fileWriteAt file (s.memory victimKvaddr) victimPage.loadReadBytes victimPage.loadFilepos
      if written = victimPage.loadReadBytes then s.pallocFreePage victimKvaddr else none
    else s.pallocFreePage victimKvaddr
  else
    let s ← s.pageSwapOutIndex frElem.vaddr frElem.pd true swappingIndex
    let s := s.swapOut swappingIndex (s.memory victimKvaddr)
    s.pallocFreePage victimKvaddr

/-- The eviction in `page_fault`. -/
def evict (s : State) : Option State := do
  let (swappingIndex, s) := s.swapTableScanAndFlip
  let (frElem, s) ← s.frameTableFindVictim
  s.evictPage frElem swappingIndex

/-- What the eviction in `setup_stack` does with the victim.  It makes no difference between pages. -/
def setupEvictPage (victimFrame : FrameElem) (swappingIndex : Option Nat) (s : State) : Option State := do
  let victimKvaddr ← s.pagedirGetPage victimFrame.pd victimFrame.vaddr
  let s := s.pagedirSetAccessed victimFrame.pd victimFrame.vaddr true
  let s ← s.pageSwapOutIndex victimFrame.vaddr victimFrame.pd true swappingIndex
  let s := s.swapOut swappingIndex (s.memory victimKvaddr)
  let s := s.pagedirClearPage victimFrame.pd victimFrame.vaddr
  s.pallocFreePage victimKvaddr

/-- The eviction in `setup_stack`. -/
def setupEvict (s : State) : Option State := do
  let (swappingIndex, s) := s.swapTableScanAndFlip
  let (victimFrame, s) ← s.frameTableFindVictim
  s.setupEvictPage victimFrame swappingIndex

/-! ## `page_fault` -/

def setNewDirtyPage (newEsp : Nat) (pid : Pid) (s : State) : State :=
  if s.userEsp pid ≠ newEsp ∧ newEsp < physBase then
    let s := s.pagedirSetStack pid (s.userEsp pid / pgSize) false
    let s := { s with userEsp := update s.userEsp pid newEsp }
    s.pagedirSetStack pid (newEsp / pgSize) true
  else s

def frameTablePushBack (frElem : FrameElem) (s : State) : State :=
  { s with frameTable := s.frameTable ++ [frElem] }

/-- `thread_exit`, which does not return. -/
def threadExit (s : State) : State :=
  { s with tasks := [.exit] }

/-- Whether the fault is taken for an access to the stack. -/
def growsStack (s : State) (pid : Pid) (faultAddr : Nat) : Bool :=
  decide (stackBase ≤ faultAddr) && decide (faultAddr < physBase) &&
    (decide (s.userEsp pid ≤ faultAddr) || decide (faultAddr + 4 = s.userEsp pid) ||
      decide (faultAddr + 32 = s.userEsp pid))

/-- Stack growth; where the page cannot be installed it is freed, but the entries stay. -/
def growStack (upage : Upage) (kpage : Kpage) (table : Bool) (s : State) : Option State :=
  let pid := s.current
  let s := s.addPage pid upage zeroPage
  let s := s.frameTablePushBack ⟨pid, upage⟩
  if s.pagedirGetPage pid upage = none ∧ table then some (s.pagedirSetPage pid upage kpage true)
  else (s.pagedirSetAccessed pid upage true).pallocFreePage kpage

/-- A page from its file.  `file_read_at` dereferences the file. -/
def lazyLoad (page : Page) (upage : Upage) (kpage : Kpage) (table : Bool) (s : State) : Option State := do
  let pid := s.current
  let file ← page.f
  let (count, bytes) := s.fileReadAt file (s.memory kpage) page.loadReadBytes page.loadFilepos
  let s := { s with memory := update s.memory kpage bytes }
  if count ≠ page.loadReadBytes then (s.pallocFreePage kpage).map threadExit
  else if s.pagedirGetPage pid upage = none ∧ table then
    some ((s.pagedirSetPage pid upage kpage page.writable).frameTablePushBack ⟨pid, upage⟩)
  else (s.pagedirSetAccessed pid upage true).pallocFreePage kpage

/-- A page from the swap disk.  `bitmap_set` asserts that there is a slot. -/
def swapIn (page : Page) (upage : Upage) (kpage : Kpage) (table : Bool) (s : State) : Option State := do
  let pid := s.current
  let bytes := page.swapIndex.elim (s.memory kpage) fun index => s.swapRead index (s.memory kpage)
  let s := { s with memory := update s.memory kpage bytes }
  if s.pagedirGetPage pid upage = none ∧ table then
    let s := s.pagedirSetPage pid upage kpage page.writable
    let s ← s.pageSwapOutIndex upage pid false (some 0)
    let index ← page.swapIndex
    let s := { s with swapTable := s.swapTable.set index false }
    some (s.frameTablePushBack ⟨pid, upage⟩)
  else (s.pagedirSetAccessed pid upage true).pallocFreePage kpage

/-- The rest of `page_fault`, with a page from the user pool. -/
def resolve (faultAddr : Nat) (notPresent : Bool) (kpage : Kpage) (memory : Memory) (s : State) : Option State :=
  let upage := faultAddr / pgSize
  match if memory.lookup then s.pageLookup s.current upage else none with
  | none =>
    if s.growsStack s.current faultAddr then
      if memory.entry then s.growStack upage kpage memory.table else some s
    else some s.threadExit
  | some faultedPage =>
    if notPresent then
      if faultedPage.swapOuted then s.swapIn faultedPage upage kpage memory.table
      else s.lazyLoad faultedPage upage kpage memory.table
    else some s.threadExit

/-! ## `load` -/

/-- The top page of the user address space. -/
def stackPage : Upage := userPages - 1

/-- The end of `setup_stack`, up to the arguments, which the process stores itself, and the end of `load`. -/
def setupInstall (file : File) (kpage : Kpage) (table : Bool) (esp : Nat) (s : State) : Option State :=
  let pid := s.current
  if s.pagedirGetPage pid stackPage = none ∧ table then
    let s := s.pagedirSetPage pid stackPage kpage true
    let s := s.pagedirSetDirty pid stackPage true
    let s := s.addPage pid stackPage zeroPage
    let s := s.frameTablePushBack ⟨pid, stackPage⟩
    let s := s.setNewDirtyPage esp pid
    some { s with execFile := update s.execFile pid (some file) }
  else (s.pallocFreePage kpage).map threadExit

/-- The loop of `load_segment`, for the given number of pages. -/
def loadSegment (pid : Pid) (file : File) (writable : Bool) : Nat → Nat → Upage → Nat → State → State
  | 0, _, _, _, s => s
  | pages + 1, ofs, upage, readBytes, s =>
    let pageReadBytes := min readBytes pgSize
    let pi : Page :=
      { f := some file, loadFilepos := ofs, loadReadBytes := pageReadBytes, writable, swapOuted := false
        swapIndex := some 0, mmaped := false }
    loadSegment pid file writable pages (ofs + pageReadBytes) (upage + 1) (readBytes - pageReadBytes)
      (s.addPage pid upage pi)

end State

/-- A segment that `validate_segment` has accepted, in pages. -/
structure Segment where
  ofs : Nat
  upage : Upage
  readBytes : Nat
  pages : Nat
  writable : Bool
  deriving DecidableEq, Repr

namespace State

/-- A new thread in `load`. -/
def newProcess (pid : Pid) (file : File) (s : State) : State :=
  { s with
    processes := pid :: s.processes
    pagedir := update s.pagedir pid ∅
    supplementaryPageTable := update s.supplementaryPageTable pid ∅
    userEsp := update s.userEsp pid (physBase - 1)
    mmapList := update s.mmapList pid []
    nextMid := update s.nextMid pid 0
    execFile := update s.execFile pid none
    current := pid
    tasks := [.setup file] }

/-- `load`, up to `setup_stack`. -/
def load (pid : Pid) (file : File) (segments : List Segment) (s : State) : State :=
  segments.foldl
    (fun s segment => s.loadSegment pid file segment.writable segment.pages segment.ofs segment.upage segment.readBytes)
    (s.newProcess pid file)

/-! ## Mappings -/

/-- The loop of `SYS_MMAP` that adds the pages of a mapping, from page `count` on. -/
def mmapPages (pid : Pid) (mi : MmapElem) : Nat → Nat → State → State
  | 0, _, s => s
  | pages + 1, count, s =>
    let pi : Page :=
      { f := some mi.f, loadFilepos := pgSize * count, loadReadBytes := min (mi.readBytes - count * pgSize) pgSize
        writable := true, swapOuted := false, swapIndex := some 0, mmaped := true }
    mmapPages pid mi pages (count + 1) (s.addPage pid (mi.startVaddr + count) pi)

/-- `list_push_back (&tcurrent->mmap_list, &mi->elem)` -/
def addMapping (pid : Pid) (mi : MmapElem) (s : State) : State :=
  { s with
    nextMid := update s.nextMid pid (mi.mid + 1)
    mmapList := update s.mmapList pid (s.mmapList pid ++ [mi]) }

/-- `SYS_MMAP`.  A mapping that reaches into the kernel's address space is not modelled. -/
def mmap (pid : Pid) (file : File) (buffer : Nat) (s : State) : Option State :=
  let mi : MmapElem :=
    { mid := s.nextMid pid, startVaddr := buffer / pgSize, readBytes := (s.files file).length, f := file }
  if physBase ≤ buffer then some { s with current := pid, tasks := [.exit] }
  else if mi.readBytes = 0 ∨ buffer = 0 ∨ buffer % pgSize ≠ 0 then some s
  else if (List.range mi.pages).any fun count => (s.pageLookup pid (mi.startVaddr + count)).isSome then some s
  else if userPages < mi.startVaddr + mi.pages then none
  else some ((s.addMapping pid mi).mmapPages pid mi mi.pages 0)

def frameElemDelete (targetAddr : Upage) (targetPd : Pid) (s : State) : Option State :=
  let delete : State → FrameElem → Option State := fun s i =>
    (s.pallocFreePointer (s.pagedirGetPage i.pd i.vaddr)).map (pagedirClearPage i.pd i.vaddr)
  let (deleted, kept) := s.frameTable.partition fun i => decide (i = ⟨targetPd, targetAddr⟩)
  deleted.foldlM delete { s with frameTable := kept }

/-- The bytes of the mapping that are in page `count`. -/
def realReadBytes (mi : MmapElem) (count : Nat) : Nat :=
  min (mi.readBytes - count * pgSize) pgSize

/-- The end of one turn of `munmap_list`. -/
def munmapDelete (mi : MmapElem) (count : Nat) (s : State) : Option State :=
  let pid := s.current
  let upage := mi.startVaddr + count
  (s.frameElemDelete upage pid).map fun s =>
    { s with supplementaryPageTable :=
        update s.supplementaryPageTable pid ((s.supplementaryPageTable pid).erase upage) }

/-- The end of `process_kill`, without mappings. -/
def teardown (s : State) : Option State :=
  let pid := s.current
  let s := { s with
    execFile := update s.execFile pid none
    frameTable := s.frameTable.filter fun i => decide (i.pd ≠ pid)
    supplementaryPageTable := update s.supplementaryPageTable pid ∅ }
  (s.pagedirDestroy pid).map fun s => { s with processes := s.processes.erase pid, tasks := [] }

/-! ## The steps of a task -/

/-- One step of the topmost task; the others are in `s.tasks`. -/
def run (task : Task) (memory : Memory) (s : State) : Option State :=
  let goTo (task : Task) (s : State) : State := { s with tasks := task :: s.tasks }
  match task with
  | .fault faultAddr notPresent =>
    match s.pallocGetPage with
    | some (kpage, s) => some (goTo (.resolve faultAddr notPresent kpage) s)
    | none => some (goTo (.evict faultAddr notPresent) s)
  | .evict faultAddr notPresent => s.evict.map (goTo (.evicted faultAddr notPresent))
  | .evicted faultAddr notPresent =>
    match s.pallocGetPage with
    | some (kpage, s) => some (goTo (.resolve faultAddr notPresent kpage) s)
    | none => some s
  | .resolve faultAddr notPresent kpage => s.resolve faultAddr notPresent kpage memory
  | .setup file =>
    match s.pallocGetPage with
    | some (kpage, s) => some (goTo (.setupInstall file kpage) s)
    | none => some (goTo (.setupEvict file) s)
  | .setupEvict file => s.setupEvict.map (goTo (.setupEvicted file))
  | .setupEvicted file =>
    match s.pallocGetPage with
    | some (kpage, s) => some (goTo (.setupInstall file kpage) s)
    | none => some s.threadExit
  | .setupInstall file kpage => s.setupInstall file kpage memory.table memory.esp
  | .munmap mi count =>
    if mi.readBytes ≤ count * pgSize then
      some { s with mmapList := update s.mmapList s.current ((s.mmapList s.current).erase mi) }
    else if s.pagedirIsDirty s.current (mi.startVaddr + count) then some (goTo (.munmapWrite mi count) s)
    else some (goTo (.munmapDelete mi count) s)
  | .munmapWrite mi count =>
    -- `file_write` reads user memory, so it faults as often as the page is not there.
    match s.pagedirGetPage s.current (mi.startVaddr + count) with
    | some kpage =>
      let s := s.pagedirSetAccessed s.current (mi.startVaddr + count) true
      some (goTo (.munmapDelete mi count)
        (s.fileWriteAt mi.f (s.memory kpage) (realReadBytes mi count) (count * pgSize)).2)
    | none => some (goTo (.fault ((mi.startVaddr + count) * pgSize) true) (goTo (.munmapWrite mi count) s))
  | .munmapDelete mi count => (s.munmapDelete mi count).map (goTo (.munmap mi (count + 1)))
  | .exit =>
    match s.mmapList s.current with
    | mi :: _ => some (goTo (.munmap mi 0) (goTo .exit s))
    | [] => s.teardown

/-! ## User accesses -/

/-- A store of a byte to a present page. -/
def store (pid : Pid) (upage : Upage) (kpage : Kpage) (ofs : Nat) (byte : UInt8) (s : State) : State :=
  let bytes : Bytes := update (s.memory kpage) ofs byte
  let image : Image := ⟨update (s.image pid upage).bytes ofs byte, (s.image pid upage).writable⟩
  { s with
    memory := update s.memory kpage bytes
    image := update s.image pid (update (s.image pid) upage image) }

/-- An access by the processor for a process, which ends in a page fault where the page is not present, and where it
is written and read-only. -/
def access (pid : Pid) (addr : Nat) (write : Option UInt8) (esp : Nat) (s : State) : State :=
  let upage := addr / pgSize
  match s.lookupPage pid upage with
  | some ⟨true, kpage, writable, _, _, _⟩ =>
    match write with
    | none => s.pagedirSetAccessed pid upage true
    | some byte =>
      if writable then
        ((s.pagedirSetAccessed pid upage true).pagedirSetDirty pid upage true).store pid upage kpage
          (addr % pgSize) byte
      else { s.setNewDirtyPage esp pid with current := pid, tasks := [.fault addr false] }
  | _ => { s.setNewDirtyPage esp pid with current := pid, tasks := [.fault addr true] }

end State

/-! ## The system -/

inductive Label
  | load (pid : Pid) (file : File) (segments : List Segment)
  | access (pid : Pid) (addr : Nat) (write : Option UInt8) (esp : Nat)
  -- The start of a system call, with the stack pointer of the process.
  | syscall (pid : Pid) (esp : Nat)
  | mmap (pid : Pid) (file : File) (buffer : Nat)
  | munmap (pid : Pid) (mid : Nat)
  | exit (pid : Pid)
  -- A step of the process in the kernel.
  | go (memory : Memory)
  deriving DecidableEq, Repr

/-- The start of an operation, when no process is in the kernel. -/
def enter (label : Label) (s : State) : Option State :=
  match label with
  | .load pid file segments =>
    if pid ∉ s.processes ∧ segments.all fun segment => decide (segment.upage + segment.pages ≤ userPages) then
      some (s.load pid file segments)
    else none
  | .access pid addr write esp => if pid ∈ s.processes then some (s.access pid addr write esp) else none
  | .syscall pid esp => if pid ∈ s.processes then some (s.setNewDirtyPage esp pid) else none
  | .mmap pid file buffer => if pid ∈ s.processes then s.mmap pid file buffer else none
  | .munmap pid mid =>
    if pid ∈ s.processes then
      match (s.mmapList pid).find? fun mi => decide (mi.mid = mid) with
      | some mi => some { s with current := pid, tasks := [.munmap mi 0] }
      | none => some s
    else none
  | .exit pid => if pid ∈ s.processes then some { s with current := pid, tasks := [.exit] } else none
  | .go _ => none

def step (label : Label) (s : State) : Option State :=
  match s.tasks, label with
  | task :: rest, .go memory => { s with tasks := rest }.run task memory
  | [], label => enter label s
  | _, _ => none

/-- No process, all of the user pool and of the swap disk free. -/
def boot (poolSize swapSize : Nat) (files : File → FileData) : State where
  processes := []
  pagedir _ := ∅
  supplementaryPageTable _ := ∅
  userEsp _ := 0
  mmapList _ := []
  nextMid _ := 0
  execFile _ := none
  frameTable := []
  usedMap := bitmapCreate poolSize
  memory _ _ := 0
  swapTable := bitmapCreate swapSize
  swapDisk _ _ := 0
  files := files
  current := 0
  tasks := []
  image _ _ := ⟨fun _ => 0, false⟩

/-- The states reached from the given files by runs whose steps are all allowed, for any sizes of the user pool and
of the swap disk. -/
def Reachable (allowed : Label → State → Prop) (files : File → FileData) (s : State) : Prop :=
  ∃ poolSize swapSize, Reaches step allowed (boot poolSize swapSize files) s

end Pintos.Vm
