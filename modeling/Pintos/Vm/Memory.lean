import Mathlib.Data.List.AList
import Pintos.Kernel.Bitmap

/-! # Memory, page tables and swap space

The tables behind `vm/swap.c`, `vm/page.c` and `userprog/pagedir.c`: the pages of the user pool with their
contents, the page directory and the supplementary page table of each process, the frame table, the swap disk with
its table, and the files.  Allocations from the kernel pool succeed, except where a function is given the outcome.
-/

namespace Pintos.Vm

open Kernel Function

/-- A process is its `struct thread`, with its page directory. -/
abbrev Pid := Nat

/-- A user virtual page. -/
abbrev Upage := Nat

/-- A page of the user pool. -/
abbrev Kpage := Nat

/-- An inode. -/
abbrev File := Nat

/-- The bytes of a page or of a sector, by offset. -/
abbrev Bytes := Nat → UInt8

def pgSize : Nat := 4096

def diskSectorSize : Nat := 512

def physBase : Nat := 0xc0000000

def stackBase : Nat := 0xb8000000

/-- The number of user virtual pages. -/
def userPages : Nat := physBase / pgSize

/-- The flags of a page table entry; `stack` is `PTE_S`. -/
structure Pte where
  present : Bool
  kpage : Kpage
  writable : Bool
  dirty : Bool
  accessed : Bool
  stack : Bool
  deriving DecidableEq, Repr

/-- The page table entries of a page directory that are not zero. -/
abbrev Pagedir := AList fun _ : Upage => Pte

/-- `struct page` -/
structure Page where
  f : Option File
  loadFilepos : Nat
  loadReadBytes : Nat
  writable : Bool
  swapOuted : Bool
  -- `none` is `BITMAP_ERROR`
  swapIndex : Option Nat
  mmaped : Bool
  deriving DecidableEq, Repr

/-- The slot of a page that has one. -/
def Page.slotNo (page : Page) : Nat :=
  page.swapIndex.getD 0

abbrev PageTable := AList fun _ : Upage => Page

structure FrameElem where
  pd : Pid
  vaddr : Upage
  deriving DecidableEq, Repr

structure MmapElem where
  mid : Nat
  startVaddr : Upage
  readBytes : Nat
  f : File
  deriving DecidableEq, Repr

/-- The number of pages of a mapping. -/
def MmapElem.pages (m : MmapElem) : Nat :=
  (m.readBytes + (pgSize - 1)) / pgSize

structure FileData where
  length : Nat
  byte : Bytes

/-- What a user page has been from its creation on: its initial bytes, with the stores of its process. -/
structure Image where
  bytes : Bytes
  writable : Bool

/-- The functions that the current process is in, with their local variables. -/
inductive Task
  -- `page_fault`, before `palloc_get_page`, before the eviction, and with a page
  | fault (faultAddr : Nat) (notPresent : Bool)
  | evict (faultAddr : Nat) (notPresent : Bool)
  | evicted (faultAddr : Nat) (notPresent : Bool)
  | resolve (faultAddr : Nat) (notPresent : Bool) (kpage : Kpage)
  -- `setup_stack`, in the same way, with the executable file
  | setup (file : File)
  | setupEvict (file : File)
  | setupEvicted (file : File)
  | setupInstall (file : File) (kpage : Kpage)
  -- `munmap_list`, at one page
  | munmap (mi : MmapElem) (count : Nat)
  | munmapWrite (mi : MmapElem) (count : Nat)
  | munmapDelete (mi : MmapElem) (count : Nat)
  -- `process_kill`
  | exit
  deriving DecidableEq, Repr

structure State where
  processes : List Pid
  pagedir : Pid → Pagedir
  supplementaryPageTable : Pid → PageTable
  userEsp : Pid → Nat
  mmapList : Pid → List MmapElem
  nextMid : Pid → Nat
  execFile : Pid → Option File
  frameTable : List FrameElem
  -- The bitmap and the pages of the user pool.
  usedMap : Bitmap
  memory : Kpage → Bytes
  swapTable : Bitmap
  -- The sectors of the swap disk.
  swapDisk : Nat → Bytes
  files : File → FileData
  -- The process in the kernel, and what it is doing there.
  current : Pid
  tasks : List Task
  -- History, which no function reads: what each user page has been.
  image : Pid → Upage → Image

namespace State

/-! ## The user pool -/

/-- `palloc_get_page (PAL_USER | PAL_ZERO)` -/
def pallocGetPage (s : State) : Option (Kpage × State) :=
  (bitmapScanAndFlip s.usedMap 0 1 false).map fun (page, usedMap) =>
    (page, { s with usedMap := usedMap, memory := update s.memory page fun _ => 0 })

/-- `palloc_free_page`, which asserts that the page is in use. -/
def pallocFreePage (page : Kpage) (s : State) : Option State :=
  if s.usedMap[page]? = some true then
    some { s with usedMap := s.usedMap.set page false, memory := update s.memory page fun _ => 0xcc }
  else none

/-- `palloc_free_page`, of a pointer that can be null. -/
def pallocFreePointer (page : Option Kpage) (s : State) : Option State :=
  match page with
  | some page => s.pallocFreePage page
  | none => some s

/-! ## Page directories -/

/-- `lookup_page (pd, upage, false)` -/
def lookupPage (s : State) (pd : Pid) (upage : Upage) : Option Pte :=
  (s.pagedir pd).lookup upage

/-- Changes the entry that `lookup_page` finds, if there is one. -/
def updatePte (pd : Pid) (upage : Upage) (change : Pte → Pte) (s : State) : State :=
  let table := match s.lookupPage pd upage with
    | none => s.pagedir pd
    | some pte => (s.pagedir pd).insert upage (change pte)
  { s with pagedir := update s.pagedir pd table }

def pagedirSetAccessed (pd : Pid) (upage : Upage) (accessed : Bool) (s : State) : State :=
  s.updatePte pd upage fun pte => { pte with accessed := accessed }

def pagedirSetStack (pd : Pid) (upage : Upage) (stack : Bool) (s : State) : State :=
  s.updatePte pd upage fun pte => { pte with stack := stack }

def pagedirSetDirty (pd : Pid) (upage : Upage) (dirty : Bool) (s : State) : State :=
  s.updatePte pd upage fun pte => { pte with dirty := dirty }

def pagedirClearPage (pd : Pid) (upage : Upage) (s : State) : State :=
  s.updatePte pd upage fun pte => { pte with present := false }

/-- What `pagedir_get_page` returns.  It also sets the accessed bit. -/
def pagedirGetPage (s : State) (pd : Pid) (upage : Upage) : Option Kpage :=
  (s.lookupPage pd upage).bind fun pte => if pte.present then some pte.kpage else none

/-- `pagedir_set_page`, where it can get a page table. -/
def pagedirSetPage (pd : Pid) (upage : Upage) (kpage : Kpage) (writable : Bool) (s : State) : State :=
  let pte : Pte := { present := true, kpage, writable, dirty := false, accessed := false, stack := false }
  { s with pagedir := update s.pagedir pd ((s.pagedir pd).insert upage pte) }

def pagedirIsDirty (s : State) (pd : Pid) (upage : Upage) : Bool :=
  (s.lookupPage pd upage).any Pte.dirty

def pagedirIsAccessed (s : State) (pd : Pid) (upage : Upage) : Bool :=
  (s.lookupPage pd upage).any Pte.accessed

def pagedirIsStack (s : State) (pd : Pid) (upage : Upage) : Bool :=
  (s.lookupPage pd upage).any Pte.stack

def pagedirDestroy (pd : Pid) (s : State) : Option State :=
  let freePage : State → (Σ _ : Upage, Pte) → Option State := fun s entry =>
    if entry.2.present then s.pallocFreePage entry.2.kpage else some s
  ((s.pagedir pd).entries.foldlM freePage s).map fun s => { s with pagedir := update s.pagedir pd ∅ }

/-! ## Files -/

/-- `file_deny_write` by the processes that execute the file. -/
def denied (s : State) (file : File) : Bool :=
  s.processes.any fun pid => decide (s.execFile pid = some file)

/-- `file_read_at`, to a page: the number of bytes read, and the page. -/
def fileReadAt (s : State) (file : File) (page : Bytes) (size ofs : Nat) : Nat × Bytes :=
  let count := min size ((s.files file).length - ofs)
  (count, fun k => if k < count then (s.files file).byte (ofs + k) else page k)

/-- `file_write_at`, from a page: the number of bytes written. -/
def fileWriteAt (file : File) (page : Bytes) (size ofs : Nat) (s : State) : Nat × State :=
  let data := s.files file
  let byte : Bytes := fun k => if ofs ≤ k ∧ k < ofs + size then page (k - ofs) else data.byte k
  let files := update s.files file ⟨max data.length (ofs + size), byte⟩
  (if s.denied file then 0 else size, { s with files := if s.denied file then s.files else files })

/-! ## The swap disk -/

/-- The eight calls of `disk_write` for a slot. -/
def swapWrite (slot : Nat) (page : Bytes) (s : State) : State :=
  let diskWrite : (Nat → Bytes) → Nat → Nat → Bytes := fun disk count =>
    update disk (slot * 8 + count) fun k => page (count * diskSectorSize + k)
  { s with swapDisk := (List.range 8).foldl diskWrite s.swapDisk }

/-- The eight calls of `disk_read` for a slot. -/
def swapRead (s : State) (slot : Nat) (page : Bytes) : Bytes :=
  let diskRead : Bytes → Nat → Bytes := fun page count k =>
    if count * diskSectorSize ≤ k ∧ k < (count + 1) * diskSectorSize then
      s.swapDisk (slot * 8 + count) (k - count * diskSectorSize)
    else page k
  (List.range 8).foldl diskRead page

/-! ## Supplementary page tables -/

def pageLookup (s : State) (pid : Pid) (upage : Upage) : Option Page :=
  (s.supplementaryPageTable pid).lookup upage

/-- `hash_replace`, of an entry for a page that exists. -/
def replacePage (pid : Pid) (upage : Upage) (page : Page) (s : State) : State :=
  { s with supplementaryPageTable :=
      update s.supplementaryPageTable pid ((s.supplementaryPageTable pid).insert upage page) }

/-- What a page holds when it is first loaded. -/
def initialBytes (s : State) (page : Page) : Bytes := fun k =>
  match page.f with
  | none => 0
  | some file => if k < page.loadReadBytes then (s.files file).byte (page.loadFilepos + k) else 0

/-- `hash_replace`, of an entry for a new page. -/
def addPage (pid : Pid) (upage : Upage) (page : Page) (s : State) : State :=
  { s.replacePage pid upage page with
    image := update s.image pid (update (s.image pid) upage ⟨s.initialBytes page, page.writable⟩) }

/-- `page_swap_out_index`, which is asserted to find the page. -/
def pageSwapOutIndex (upage : Upage) (pid : Pid) (newSwapOuted : Bool) (newIndex : Option Nat) (s : State) :
    Option State :=
  (s.pageLookup pid upage).map fun page =>
    s.replacePage pid upage { page with swapOuted := newSwapOuted, swapIndex := newIndex }

end State

/-- The entry of a page that is all zero at first: the stack. -/
def zeroPage : Page :=
  { f := none, loadFilepos := 0, loadReadBytes := 0, writable := true, swapOuted := false, swapIndex := some 0
    mmaped := false }

end Pintos.Vm
