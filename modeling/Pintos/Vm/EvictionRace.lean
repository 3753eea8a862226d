import Pintos.Library.Mutex
import Pintos.Vm.Tables

/-! # Eviction against a concurrent fault

A finer model of `page_fault` for one user page that is not mapped from a file by `mmap`.  Its process, the faulter,
is in the kernel at the same time as another process, the evictor, and the two take turns at every operation on a lock
and at every transfer of a sector.  Allocations of entries succeed.
-/

namespace Pintos.Vm.Race

open Kernel Library Function List Option

/-- The address of a `struct page`. -/
abbrev Pointer := Nat

/-- The eight sectors of a page. -/
abbrev Sectors := Nat → Bytes

inductive Party
  | evictor
  | faulter
  deriving DecidableEq, Repr

/-- What a process is at in the eviction of `page_fault`, with the slot that it has reserved. -/
inductive EvictPc
  -- `palloc_get_page` has returned a null pointer.
  | full
  -- The swap lock is held from here on.
  | reserved (swappingIndex : Option Nat)
  -- The victim is the page: its frame has been taken from the frame table, and `page_lookup` is called.
  | chosen (swappingIndex : Nat)
  | looking (swappingIndex : Nat)
  | looked (swappingIndex : Nat)
  -- After `pagedir_clear_page`, and in `page_swap_out_index`
  | cleared (swappingIndex : Nat)
  | replacing (swappingIndex : Nat)
  | writing (swappingIndex count : Nat)
  -- The victim is another page that goes to the swap disk.
  | saving (swappingIndex count : Nat)
  | freed
  | releasing (kpage : Bool)
  | done (kpage : Bool)
  deriving DecidableEq, Repr

/-- What the process of the page is at.  Its `faulted_page` is a pointer until the entry is read, and from then on the
local variables with what they were read from. -/
inductive FaultPc
  | running
  | faulted
  | evicting (pc : EvictPc)
  -- With a frame, before and in `page_lookup`
  | gotFrame
  | looking
  | looked (faultedPage : Pointer)
  -- With the swap lock, about to read the entry
  | reading (faultedPage : Pointer)
  | loading (page : Page) (count : Nat) (kpage : Sectors)
  -- After `pagedir_set_page`, and in `page_swap_out_index`
  | installed (page : Page)
  | updating (page : Page)
  -- Before and in `swap_table_bitmap_set`
  | updated (page : Page)
  | flipping (page : Page)
  -- Before `frame_table_push_back`
  | pushing

structure State where
  swapLock : Option Party
  -- The lock of the faulter's supplementary page table.
  supplementaryLock : Option Party
  -- The number of free pages of the user pool.
  freeFrames : Nat
  -- The page in the page directory and in the frame table, and its frame.
  present : Bool
  framed : Bool
  frame : Sectors
  -- The entry of the page, and all entries that are allocated.
  entry : Pointer
  heap : Pointer → Option Page
  swapTable : Bitmap
  swapDisk : Nat → Bytes
  -- What the file has for the page, zeros after it.
  file : Sectors
  evictor : EvictPc
  faulter : FaultPc
  -- History, which no function reads: what the page was when it last went out, and at first what its file has.
  saved : Sectors

/-- The victim that `frame_table_find_victim` returns. -/
inductive Victim
  | page
  | swapped
  | mapped
  deriving DecidableEq, Repr

/-- What a step leaves open: the victim, the address that `malloc` returns, and a sector of another victim. -/
structure Choice where
  victim : Victim
  pointer : Pointer
  sector : Bytes

namespace State

/-! ## Locks and entries -/

def swapLockAcquire (party : Party) (s : State) : Option State :=
  if s.swapLock = none then some { s with swapLock := some party } else none

def swapLockRelease (s : State) : State :=
  { s with swapLock := none }

def supplementaryLockAcquire (party : Party) (s : State) : Option State :=
  if s.supplementaryLock = none then some { s with supplementaryLock := some party } else none

def supplementaryLockRelease (s : State) : State :=
  { s with supplementaryLock := none }

/-- `page_swap_out_index`, under the lock: a new entry takes the place of the old one, which is freed. -/
def pageSwapOutIndex (pointer : Pointer) (newSwapOuted : Bool) (newIndex : Nat) (s : State) : Option State :=
  match s.heap s.entry, s.heap pointer with
  | some page, none =>
    let heap := update s.heap pointer (some { page with swapOuted := newSwapOuted, swapIndex := some newIndex })
    some { s with entry := pointer, heap := update heap s.entry none }
  | _, _ => none

def diskWrite (sector : Nat) (bytes : Bytes) (s : State) : State :=
  { s with swapDisk := update s.swapDisk sector bytes }

def pallocFreePage (s : State) : State :=
  { s with freeFrames := s.freeFrames + 1 }

/-! ## The two processes -/

/-- A step of the eviction in `page_fault`, by either process.  There is none where a lock is held, and where the kernel
panics because the swap disk is full. -/
def evict (party : Party) (choice : Choice) (pc : EvictPc) (s : State) : Option (EvictPc × State) :=
  match pc with
  | .full =>
    (s.swapLockAcquire party).map fun s =>
      match bitmapScanAndFlip s.swapTable 0 1 false with
      | none => (.reserved none, s)
      | some (swappingIndex, swapTable) => (.reserved (some swappingIndex), { s with swapTable })
  | .reserved swappingIndex =>
    match choice.victim, swappingIndex with
    | .page, some i => if s.framed then some (.chosen i, { s with framed := false }) else none
    | .swapped, some i => some (.saving i 0, s)
    | .mapped, _ => some (.freed, s.pallocFreePage)
    | _, none => none
  | .chosen i => (s.supplementaryLockAcquire party).map (.looking i, ·)
  | .looking i => some (.looked i, s.supplementaryLockRelease)
  | .looked i => if s.present then some (.cleared i, { s with present := false, saved := s.frame }) else none
  | .cleared i => (s.supplementaryLockAcquire party).map (.replacing i, ·)
  | .replacing i => (s.pageSwapOutIndex choice.pointer true i).map fun s => (.writing i 0, s.supplementaryLockRelease)
  | .writing i count =>
    if count < 8 then some (.writing i (count + 1), s.diskWrite (i * 8 + count) (s.frame count))
    else some (.freed, s.pallocFreePage)
  | .saving i count =>
    if count < 8 then some (.saving i (count + 1), s.diskWrite (i * 8 + count) choice.sector)
    else some (.freed, s.pallocFreePage)
  | .freed =>
    -- Another process can have taken the frame.
    if 0 < s.freeFrames then some (.releasing true, { s with freeFrames := s.freeFrames - 1 })
    else some (.releasing false, s)
  | .releasing kpage => some (.done kpage, s.swapLockRelease)
  | .done _ => none

/-- A step of the evictor, which faults on pages of its own. -/
def evictorStep (choice : Choice) (s : State) : Option State :=
  match s.evictor with
  | .done _ => if s.freeFrames = 0 then some { s with evictor := .full } else none
  | pc => (s.evict .evictor choice pc).map fun (pc, s) => { s with evictor := pc }

/-- A step of the faulter: an access to the page that faults, and `page_fault`. -/
def faulterStep (choice : Choice) (s : State) : Option State :=
  match s.faulter with
  | .running => if s.present then none else some { s with faulter := .faulted }
  | .faulted =>
    if 0 < s.freeFrames then some { s with freeFrames := s.freeFrames - 1, faulter := .gotFrame }
    else some { s with faulter := .evicting .full }
  | .evicting (.done kpage) => some { s with faulter := if kpage then .gotFrame else .running }
  | .evicting pc => (s.evict .faulter choice pc).map fun (pc, s) => { s with faulter := .evicting pc }
  | .gotFrame => (s.supplementaryLockAcquire .faulter).map fun s => { s with faulter := .looking }
  | .looking => some { s.supplementaryLockRelease with faulter := .looked s.entry }
  | .looked faultedPage => (s.swapLockAcquire .faulter).map fun s => { s with faulter := .reading faultedPage }
  | .reading faultedPage =>
    -- There is no telling what a freed entry holds.
    (s.heap faultedPage).map fun page => { s.swapLockRelease with faulter := .loading page 0 fun _ _ => 0 }
  | .loading page count kpage =>
    if count < 8 then
      let bytes := if page.swapOuted then s.swapDisk (page.slotNo * 8 + count) else s.file count
      some { s with faulter := .loading page (count + 1) (update kpage count bytes) }
    else if s.present then some { s.pallocFreePage with faulter := .running }
    else
      let s := { s with present := true, frame := kpage }
      some { s with faulter := if page.swapOuted then .installed page else .pushing }
  | .installed page => (s.supplementaryLockAcquire .faulter).map fun s => { s with faulter := .updating page }
  | .updating page =>
    (s.pageSwapOutIndex choice.pointer false 0).map
      fun s => { s.supplementaryLockRelease with faulter := .updated page }
  | .updated page => (s.swapLockAcquire .faulter).map fun s => { s with faulter := .flipping page }
  | .flipping page =>
    some { s.swapLockRelease with swapTable := s.swapTable.set page.slotNo false, faulter := .pushing }
  | .pushing => some { s with framed := true, faulter := .running }

/-- Whether the slot is that of the page. -/
def ownsSlot (s : State) (slot : Nat) : Bool :=
  (s.heap s.entry).any fun page => page.swapOuted && decide (page.slotNo = slot)

end State

inductive Label
  | evictor (choice : Choice)
  | faulter (choice : Choice)
  -- The faulter writes to the page.
  | store (count : Nat) (bytes : Bytes)
  -- Other processes get and free frames, and free the slots of other pages.
  | frames (freeFrames : Nat)
  | slot (slot : Nat)

def step (label : Label) (s : State) : Option State :=
  match label with
  | .evictor choice => s.evictorStep choice
  | .faulter choice => s.faulterStep choice
  | .store count bytes =>
    match s.faulter with
    | .running => if s.present then some { s with frame := update s.frame count bytes } else none
    | _ => none
  | .frames freeFrames => some { s with freeFrames }
  | .slot slot =>
    if s.swapLock = none ∧ !s.ownsSlot slot then some { s with swapTable := s.swapTable.set slot false } else none

/-- The page before its first fault or, where it is resident, right after `page_fault` has added it to the stack. -/
def start (resident : Bool) (freeFrames : Nat) (swapTable : Bitmap) (swapDisk : Nat → Bytes) (page : Page)
    (file : Sectors) : State where
  swapLock := none
  supplementaryLock := none
  freeFrames := freeFrames
  present := resident
  framed := resident
  frame := fun _ _ => 0
  entry := 0
  heap := fun pointer => if pointer = 0 then some { page with swapOuted := false, swapIndex := some 0 } else none
  swapTable := swapTable
  swapDisk := swapDisk
  file := file
  evictor := .done true
  faulter := .running
  saved := file

/-! ## What holds in every state -/

namespace EvictPc

def holdsSwapLock : EvictPc → Bool
  | full | done _ => false
  | _ => true

def holdsSupplementaryLock : EvictPc → Bool
  | looking _ | replacing _ => true
  | _ => false

/-- The slot that the process has reserved and not yet put into the entry of the page. -/
def slot : EvictPc → Option Nat
  | reserved i => i
  | chosen i | looking i | looked i | cleared i | replacing i | saving i _ => some i
  | _ => none

/-- Whether the page is not present any more, while its entry still says that it is not swapped out. -/
def clearing : EvictPc → Bool
  | cleared _ | replacing _ => true
  | _ => false

/-- Whether the eviction has nothing to do with the page. -/
def elsewhere : EvictPc → Bool
  | chosen _ | looking _ | looked _ | cleared _ | replacing _ | writing _ _ => false
  | _ => true

end EvictPc

namespace FaultPc

def holdsSwapLock : FaultPc → Bool
  | evicting pc => pc.holdsSwapLock
  | reading _ | flipping _ => true
  | _ => false

def holdsSupplementaryLock : FaultPc → Bool
  | evicting pc => pc.holdsSupplementaryLock
  | looking | updating _ => true
  | _ => false

def slot : FaultPc → Option Nat
  | evicting pc => pc.slot
  | _ => none

/-- Whether the fault has not yet got to the entry. -/
def early : FaultPc → Bool
  | running | faulted | gotFrame | looking => true
  | evicting pc => pc.elsewhere
  | _ => false

end FaultPc

namespace State

/-- What two functions say of the parties. -/
def each {α : Type} (evictor : EvictPc → α) (faulter : FaultPc → α) (s : State) : Party → α
  | .evictor => evictor s.evictor
  | .faulter => faulter s.faulter

def holdsSwapLock (s : State) : Party → Bool :=
  s.each EvictPc.holdsSwapLock FaultPc.holdsSwapLock

def holdsSupplementaryLock (s : State) : Party → Bool :=
  s.each EvictPc.holdsSupplementaryLock FaultPc.holdsSupplementaryLock

def slot (s : State) : Party → Option Nat :=
  s.each EvictPc.slot FaultPc.slot

end State

/-- Reserved slots are in use, and not that of the page. -/
structure Slots (swapTable : Bitmap) (slot : Party → Option Nat) (page : Page) : Prop where
  entry : page.swapOuted = true → swapTable[page.slotNo]? = some true
  reserved : ∀ {party i}, slot party = some i → swapTable[i]? = some true
  apart : ∀ {party i}, slot party = some i → page.swapOuted = true → i ≠ page.slotNo

/-- The page is out, and its entry tells where it is. -/
structure Out (s : State) (page : Page) : Prop where
  present : s.present = false
  framed : s.framed = false
  swapped : page.swapOuted = true → ∀ n < 8, s.swapDisk (page.slotNo * 8 + n) = s.saved n
  file : page.swapOuted = false → ∀ n < 8, s.file n = s.saved n

/-- The page is in memory, with or without its element of the frame table. -/
structure In (framed : Bool) (s : State) (page : Page) : Prop where
  present : s.present = true
  framed : s.framed = framed
  swapped : page.swapOuted = false

/-- What holds of the page and the fault while no eviction is at the page. -/
def Calm (s : State) (page : Page) : Prop :=
  match s.faulter with
  | .running => In true s page ∨ Out s page
  | .faulted | .gotFrame | .looking => Out s page
  | .evicting pc => pc.elsewhere = true ∧ Out s page
  | .looked faultedPage | .reading faultedPage => faultedPage = s.entry ∧ Out s page
  | .loading read count kpage => read = page ∧ Out s page ∧ ∀ n < count, n < 8 → kpage n = s.saved n
  | .installed read | .updating read =>
    read = page ∧ s.present = true ∧ s.framed = false ∧ page.swapOuted = true
  | .updated _ | .flipping _ | .pushing => In false s page

/-- What holds of the page while it is being evicted, and otherwise. -/
def Placed (s : State) (page : Page) : Prop :=
  match s.evictor with
  | .chosen _ | .looking _ | .looked _ => s.faulter = .running ∧ In false s page
  | .cleared _ | .replacing _ =>
    s.faulter.early = true ∧ s.present = false ∧ s.framed = false ∧ page.swapOuted = false ∧ s.saved = s.frame
  | .writing i count =>
    (s.faulter.early = true ∨ s.faulter = .looked s.entry) ∧ s.present = false ∧ s.framed = false ∧
      page.swapOuted = true ∧ page.slotNo = i ∧ s.saved = s.frame ∧
      ∀ n < count, n < 8 → s.swapDisk (i * 8 + n) = s.saved n
  | _ => Calm s page

structure Coherent (s : State) : Prop where
  swapLock : Holders s.swapLock s.holdsSwapLock
  supplementaryLock : Holders s.supplementaryLock s.holdsSupplementaryLock
  page : ∃ page, s.heap s.entry = some page ∧ Slots s.swapTable s.slot page ∧ Placed s page

/-- The faulter's `page_lookup` does not read the table between the evictor's `pagedir_clear_page` of the page and the
end of its `page_swap_out_index`. -/
def lookupWaits (label : Label) (s : State) : Prop :=
  match label, s.faulter, s.evictor with
  | .faulter _, .looking, .cleared _ => False
  | _, _, _ => True

instance (label : Label) (s : State) : Decidable (lookupWaits label s) := by
  unfold lookupWaits
  split <;> infer_instance

variable {s s' : State} {choice : Choice} {party : Party} {pc pc' : EvictPc} {page : Page} {i : Nat} {α : Type}

/-! ## Locks -/

theorem swapLockAcquire_map {f : State → α} {a : α} (acquired : (s.swapLockAcquire party).map f = some a) :
    s.swapLock = none ∧ a = f { s with swapLock := some party } := by
  unfold State.swapLockAcquire at acquired
  split at acquired <;> simp_all

theorem supplementaryLockAcquire_map {f : State → α} {a : α}
    (acquired : (s.supplementaryLockAcquire party).map f = some a) :
    s.supplementaryLock = none ∧ a = f { s with supplementaryLock := some party } := by
  unfold State.supplementaryLockAcquire at acquired
  split at acquired <;> simp_all

/-- A new entry has taken the place of the old one. -/
theorem pageSwapOutIndex_eq_some {pointer : Pointer} {newSwapOuted : Bool} {newIndex : Nat}
    (replaced : s.pageSwapOutIndex pointer newSwapOuted newIndex = some s') :
    ∃ page, s.heap s.entry = some page ∧ (∃ heap entry, s' = { s with heap, entry }) ∧
      s'.heap s'.entry = some { page with swapOuted := newSwapOuted, swapIndex := some newIndex } := by
  unfold State.pageSwapOutIndex at replaced
  split at replaced
  next page found free =>
    cases replaced
    refine ⟨page, found, ⟨_, _, rfl⟩, ?_⟩
    have other : pointer ≠ s.entry := by
      intro same
      rw [same, found] at free
      cases free
    simp [update_of_ne other]
  next => cases replaced

/-! ## What a step of either process does -/

inductive Evicts (party : Party) (s : State) : EvictPc → EvictPc → State → Prop
  | reserve {i : Nat} (free : s.swapLock = none) (clear : s.swapTable[i]? = some false) :
      Evicts party s .full (.reserved (some i)) { s with swapLock := some party, swapTable := s.swapTable.set i true }
  | crowded (free : s.swapLock = none) : Evicts party s .full (.reserved none) { s with swapLock := some party }
  | choose {i : Nat} (framed : s.framed = true) :
      Evicts party s (.reserved (some i)) (.chosen i) { s with framed := false }
  | save {i : Nat} : Evicts party s (.reserved (some i)) (.saving i 0) s
  | map {swappingIndex} : Evicts party s (.reserved swappingIndex) .freed s.pallocFreePage
  | lookup {i : Nat} (free : s.supplementaryLock = none) :
      Evicts party s (.chosen i) (.looking i) { s with supplementaryLock := some party }
  | found {i : Nat} : Evicts party s (.looking i) (.looked i) s.supplementaryLockRelease
  | clear {i : Nat} (present : s.present = true) :
      Evicts party s (.looked i) (.cleared i) { s with present := false, saved := s.frame }
  | lock {i : Nat} (free : s.supplementaryLock = none) :
      Evicts party s (.cleared i) (.replacing i) { s with supplementaryLock := some party }
  | replace {i pointer s'} (replaced : s.pageSwapOutIndex pointer true i = some s') :
      Evicts party s (.replacing i) (.writing i 0) s'.supplementaryLockRelease
  | write {i count} (more : count < 8) :
      Evicts party s (.writing i count) (.writing i (count + 1)) (s.diskWrite (i * 8 + count) (s.frame count))
  | written {i count} (all : 8 ≤ count) : Evicts party s (.writing i count) .freed s.pallocFreePage
  | saveSector {i count sector} (more : count < 8) :
      Evicts party s (.saving i count) (.saving i (count + 1)) (s.diskWrite (i * 8 + count) sector)
  | saved {i count} : Evicts party s (.saving i count) .freed s.pallocFreePage
  | get {kpage freeFrames} : Evicts party s .freed (.releasing kpage) { s with freeFrames }
  | release {kpage} : Evicts party s (.releasing kpage) (.done kpage) s.swapLockRelease
  -- The next fault, of the evictor
  | again {kpage} : Evicts party s (.done kpage) .full s

theorem evict_evicts (stepped : s.evict party choice pc = some (pc', s')) : Evicts party s pc pc' s' := by
  cases pc with simp only [State.evict] at stepped
  | full =>
    obtain ⟨free, same⟩ := swapLockAcquire_map stepped
    split at same
    next => cases same; exact .crowded free
    next i swapTable found =>
      obtain ⟨clear, rfl⟩ := bitmapScanAndFlip_some found
      cases same
      exact .reserve free clear
  | reserved swappingIndex =>
    split at stepped
    next =>
      split_ifs at stepped with framed
      cases stepped
      exact .choose framed
    next => cases stepped; exact .save
    next => cases stepped; exact .map
    next => cases stepped
  | chosen i =>
    obtain ⟨free, same⟩ := supplementaryLockAcquire_map stepped
    cases same
    exact .lookup free
  | looking i => cases stepped; exact .found
  | looked i =>
    split_ifs at stepped with present
    cases stepped
    exact .clear present
  | cleared i =>
    obtain ⟨free, same⟩ := supplementaryLockAcquire_map stepped
    cases same
    exact .lock free
  | replacing i =>
    obtain ⟨next, replaced, same⟩ := map_eq_some_iff.mp stepped
    cases same
    exact .replace replaced
  | writing i count =>
    split at stepped
    next more => cases stepped; exact .write more
    next all => cases stepped; exact .written (Nat.le_of_not_lt all)
  | saving i count =>
    split at stepped
    next more => cases stepped; exact .saveSector more
    next => cases stepped; exact .saved
  | freed =>
    split at stepped
    next => cases stepped; exact .get
    next => cases stepped; exact @Evicts.get _ _ _ s.freeFrames
  | releasing kpage => cases stepped; exact .release
  | done kpage => cases stepped

inductive Faults (s : State) : FaultPc → FaultPc → State → Prop
  | fault (out : s.present = false) : Faults s .running .faulted s
  | get {freeFrames} : Faults s .faulted .gotFrame { s with freeFrames }
  | full : Faults s .faulted (.evicting .full) s
  | evicted {kpage} : Faults s (.evicting (.done kpage)) (if kpage then .gotFrame else .running) s
  | evict {pc pc' : EvictPc} {s'} (evicts : Evicts .faulter s pc pc' s') :
      Faults s (.evicting pc) (.evicting pc') s'
  | lookup (free : s.supplementaryLock = none) :
      Faults s .gotFrame .looking { s with supplementaryLock := some .faulter }
  | found : Faults s .looking (.looked s.entry) s.supplementaryLockRelease
  | lock {faultedPage} (free : s.swapLock = none) :
      Faults s (.looked faultedPage) (.reading faultedPage) { s with swapLock := some .faulter }
  | read {faultedPage page} (entry : s.heap faultedPage = some page) :
      Faults s (.reading faultedPage) (.loading page 0 fun _ _ => 0) s.swapLockRelease
  | load {page count kpage} (more : count < 8) :
      Faults s (.loading page count kpage) (.loading page (count + 1) (update kpage count
        (if page.swapOuted then s.swapDisk (page.slotNo * 8 + count) else s.file count))) s
  | discard {page count kpage} (present : s.present = true) :
      Faults s (.loading page count kpage) .running s.pallocFreePage
  | install {page count kpage} :
      Faults s (.loading page count kpage) (if page.swapOuted then .installed page else .pushing)
        { s with present := true, frame := kpage }
  | enter {page : Page} (free : s.supplementaryLock = none) :
      Faults s (.installed page) (.updating page) { s with supplementaryLock := some .faulter }
  | update {page pointer s'} (replaced : s.pageSwapOutIndex pointer false 0 = some s') :
      Faults s (.updating page) (.updated page) s'.supplementaryLockRelease
  | lockSlot {page : Page} (free : s.swapLock = none) :
      Faults s (.updated page) (.flipping page) { s with swapLock := some .faulter }
  | flip {page : Page} : Faults s (.flipping page) .pushing
      { s.swapLockRelease with swapTable := s.swapTable.set page.slotNo false }
  | push : Faults s .pushing .running { s with framed := true }

theorem faulterStep_faults {pc : FaultPc} (located : s.faulter = pc) (stepped : s.faulterStep choice = some s') :
    ∃ pc' between, Faults s pc pc' between ∧ s' = { between with faulter := pc' } := by
  unfold State.faulterStep at stepped
  rw [located] at stepped
  cases pc with
  | running =>
    simp only at stepped
    split_ifs at stepped with out
    cases stepped
    exact ⟨_, _, .fault (Bool.eq_false_iff.mpr out), rfl⟩
  | faulted =>
    simp only at stepped
    split at stepped
    next => cases stepped; exact ⟨_, _, @Faults.get _ (s.freeFrames - 1), rfl⟩
    next => cases stepped; exact ⟨_, _, .full, rfl⟩
  | evicting pc =>
    simp only at stepped
    split at stepped
    next => rename_i same; cases same
    next => rename_i same; cases same
    next kpage same => cases same; cases stepped; exact ⟨_, _, .evicted, rfl⟩
    next pc _ same =>
      cases same
      obtain ⟨⟨pc', next⟩, evicted, rfl⟩ := map_eq_some_iff.mp stepped
      exact ⟨_, _, .evict (evict_evicts evicted), rfl⟩
    all_goals rename_i same; cases same
  | gotFrame =>
    obtain ⟨free, rfl⟩ := supplementaryLockAcquire_map stepped
    exact ⟨_, _, .lookup free, rfl⟩
  | looking => cases stepped; exact ⟨_, _, .found, rfl⟩
  | looked faultedPage =>
    obtain ⟨free, rfl⟩ := swapLockAcquire_map stepped
    exact ⟨_, _, .lock free, rfl⟩
  | reading faultedPage =>
    obtain ⟨page, entry, rfl⟩ := map_eq_some_iff.mp stepped
    exact ⟨_, _, .read entry, rfl⟩
  | loading page count kpage =>
    simp only at stepped
    split at stepped
    next more => cases stepped; exact ⟨_, _, .load more, rfl⟩
    next =>
      split at stepped
      next present => cases stepped; exact ⟨_, _, .discard present, rfl⟩
      next => cases stepped; exact ⟨_, _, .install, rfl⟩
  | installed page =>
    obtain ⟨free, rfl⟩ := supplementaryLockAcquire_map stepped
    exact ⟨_, _, .enter free, rfl⟩
  | updating page =>
    obtain ⟨replacement, replaced, rfl⟩ := map_eq_some_iff.mp stepped
    exact ⟨_, _, .update replaced, rfl⟩
  | updated page =>
    obtain ⟨free, rfl⟩ := swapLockAcquire_map stepped
    exact ⟨_, _, .lockSlot free, rfl⟩
  | flipping page => cases stepped; exact ⟨_, _, .flip, rfl⟩
  | pushing => cases stepped; exact ⟨_, _, .push, rfl⟩

/-! ### Locks -/

theorem Evicts.swapLock (evicts : Evicts party s pc pc' s') :
    Turn party s.swapLock pc.holdsSwapLock s'.swapLock pc'.holdsSwapLock := by
  cases evicts with
  | reserve free | crowded free => exact free ▸ .acquire
  | replace replaced =>
    obtain ⟨_, _, ⟨_, _, rfl⟩, _⟩ := pageSwapOutIndex_eq_some replaced
    exact .keep
  | release => exact .release
  | _ => exact .keep

theorem Evicts.supplementaryLock (evicts : Evicts party s pc pc' s') :
    Turn party s.supplementaryLock pc.holdsSupplementaryLock s'.supplementaryLock pc'.holdsSupplementaryLock := by
  cases evicts with
  | lookup free | lock free => exact free ▸ .acquire
  | found | replace _ => exact .release
  | _ => exact .keep

theorem Faults.swapLock {pc pc' : FaultPc} (faults : Faults s pc pc' s') :
    Turn .faulter s.swapLock pc.holdsSwapLock s'.swapLock pc'.holdsSwapLock := by
  cases faults with
  | evict evicts => exact evicts.swapLock
  | @evicted kpage => cases kpage <;> exact .keep
  | lock free | lockSlot free => exact free ▸ .acquire
  | read _ | flip => exact .release
  | @install page => cases page.swapOuted <;> exact .keep
  | update replaced =>
    obtain ⟨_, _, ⟨_, _, rfl⟩, _⟩ := pageSwapOutIndex_eq_some replaced
    exact .keep
  | _ => exact .keep

theorem Faults.supplementaryLock {pc pc' : FaultPc} (faults : Faults s pc pc' s') :
    Turn .faulter s.supplementaryLock pc.holdsSupplementaryLock s'.supplementaryLock pc'.holdsSupplementaryLock := by
  cases faults with
  | evict evicts => exact evicts.supplementaryLock
  | @evicted kpage => cases kpage <;> exact .keep
  | lookup free | enter free => exact free ▸ .acquire
  | found | update _ => exact .release
  | @install page => cases page.swapOuted <;> exact .keep
  | _ => exact .keep

/-! ### Slots -/

section Slots

variable {swapTable : Bitmap} {slot : Party → Option Nat} {new : Option Nat}

theorem update_slot_eq_some {other : Party} {j : Nat} (reserved : update slot party new other = some j) :
    new = some j ∨ slot other = some j := by
  by_cases same : other = party
  · subst same
    exact .inl ((update_self other new slot).symm.trans reserved)
  · exact .inr ((update_of_ne same new slot).symm.trans reserved)

theorem Slots.keep (slots : Slots swapTable slot page) (kept : new = slot party ∨ new = none) :
    Slots swapTable (update slot party new) page := by
  have old : ∀ {other j}, update slot party new other = some j → ∃ owner, slot owner = some j := by
    intro other j reserved
    cases update_slot_eq_some reserved with
    | inl here =>
      cases kept with
      | inl same => exact ⟨party, same ▸ here⟩
      | inr gone => rw [gone] at here; cases here
    | inr there => exact ⟨other, there⟩
  refine ⟨slots.entry, fun reserved => ?_, fun reserved => ?_⟩
  · obtain ⟨owner, reserved⟩ := old reserved
    exact slots.reserved reserved
  · obtain ⟨owner, reserved⟩ := old reserved
    exact slots.apart reserved

theorem Slots.reserve (slots : Slots swapTable slot page) (clear : swapTable[i]? = some false) :
    Slots (swapTable.set i true) (update slot party (some i)) page := by
  have other : ∀ j : Nat, swapTable[j]? = some true → i ≠ j := by
    rintro j used rfl
    cases clear.symm.trans used
  have used : ∀ j : Nat, swapTable[j]? = some true → (swapTable.set i true)[j]? = some true := by
    intro j used
    rw [getElem?_set_ne (other j used)]
    exact used
  refine ⟨fun out => used _ (slots.entry out), fun reserved => ?_, fun reserved out => ?_⟩
  · cases update_slot_eq_some reserved with
    | inl here =>
      cases here
      exact List.getElem?_set_self (List.getElem?_eq_some_iff.mp clear).1
    | inr there => exact used _ (slots.reserved there)
  · cases update_slot_eq_some reserved with
    | inl here =>
      cases here
      exact other _ (slots.entry out)
    | inr there => exact slots.apart there out

theorem Evicts.slots (evicts : Evicts party s pc pc' s') (stays : ∀ i, pc ≠ .replacing i) (own : slot party = pc.slot)
    (slots : Slots s.swapTable slot page) : Slots s'.swapTable (update slot party pc'.slot) page := by
  cases evicts with
  | reserve _ clear => exact slots.reserve clear
  | replace _ => exact absurd rfl (stays _)
  | choose _ | save | lookup _ | found | clear _ | lock _ | saveSector _ => exact slots.keep (.inl own.symm)
  | crowded _ | map | write _ | written _ | saved | get | release | again => exact slots.keep (.inr rfl)

end Slots

/-! ### Evictions of other pages -/

/-- Nothing of the page has changed, and on the disk only the given slot. -/
structure Apart (slot : Option Nat) (s s' : State) : Prop where
  present : s'.present = s.present := by rfl
  framed : s'.framed = s.framed := by rfl
  frame : s'.frame = s.frame := by rfl
  entry : s'.entry = s.entry := by rfl
  heap : s'.heap = s.heap := by rfl
  file : s'.file = s.file := by rfl
  saved : s'.saved = s.saved := by rfl
  swapDisk : ∀ i n, n < 8 → slot ≠ some i → s'.swapDisk (i * 8 + n) = s.swapDisk (i * 8 + n) := by intros; rfl

theorem Evicts.apart (evicts : Evicts party s pc pc' s') (before : pc.elsewhere = true) (after : pc'.elsewhere = true) :
    Apart pc.slot s s' := by
  cases evicts with
  | @saveSector i count sector more =>
    refine { swapDisk := fun j n inside other => ?_ }
    have elsewhere : j * 8 + n ≠ i * 8 + count := by
      intro same
      exact other (congrArg some (by omega))
    exact update_of_ne elsewhere _ _
  | choose _ => cases after
  | lookup _ | found | clear _ | lock _ | replace _ | write _ | written _ => cases before
  | _ => exact {}

theorem Out.apart {slot : Option Nat} (out : Out s page) (apart : Apart slot s s')
    (other : page.swapOuted = true → slot ≠ some page.slotNo) : Out s' page where
  present := apart.present.trans out.present
  framed := apart.framed.trans out.framed
  swapped swapOuted n inside := by
    rw [apart.swapDisk _ n inside (other swapOuted), apart.saved]
    exact out.swapped swapOuted n inside
  file notOut n inside := by
    rw [apart.file, apart.saved]
    exact out.file notOut n inside

theorem In.apart {slot : Option Nat} {framed : Bool} (inside : In framed s page) (apart : Apart slot s s') :
    In framed s' page :=
  ⟨apart.present.trans inside.present, apart.framed.trans inside.framed, inside.swapped⟩

theorem Calm.apart {slot : Option Nat} (calm : Calm s page) (apart : Apart slot s s') (same : s'.faulter = s.faulter)
    (other : page.swapOuted = true → slot ≠ some page.slotNo) : Calm s' page := by
  unfold Calm at calm ⊢
  rw [same]
  cases faulter : s.faulter with simp only [faulter] at calm ⊢
  | running => exact calm.imp (·.apart apart) (·.apart apart other)
  | faulted | gotFrame | looking => exact calm.apart apart other
  | evicting pc => exact ⟨calm.1, calm.2.apart apart other⟩
  | looked faultedPage | reading faultedPage => exact ⟨calm.1.trans apart.entry.symm, calm.2.apart apart other⟩
  | loading read count kpage => exact ⟨calm.1, calm.2.1.apart apart other, apart.saved ▸ calm.2.2⟩
  | installed read | updating read => exact ⟨calm.1, apart.present ▸ calm.2.1, apart.framed ▸ calm.2.2.1, calm.2.2.2⟩
  | updated read | flipping read | pushing => exact calm.apart apart

/-! ## Steps of the evictor -/

theorem Evicts.others (evicts : Evicts party s pc pc' s') : s'.evictor = s.evictor ∧ s'.faulter = s.faulter := by
  cases evicts with
  | replace replaced =>
    obtain ⟨_, _, ⟨_, _, rfl⟩, _⟩ := pageSwapOutIndex_eq_some replaced
    exact ⟨rfl, rfl⟩
  | _ => exact ⟨rfl, rfl⟩

theorem placed_elsewhere (elsewhere : s.evictor.elsewhere = true) : Placed s page ↔ Calm s page := by
  unfold Placed
  cases evictor : s.evictor with
  | chosen _ | looking _ | looked _ | cleared _ | replacing _ | writing _ _ =>
    rw [evictor] at elsewhere
    cases elsewhere
  | _ => exact Iff.rfl

/-- A page that can be evicted is in memory, and its process is not in the kernel for it. -/
theorem Calm.framed (calm : Calm s page) (framed : s.framed = true) : s.faulter = .running ∧ In true s page := by
  have notOut : ¬ Out s page := fun out => Bool.noConfusion (framed.symm.trans out.framed)
  unfold Calm at calm
  cases faulter : s.faulter with simp only [faulter] at calm
  | running => exact ⟨rfl, calm.resolve_right notOut⟩
  | faulted | gotFrame | looking => exact absurd calm notOut
  | evicting | looked | reading => exact absurd calm.2 notOut
  | loading _ _ _ => exact absurd calm.2.1 notOut
  | installed _ | updating _ => exact Bool.noConfusion (framed.symm.trans calm.2.2.1)
  | updated _ | flipping _ | pushing => exact Bool.noConfusion (framed.symm.trans calm.framed)

theorem Out.calm (out : Out s page) (early : s.faulter.early = true) : Calm s page := by
  unfold Calm
  cases faulter : s.faulter with
  | running => exact .inr out
  | evicting pc => exact ⟨by rw [faulter] at early; exact early, out⟩
  | faulted | gotFrame | looking => exact out
  | _ => rw [faulter] at early; cases early

theorem Out.calm_looked (out : Out s page) (looked : s.faulter = .looked s.entry) : Calm s page := by
  rw [Calm, looked]
  exact ⟨rfl, out⟩

/-- A process that has reserved a slot holds the swap lock. -/
theorem EvictPc.holdsSwapLock_of_slot (reserved : pc.slot = some i) : pc.holdsSwapLock = true := by
  cases pc with
  | full | done _ => cases reserved
  | _ => rfl

theorem State.holdsSwapLock_of_slot (reserved : s.slot party = some i) : s.holdsSwapLock party = true := by
  cases party with
  | evictor => exact EvictPc.holdsSwapLock_of_slot reserved
  | faulter =>
    change s.faulter.slot = some i at reserved
    show s.faulter.holdsSwapLock = true
    cases faulter : s.faulter with
    | evicting pc =>
      rw [faulter] at reserved
      exact EvictPc.holdsSwapLock_of_slot reserved
    | _ => rw [faulter] at reserved; cases reserved

/-- `page_swap_out_index` of the evictor puts its slot into the entry. -/
theorem Slots.replace (slots : Slots s.swapTable s.slot page) (holders : Holders s.swapLock s.holdsSwapLock)
    (own : s.evictor = .replacing i) :
    Slots s.swapTable (update s.slot .evictor none) { page with swapOuted := true, swapIndex := some i } := by
  have ownSlot : s.slot .evictor = some i := congrArg EvictPc.slot own
  have alone : ∀ {party j}, update s.slot .evictor none party ≠ some j := by
    intro party j reserved
    cases update_slot_eq_some reserved with
    | inl here => cases here
    | inr there =>
      have same := holders.exclusive (State.holdsSwapLock_of_slot there) (State.holdsSwapLock_of_slot ownSlot)
      subst same
      cases (update_self Party.evictor none s.slot).symm.trans reserved
  exact ⟨fun _ => slots.reserved ownSlot, fun reserved => absurd reserved alone, fun reserved => absurd reserved alone⟩

theorem State.each_evictor {evictor : EvictPc → α} {faulter : FaultPc → α} (same : s'.faulter = s.faulter) :
    { s' with evictor := pc }.each evictor faulter = update (s.each evictor faulter) .evictor (evictor pc) := by
  funext party
  cases party with
  | evictor => rfl
  | faulter => exact congrArg faulter same

theorem State.each_faulter {evictor : EvictPc → α} {faulter : FaultPc → α} {pc : FaultPc}
    (same : s'.evictor = s.evictor) :
    { s' with faulter := pc }.each evictor faulter = update (s.each evictor faulter) .faulter (faulter pc) := by
  funext party
  cases party with
  | evictor => exact congrArg evictor same
  | faulter => rfl

/-- The page and its entry, after a step of the evictor. -/
theorem Coherent.evictor_page (coherent : Coherent s) (evicts : Evicts .evictor s s.evictor pc' s') :
    ∃ page, s'.heap s'.entry = some page ∧ Slots s'.swapTable (update s.slot .evictor pc'.slot) page ∧
      Placed { s' with evictor := pc' } page := by
  obtain ⟨page, entry, slots, placed⟩ := coherent.page
  have same := evicts.others.2
  have located := placed
  unfold Placed at located
  generalize evictor : s.evictor = pc at evicts located
  have own : s.slot .evictor = pc.slot := congrArg EvictPc.slot evictor
  by_cases far : pc.elsewhere = true ∧ pc'.elsewhere = true
  · -- An eviction of another page
    obtain ⟨before, after⟩ := far
    have apart := evicts.apart before after
    have stays : ∀ i, pc ≠ .replacing i := by
      rintro i rfl
      cases before
    refine ⟨page, ?_, evicts.slots stays own slots, (placed_elsewhere after).mpr ?_⟩
    · rw [apart.heap, apart.entry]
      exact entry
    · have calm := (placed_elsewhere (by rw [evictor]; exact before)).mp placed
      have moved : Apart pc.slot s { s' with evictor := pc' } := { apart with }
      refine calm.apart moved same fun swapOuted reserved => ?_
      exact slots.apart (own.trans reserved) swapOuted rfl
  cases evicts with
  | reserve _ _ | crowded _ | save | map | saveSector _ | saved | get | release | again => exact absurd ⟨rfl, rfl⟩ far
  | choose framed =>
    obtain ⟨running, inside⟩ := ((placed_elsewhere (by rw [evictor]; rfl)).mp placed).framed framed
    exact ⟨page, entry, slots.keep (.inl own.symm), running, inside.present, rfl, inside.swapped⟩
  | lookup _ | found =>
    obtain ⟨running, inside⟩ := located
    exact ⟨page, entry, slots.keep (.inl own.symm), running, inside.present, inside.framed, inside.swapped⟩
  | lock _ => exact ⟨page, entry, slots.keep (.inl own.symm), located⟩
  | clear _ =>
    obtain ⟨running, inside⟩ := located
    exact ⟨page, entry, slots.keep (.inl own.symm), by rw [running]; rfl, rfl, inside.framed, inside.swapped, rfl⟩
  | @replace i pointer _ replaced =>
    obtain ⟨early, out, unframed, _, saved⟩ := located
    obtain ⟨old, found, ⟨heap, entry', rfl⟩, new⟩ := pageSwapOutIndex_eq_some replaced
    cases entry.symm.trans found
    exact ⟨_, new, slots.replace coherent.swapLock evictor, .inl early, out, unframed, rfl, rfl, saved,
      fun n below => absurd below (Nat.not_lt_zero n)⟩
  | @write i count more =>
    obtain ⟨later, out, unframed, swapOuted, index, saved, written⟩ := located
    refine ⟨page, entry, slots.keep (.inr rfl), later, out, unframed, swapOuted, index, saved, fun n below inside => ?_⟩
    show update s.swapDisk (i * 8 + count) (s.frame count) (i * 8 + n) = s.saved n
    by_cases last : n = count
    · rw [last, update_self, saved]
    · rw [update_of_ne (by omega)]
      exact written n (by omega) inside
  | @written i count all =>
    obtain ⟨later, out, unframed, swapOuted, index, saved, written⟩ := located
    have safe : Out { s.pallocFreePage with evictor := .freed } page := by
      refine ⟨out, unframed, fun _ n inside => ?_, fun notOut => ?_⟩
      · rw [index]
        exact written n (by omega) inside
      · cases notOut.symm.trans swapOuted
    refine ⟨page, entry, slots.keep (.inr rfl), ?_⟩
    cases later with
    | inl early => exact safe.calm early
    | inr looked => exact safe.calm_looked looked

theorem evictorStep_evicts (stepped : s.evictorStep choice = some s') :
    ∃ pc between, Evicts .evictor s s.evictor pc between ∧ s' = { between with evictor := pc } := by
  unfold State.evictorStep at stepped
  split at stepped
  next kpage evictor =>
    split_ifs at stepped
    cases stepped
    exact ⟨_, s, evictor.symm ▸ .again, rfl⟩
  next =>
    obtain ⟨⟨pc, between⟩, evicted, rfl⟩ := map_eq_some_iff.mp stepped
    exact ⟨pc, between, evict_evicts evicted, rfl⟩

theorem Coherent.evictor (coherent : Coherent s) (stepped : s.evictorStep choice = some s') : Coherent s' := by
  obtain ⟨pc, between, evicts, rfl⟩ := evictorStep_evicts stepped
  have same := evicts.others.2
  refine ⟨?_, ?_, ?_⟩
  · rw [State.holdsSwapLock, State.each_evictor same]
    exact coherent.swapLock.turn evicts.swapLock
  · rw [State.holdsSupplementaryLock, State.each_evictor same]
    exact coherent.supplementaryLock.turn evicts.supplementaryLock
  · obtain ⟨page, entry, slots, placed⟩ := coherent.evictor_page evicts
    refine ⟨page, entry, ?_, placed⟩
    rw [State.slot, State.each_evictor same]
    exact slots

/-! ## Steps of the faulter -/

section Faulter

variable {pc pc' : FaultPc} {slot : Party → Option Nat} {swapTable : Bitmap}

theorem Faults.others (faults : Faults s pc pc' s') : s'.evictor = s.evictor := by
  cases faults with
  | evict evicts => exact evicts.others.1
  | update replaced =>
    obtain ⟨_, _, ⟨_, _, rfl⟩, _⟩ := pageSwapOutIndex_eq_some replaced
    rfl
  | _ => rfl

theorem Evicts.elsewhere {pc pc' : EvictPc} (evicts : Evicts party s pc pc' s') (before : pc.elsewhere = true)
    (unframed : s.framed = false) : pc'.elsewhere = true := by
  cases evicts with
  | choose framed => cases framed.symm.trans unframed
  | lookup _ | found | clear _ | lock _ | replace _ | write _ => cases before
  | _ => rfl

/-- Up to the end of `page_lookup` the fault does nothing to the page. -/
theorem Faults.early (faults : Faults s pc pc' s') (early : pc.early = true) (unframed : s.framed = false) :
    Apart pc.slot s s' ∧ (pc'.early = true ∨ pc = .looking ∧ pc' = .looked s.entry) := by
  cases faults with
  | fault _ | full | get | lookup _ => exact ⟨{}, .inl rfl⟩
  | @evicted kpage =>
    cases kpage with
    | true | false => exact ⟨{}, .inl rfl⟩
  | evict evicts =>
    have after := evicts.elsewhere early unframed
    exact ⟨evicts.apart early after, .inl after⟩
  | found => exact ⟨{}, .inr ⟨rfl, rfl⟩⟩
  | _ => cases early

theorem Faults.slots (faults : Faults s pc pc' s') (early : pc.early = true) (own : slot .faulter = pc.slot)
    (slots : Slots s.swapTable slot page) : Slots s'.swapTable (Function.update slot .faulter pc'.slot) page := by
  cases faults with
  | @evict before _ _ evicts =>
    have stays : ∀ i, before ≠ .replacing i := by
      rintro i rfl
      cases early
    exact evicts.slots stays own slots
  | @evicted kpage =>
    cases kpage with
    | true | false => exact slots.keep (.inr rfl)
  | fault _ | get | full | lookup _ | found => exact slots.keep (.inr rfl)
  | _ => cases early

/-- The page and its entry after a step of the faulter. -/
def After (s s' : State) (pc : FaultPc) : Prop :=
  ∃ page, s'.heap s'.entry = some page ∧ Slots s'.swapTable (update s.slot .faulter pc.slot) page ∧
    Placed { s' with faulter := pc } page

theorem Apart.found {slot : Option Nat} (apart : Apart slot s s') (found : s.heap s.entry = some page) :
    s'.heap s'.entry = some page := by
  rw [apart.heap, apart.entry]
  exact found

/-- The evictor is not in `page_swap_out_index` while the faulter is in `page_lookup`. -/
theorem Coherent.not_clearing (coherent : Coherent s) (looking : s.faulter = .looking)
    (waits : s.faulter = .looking → ∀ i, s.evictor ≠ .cleared i) : s.evictor.clearing = false := by
  cases evictor : s.evictor with
  | cleared i => exact absurd evictor (waits looking i)
  | replacing i =>
    -- Both would hold the lock of the table.
    have first : s.holdsSupplementaryLock .faulter = true := congrArg FaultPc.holdsSupplementaryLock looking
    have second : s.holdsSupplementaryLock .evictor = true := congrArg EvictPc.holdsSupplementaryLock evictor
    cases coherent.supplementaryLock.exclusive first second
  | _ => rfl

/-- While the page is written out, the fault gets no further than its lookup. -/
theorem Coherent.faulter_evicted (coherent : Coherent s) (faults : Faults s s.faulter pc' s')
    (near : s.evictor.elsewhere = false) (waits : s.faulter = .looking → ∀ i, s.evictor ≠ .cleared i) :
    After s s' pc' := by
  obtain ⟨page, found, slots, placed⟩ := coherent.page
  have same := faults.others
  unfold Placed at placed
  unfold After Placed
  simp only [same]
  cases evictor : s.evictor with simp only [evictor] at placed ⊢
  | chosen i | looking i | looked i =>
    obtain ⟨running, inside⟩ := placed
    rw [running] at faults
    cases faults with
    | fault out => cases out.symm.trans inside.present
  | cleared i | replacing i =>
    obtain ⟨early, out, unframed, notOut, saved⟩ := placed
    obtain ⟨apart, next⟩ := faults.early early unframed
    refine ⟨page, apart.found found, faults.slots early rfl slots, ?_⟩
    cases next with
    | inl still =>
      exact ⟨still, apart.present.trans out, apart.framed.trans unframed, notOut,
        apart.saved.trans (saved.trans apart.frame.symm)⟩
    | inr looked => cases (coherent.not_clearing looked.1 waits).symm.trans (congrArg EvictPc.clearing evictor)
  | writing i count =>
    obtain ⟨later, out, unframed, swapOuted, index, saved, written⟩ := placed
    cases later with
    | inl early =>
      obtain ⟨apart, next⟩ := faults.early early unframed
      have kept : ∀ n < count, n < 8 → s'.swapDisk (i * 8 + n) = s'.saved n := by
        intro n below inside
        have other : s.slot .faulter ≠ some i := fun reserved => slots.apart reserved swapOuted index.symm
        rw [apart.swapDisk i n inside other, apart.saved]
        exact written n below inside
      refine ⟨page, apart.found found, faults.slots early rfl slots, ?_, apart.present.trans out,
        apart.framed.trans unframed, swapOuted, index, apart.saved.trans (saved.trans apart.frame.symm), kept⟩
      cases next with
      | inl still => exact .inl still
      | inr looked => exact .inr (looked.2.trans (congrArg _ apart.entry.symm))
    | inr looked =>
      rw [looked] at faults
      cases faults with
      | lock free =>
        have held : s.swapLock = some .evictor :=
          (coherent.swapLock .evictor).mp (congrArg EvictPc.holdsSwapLock evictor)
        cases free.symm.trans held
  | _ => rw [evictor] at near; cases near

theorem Slots.vacant (inside : page.swapOuted = false)
    (vacant : ∀ party, slot party = none) : Slots swapTable slot page where
  entry out := Bool.noConfusion (inside.symm.trans out)
  reserved {party _} reserved := by cases (vacant party).symm.trans reserved
  apart {party _} reserved := by cases (vacant party).symm.trans reserved

/-- The entry of a page in memory has no slot. -/
theorem Slots.inside {new : Page} (slots : Slots swapTable slot page)
    (inside : new.swapOuted = false) : Slots swapTable slot new where
  entry out := Bool.noConfusion (inside.symm.trans out)
  reserved := slots.reserved
  apart _ out := Bool.noConfusion (inside.symm.trans out)

theorem Calm.early (calm : Calm s page) (faults : Faults s s.faulter pc' s') (early : s.faulter.early = true) :
    Out s page := by
  unfold Calm at calm
  cases faulter : s.faulter with simp only [faulter] at calm early faults
  | running =>
    cases faults with
    | fault out => exact calm.resolve_left fun inside => Bool.noConfusion (out.symm.trans inside.present)
  | faulted | gotFrame | looking => exact calm
  | evicting pc => exact calm.2
  | _ => cases early

theorem Faults.settled (faults : Faults s pc pc' s') (far : s.evictor.elsewhere = true)
    (calm : Calm { s' with faulter := pc' } page) : Placed { s' with faulter := pc' } page := by
  refine (placed_elsewhere ?_).mpr calm
  exact (congrArg EvictPc.elsewhere faults.others).trans far

theorem Coherent.faulter_early (coherent : Coherent s) (faults : Faults s s.faulter pc' s')
    (far : s.evictor.elsewhere = true) (early : s.faulter.early = true) : After s s' pc' := by
  obtain ⟨page, found, slots, placed⟩ := coherent.page
  have out := ((placed_elsewhere far).mp placed).early faults early
  obtain ⟨apart, next⟩ := faults.early early out.framed
  have moved : Apart s.faulter.slot s { s' with faulter := pc' } := { apart with }
  have outAfter := out.apart moved fun swapOuted (reserved : s.slot .faulter = _) => slots.apart reserved swapOuted rfl
  refine ⟨page, apart.found found, faults.slots early rfl slots, faults.settled far ?_⟩
  cases next with
  | inl still => exact outAfter.calm still
  | inr looked => exact outAfter.calm_looked (looked.2.trans (congrArg _ apart.entry.symm))

/-- From the entry on, with no eviction at the page. -/
theorem Coherent.faulter_late (coherent : Coherent s) (faults : Faults s s.faulter pc' s')
    (far : s.evictor.elsewhere = true) (late : s.faulter.early = false) : After s s' pc' := by
  obtain ⟨page, found, slots, placed⟩ := coherent.page
  have calm := (placed_elsewhere far).mp placed
  have settled {page : Page} := @Faults.settled _ _ page _ _ faults far
  unfold Calm at calm
  generalize faulter : s.faulter = pc at faults calm late
  cases faults with
  | lock _ => exact ⟨page, found, slots.keep (.inr rfl), settled ⟨calm.1, { calm.2 with }⟩⟩
  | read entry =>
    obtain ⟨rfl, out⟩ := calm
    cases found.symm.trans entry
    refine ⟨page, found, slots.keep (.inr rfl), settled ⟨rfl, { out with }, fun n below => ?_⟩⟩
    exact absurd below (Nat.not_lt_zero n)
  | @load read count kpage more =>
    obtain ⟨rfl, out, loaded⟩ := calm
    refine ⟨read, found, slots.keep (.inr rfl), settled ⟨rfl, { out with }, fun n below inside => ?_⟩⟩
    by_cases last : n = count
    · subst last
      rw [update_self]
      cases swapOuted : read.swapOuted with
      | true => exact out.swapped swapOuted n inside
      | false => exact out.file swapOuted n inside
    · rw [update_of_ne last]
      exact loaded n (by omega) inside
  | discard present => cases present.symm.trans calm.2.1.present
  | @install read count kpage =>
    obtain ⟨rfl, out, _⟩ := calm
    refine ⟨read, found, ?_, settled ?_⟩
    · cases read.swapOuted <;> exact slots.keep (.inr rfl)
    · cases swapOuted : read.swapOuted with
      | true => exact ⟨rfl, rfl, out.framed, swapOuted⟩
      | false => exact ⟨rfl, out.framed, swapOuted⟩
  | enter _ => exact ⟨page, found, slots.keep (.inr rfl), settled calm⟩
  | @update read pointer _ replaced =>
    obtain ⟨old, entry, ⟨heap, entry', rfl⟩, new⟩ := pageSwapOutIndex_eq_some replaced
    obtain ⟨rfl, present, unframed, _⟩ := calm
    refine ⟨_, new, (slots.inside rfl).keep (.inr rfl), settled ⟨present, unframed, rfl⟩⟩
  | lockSlot _ => exact ⟨page, found, slots.keep (.inr rfl), settled { calm with }⟩
  | @flip read =>
    refine ⟨page, found, .vacant calm.swapped fun party => ?_, settled { calm with }⟩
    -- The faulter holds the swap lock, so the evictor has no slot.
    cases reserved : update s.slot .faulter none party with
    | none => exact reserved
    | some i =>
      cases update_slot_eq_some reserved with
      | inl here => cases here
      | inr there =>
        have held : s.holdsSwapLock .faulter = true := congrArg FaultPc.holdsSwapLock faulter
        cases coherent.swapLock.exclusive (State.holdsSwapLock_of_slot there) held
        cases (update_self Party.faulter none s.slot).symm.trans reserved
  | push => exact ⟨page, found, slots.keep (.inr rfl), settled (.inl { calm with framed := rfl })⟩
  | evict _ => cases (calm.1 : FaultPc.early (.evicting _) = true).symm.trans late
  | _ => cases late

theorem Coherent.faulter (coherent : Coherent s) (stepped : s.faulterStep choice = some s')
    (waits : s.faulter = .looking → ∀ i, s.evictor ≠ .cleared i) : Coherent s' := by
  obtain ⟨pc, between, faults, rfl⟩ := faulterStep_faults rfl stepped
  have same := faults.others
  refine ⟨?_, ?_, ?_⟩
  · rw [State.holdsSwapLock, State.each_faulter same]
    exact coherent.swapLock.turn faults.swapLock
  · rw [State.holdsSupplementaryLock, State.each_faulter same]
    exact coherent.supplementaryLock.turn faults.supplementaryLock
  · have after : After s between pc := by
      cases far : s.evictor.elsewhere with
      | false => exact coherent.faulter_evicted faults far waits
      | true =>
        cases early : s.faulter.early with
        | false => exact coherent.faulter_late faults far early
        | true => exact coherent.faulter_early faults far early
    obtain ⟨page, found, slots, placed⟩ := after
    refine ⟨page, found, ?_, placed⟩
    rw [State.slot, State.each_faulter same]
    exact slots

end Faulter

/-! ## Steps of others -/

theorem Placed.apart (placed : Placed s page) (apart : Apart none s s') (evictor : s'.evictor = s.evictor)
    (faulter : s'.faulter = s.faulter) : Placed s' page := by
  unfold Placed at placed ⊢
  rw [evictor, faulter]
  cases located : s.evictor with simp only [located] at placed ⊢
  | chosen i | looking i | looked i => exact ⟨placed.1, placed.2.apart apart⟩
  | cleared i | replacing i =>
    rw [apart.present, apart.framed, apart.saved, apart.frame]
    exact placed
  | writing i count =>
    rw [apart.present, apart.framed, apart.saved, apart.frame, apart.entry]
    obtain ⟨later, out, unframed, swapOuted, index, saved, written⟩ := placed
    refine ⟨later, out, unframed, swapOuted, index, saved, fun n below inside => ?_⟩
    rw [apart.swapDisk i n inside nofun]
    exact written n below inside
  | _ => exact placed.apart apart faulter fun _ => nofun

section

variable (coherent : Coherent s)

include coherent

theorem Coherent.frames (freeFrames : Nat) : Coherent { s with freeFrames } := by
  obtain ⟨page, found, slots, placed⟩ := coherent.page
  exact ⟨coherent.swapLock, coherent.supplementaryLock, page, found, slots, placed.apart {} rfl rfl⟩

theorem Coherent.slot (free : s.swapLock = none) (other : s.ownsSlot i = false) :
    Coherent { s with swapTable := s.swapTable.set i false } := by
  obtain ⟨page, found, slots, placed⟩ := coherent.page
  have vacant : ∀ {party j}, s.slot party ≠ some j := by
    intro party j reserved
    have held := (coherent.swapLock party).mp (State.holdsSwapLock_of_slot reserved)
    cases free.symm.trans held
  have kept : Slots (s.swapTable.set i false) s.slot page := by
    refine ⟨fun swapOuted => ?_, fun reserved => absurd reserved vacant, fun reserved => absurd reserved vacant⟩
    have different : i ≠ page.slotNo := by
      rintro rfl
      simp [State.ownsSlot, found, swapOuted] at other
    rw [getElem?_set_ne different]
    exact slots.entry swapOuted
  exact ⟨coherent.swapLock, coherent.supplementaryLock, page, found, kept, placed.apart {} rfl rfl⟩

theorem Coherent.store (present : s.present = true) (running : s.faulter = .running)
    (frame : Sectors) : Coherent { s with frame } := by
  obtain ⟨page, found, slots, placed⟩ := coherent.page
  refine ⟨coherent.swapLock, coherent.supplementaryLock, page, found, slots, ?_⟩
  unfold Placed Calm at placed ⊢
  simp only [running] at placed ⊢
  cases evictor : s.evictor with simp only [evictor] at placed ⊢
  | chosen i | looking i | looked i => exact ⟨trivial, { placed.2 with }⟩
  | cleared i | replacing i | writing i count => cases present.symm.trans placed.2.1
  | _ => exact placed.imp ({ · with }) ({ · with })

theorem Coherent.step {label : Label} (waits : lookupWaits label s)
    (stepped : step label s = some s') : Coherent s' := by
  cases label with
  | evictor choice => exact coherent.evictor stepped
  | faulter choice =>
    refine coherent.faulter stepped fun looking i cleared => ?_
    simp only [lookupWaits, looking, cleared] at waits
  | store count bytes =>
    simp only [Race.step] at stepped
    split at stepped
    next running =>
      split at stepped
      next present => cases stepped; exact coherent.store present running _
      next => cases stepped
    next => cases stepped
  | frames freeFrames => cases stepped; exact coherent.frames freeFrames
  | slot slot =>
    simp only [Race.step] at stepped
    split_ifs at stepped with unused
    cases stepped
    exact coherent.slot unused.1 (by simpa using unused.2)

end

theorem coherent_start (resident : Bool) (freeFrames : Nat) (swapTable : Bitmap) (swapDisk : Nat → Bytes) (page : Page)
    (file : Sectors) : Coherent (start resident freeFrames swapTable swapDisk page file) where
  swapLock party := by
    cases party <;> simp [start, State.holdsSwapLock, State.each, EvictPc.holdsSwapLock, FaultPc.holdsSwapLock]
  supplementaryLock party := by
    cases party <;>
      simp [start, State.holdsSupplementaryLock, State.each, EvictPc.holdsSupplementaryLock,
        FaultPc.holdsSupplementaryLock]
  page := by
    refine ⟨_, rfl, .vacant rfl fun party => by cases party <;> rfl, ?_⟩
    cases resident with
    | true => exact .inl ⟨rfl, rfl, rfl⟩
    | false => exact .inr ⟨rfl, rfl, nofun, fun _ _ _ => rfl⟩

/-! ## The race -/

/-- The entry that the fault handler is about to read, with the swap lock. -/
def State.reads (s : State) : Option Pointer :=
  match s.faulter with
  | .reading faultedPage => some faultedPage
  | _ => none

theorem State.reads_eq_some {faultedPage : Pointer} (reads : s.reads = some faultedPage) :
    s.faulter = .reading faultedPage := by
  unfold State.reads at reads
  split at reads
  next faulter => exact (some.inj reads) ▸ faulter
  next => cases reads

theorem Coherent.calm (coherent : Coherent s) (late : s.faulter.early = false)
    (notLooked : s.faulter ≠ .looked s.entry) : ∃ page, s.heap s.entry = some page ∧ Calm s page := by
  obtain ⟨page, found, _, placed⟩ := coherent.page
  refine ⟨page, found, ?_⟩
  unfold Placed at placed
  cases evictor : s.evictor with simp only [evictor] at placed
  | chosen i | looking i | looked i => rw [placed.1] at late; cases late
  | cleared i | replacing i => cases placed.1.symm.trans late
  | writing i count =>
    cases placed.1 with
    | inl early => cases early.symm.trans late
    | inr looked => exact absurd looked notLooked
  | _ => exact placed

/-- The fault handler reads the entry that is in the table, and loads the bytes that the page last had. -/
theorem fault_reads_current_entry {resident : Bool} {freeFrames : Nat} {swapTable : Bitmap} {swapDisk : Nat → Bytes}
    {initial : Page} {file : Sectors} {s : State}
    (reached : Reaches step lookupWaits (start resident freeFrames swapTable swapDisk initial file) s) :
    (∀ faultedPage, s.reads = some faultedPage → faultedPage = s.entry ∧ (s.heap faultedPage).isSome) ∧
      ∀ page count kpage, s.faulter = .loading page count kpage →
        s.heap s.entry = some page ∧ ∀ n < 8, n < count → kpage n = s.saved n := by
  have coherent : Coherent s :=
    reached.invariant Coherent (coherent_start ..) fun coherent waits stepped => coherent.step waits stepped
  refine ⟨fun faultedPage reads => ?_, fun read count kpage faulter => ?_⟩
  · have faulter := State.reads_eq_some reads
    obtain ⟨page, found, calm⟩ := coherent.calm (by rw [faulter]; rfl) (by rw [faulter]; exact nofun)
    rw [Calm, faulter] at calm
    obtain ⟨rfl, _⟩ := calm
    exact ⟨rfl, by rw [found]; rfl⟩
  · obtain ⟨page, found, calm⟩ := coherent.calm (by rw [faulter]; rfl) (by rw [faulter]; exact nofun)
    rw [Calm, faulter] at calm
    obtain ⟨rfl, _, loaded⟩ := calm
    exact ⟨found, fun n inside below => loaded n below inside⟩

/-- A choice of the page as the victim, and of an address for its next entry. -/
def evictPage (pointer : Pointer) : Choice :=
  ⟨.page, pointer, fun _ => 0⟩

/-- A run in which the page is loaded and evicted again: up to `pagedir_clear_page`, and the rest of the eviction. -/
def loadThenClear : List Label :=
  replicate 16 (.faulter (evictPage 1)) ++ replicate 6 (.evictor (evictPage 1))

def finishEviction : List Label :=
  replicate 13 (.evictor (evictPage 1))

/-- A fault on a page that is being evicted, with the lookup after the eviction. -/
theorem fault_reads_current_entry_example :
    ∃ s, Reaches step lookupWaits (start false 1 [false] (fun _ _ => 0) zeroPage fun _ _ => 0) s ∧
      s.reads = some 1 ∧ s.entry = 1 ∧ (s.heap 1).isSome := by
  obtain ⟨s, reached, reads⟩ := exists_reached step lookupWaits
    (start false 1 [false] (fun _ _ => 0) zeroPage fun _ _ => 0) (fun s => s.reads = some 1)
    (loadThenClear ++ [.faulter (evictPage 1), .frames 1, .faulter (evictPage 1)] ++ finishEviction ++
      replicate 3 (.faulter (evictPage 1))) (by decide +kernel)
  obtain ⟨current, live⟩ := (fault_reads_current_entry reached).1 1 reads
  exact ⟨s, reached, reads, current.symm, live⟩

/-- The faulter looks its page up after `pagedir_clear_page` and before `page_swap_out_index`; when it gets the swap
lock, the entry that it has found is free. -/
theorem fault_reads_freed_entry :
    ∃ s, Reaches step (fun _ _ => True) (start false 1 [false] (fun _ _ => 0) zeroPage fun _ _ => 0) s ∧
      s.reads = some 0 ∧ s.entry = 1 ∧ s.heap 0 = none :=
  exists_reached step (fun _ _ => True) _ (fun s => s.reads = some 0 ∧ s.entry = 1 ∧ s.heap 0 = none)
    (loadThenClear ++ [.faulter (evictPage 1), .frames 1] ++ replicate 3 (.faulter (evictPage 1)) ++
      finishEviction ++ [.faulter (evictPage 1)]) (by decide +kernel)

end Pintos.Vm.Race
