import Pintos.Filesys.CacheTransparency
import Pintos.Filesys.InodeDisk
import Pintos.Kernel.Bitmap
import Pintos.Library.Program

/-! # Inodes and the free map (`filesys/inode.c`, `filesys/free-map.c`)

The `PRJ4` build with linked inode blocks.  A program of type `FsM` stops (`none`) where the kernel panics:
an `ASSERT` fails, a sector past the end of the disk is accessed, `inode_sys_lock` is taken twice, a null
pointer is used; and where C leaves the behaviour undefined, as when an `off_t` overflows (`DIV_ROUND_UP` adds
512 before it subtracts 1).

Functions named `…In` take the outcomes of the calls of `calloc` to come; the calls after those succeed.  Without
that argument, memory allocation always succeeds.  Nothing reads `origin_sectors`, which is left out.

A pointer to a `struct inode` is the sector of the inode: `inode_open` never makes two of one sector.
Buffers, sizes and offsets are those of callers that pass no negative ones.
-/

namespace Pintos.Filesys

open Kernel

/-- `struct inode` -/
structure Inode where
  sector : Word
  openCnt : Nat
  removed : Bool
  denyWriteCnt : Nat
  data : InodeDisk

/-- The static variables of `inode.c` and `free-map.c`, and the size of the disk.  `freeMapFile` is the inode
    of `free_map_file`. -/
structure Tables where
  capacity : Nat
  freeMap : Bitmap
  freeMapFile : Option Word
  openInodes : List Inode
  inodeSysLock : Bool

/-- The file system: its tables, and the buffer cache in front of its disk. -/
structure FileSys where
  tables : Tables
  cache : CacheState
  coherent : Coherent cache

abbrev FsM := StateT FileSys Option

def getTables : FsM Tables := fun fs => some (fs.tables, fs)

def modifyTables (change : Tables → Tables) : FsM Unit := fun fs =>
  some ((), { fs with tables := change fs.tables })

/-- `buffer_cache_read`.  `select_sector` asserts that the sector is on the disk; a sector in the cache has
    been read from there. -/
def cacheRead (secNo : Word) (size offset : Nat) : FsM (List UInt8) := fun fs =>
  if secNo.toNat < fs.tables.capacity then
    some ((bufferCacheRead secNo size offset fs.cache).1,
      { fs with cache := (bufferCacheRead secNo size offset fs.cache).2
                coherent := (fs.coherent.read secNo size offset).1 })
  else none

/-- `buffer_cache_write` -/
def cacheWrite (secNo : Word) (buffer : List UInt8) (offset : Nat) : FsM Unit := fun fs =>
  if secNo.toNat < fs.tables.capacity then
    some ((), { fs with cache := bufferCacheWrite secNo buffer offset fs.cache
                        coherent := (fs.coherent.write secNo buffer offset).1 })
  else none

/-- `buffer_cache_release`, whose result no caller uses. -/
def cacheRelease (secNo : Word) : FsM Unit := fun fs =>
  some ((), { fs with cache := (bufferCacheRelease secNo fs.cache).2
                      coherent := (fs.coherent.release secNo).1 })

/-- `buffer_cache_read (secNo, &disk, DISK_SECTOR_SIZE, 0)` -/
def readInodeDisk (secNo : Word) : FsM InodeDisk := do
  return InodeDisk.decode (← cacheRead secNo 512 0)

/-- `buffer_cache_write (secNo, &disk, DISK_SECTOR_SIZE, 0)` -/
def writeInodeDisk (secNo : Word) (disk : InodeDisk) : FsM Unit :=
  cacheWrite secNo disk.encode 0

/-- `lock_acquire (&inode_sys_lock)`, which asserts that the thread does not hold it already. -/
def lockAcquire : FsM Unit := do
  if (← getTables).inodeSysLock then failure
  else modifyTables fun t => { t with inodeSysLock := true }

def lockRelease : FsM Unit :=
  modifyTables fun t => { t with inodeSysLock := false }

/-- The open inode a pointer stands for. -/
def findInode (sector : Word) : FsM Inode := do
  match (← getTables).openInodes.find? fun inode => inode.sector == sector with
  | some inode => return inode
  | none => failure

def modifyInode (sector : Word) (change : Inode → Inode) : FsM Unit :=
  modifyTables fun t => { t with openInodes := t.openInodes.map fun inode =>
    if inode.sector == sector then change inode else inode }

/-- `DIV_ROUND_UP (size, DISK_SECTOR_SIZE)` -/
def bytesToSectors (size : Nat) : Nat :=
  (size + 511) / 512

/-! ## Reading and writing inside a file -/

/-- The `mok` loop: follow `indirect` so many times from the block held in memory. -/
def referDisk (disk : InodeDisk) : Nat → FsM InodeDisk
  | 0 => pure disk
  | mok + 1 => do referDisk (← readInodeDisk disk.indirect) mok

/-- `refer_inode_disk.direct[direct_idx]` -/
def InodeDisk.slot (disk : InodeDisk) (directIdx : Nat) : Word :=
  disk.direct.toList.getD directIdx 0

/-- The end of a round of both loops: the next slot, in the next block when this one has no more. -/
def nextSlot (refer : InodeDisk) (directIdx : Nat) : FsM (InodeDisk × Nat) := do
  if directIdx + 1 ≥ 123 then
    return (← readInodeDisk refer.indirect, 0)
  else
    return (refer, directIdx + 1)

/-- `read_bytes`: what is left of the sector, or of the request if that is less. -/
def readBytes (size sectorOfs : Nat) : Nat :=
  if sectorOfs > 0 then
    if 512 - sectorOfs > size then size else 512 - sectorOfs
  else
    if size > 512 then 512 else size

/-- The loop of `inode_read_at`. -/
def readLoop (refer : InodeDisk) (directIdx sectorOfs size : Nat) (buffer : List UInt8) : FsM (List UInt8) :=
  if size = 0 then pure buffer
  else if (refer.slot directIdx).msb then pure buffer
  else if readBytes size sectorOfs = 0 then pure buffer
  else do
    let bytes ← cacheRead (refer.slot directIdx) (readBytes size sectorOfs) sectorOfs
    let next ← nextSlot refer directIdx
    readLoop next.1 next.2 0 (size - readBytes size sectorOfs) (buffer ++ bytes)
termination_by size
decreasing_by omega

/-- `inode_read_at`: the bytes read; their number is what the function returns. -/
def inodeReadAt (sector : Word) (size offset : Nat) : FsM (List UInt8) := do
  lockAcquire
  let inode ← findInode sector
  let length := inode.data.length.toNat
  lockRelease
  if offset ≥ length then
    return []
  else
    let size := if length - offset > size then size else length - offset
    let refer ← referDisk inode.data (offset / (512 * 123))
    readLoop refer (offset / 512 % 123) (offset % 512) size []

/-- The loop of `inode_write_at`; it ends with `bytes_written`. -/
def writeLoop (refer : InodeDisk) (directIdx sectorOfs : Nat) (buffer : List UInt8) (bytesWritten : Nat) : FsM Nat :=
  if buffer.length = 0 then pure bytesWritten
  else if (refer.slot directIdx).msb then pure bytesWritten
  else if readBytes buffer.length sectorOfs = 0 then pure bytesWritten
  else do
    cacheWrite (refer.slot directIdx) (buffer.take (readBytes buffer.length sectorOfs)) sectorOfs
    let next ← nextSlot refer directIdx
    writeLoop next.1 next.2 0 (buffer.drop (readBytes buffer.length sectorOfs))
      (bytesWritten + readBytes buffer.length sectorOfs)
termination_by buffer.length
decreasing_by
  simp only [List.length_drop]
  omega

/-- `inode_write_at` after the file has been extended: the part every write goes through. -/
def inodeWriteData (inode : Inode) (buffer : List UInt8) (offset : Nat) : FsM Nat := do
  let refer ← referDisk inode.data (offset / (512 * 123))
  if inode.denyWriteCnt > 0 then
    return 0
  else
    writeLoop refer (offset / 512 % 123) (offset % 512) buffer 0

/-! ## The free map -/

/-- `bitmap_write (free_map, free_map_file)`.  `inode_write_at` would extend an empty free map file, take
    `inode_sys_lock` for it and come back here to take it again. -/
def bitmapWrite : FsM Bool := do
  let tables ← getTables
  match tables.freeMapFile with
  | none => failure
  | some sector =>
    let inode ← findInode sector
    let bytes := bitmapBytes tables.freeMap
    if inode.data.length.toNat ≤ 0 ∧ 0 < bytes.length then
      failure
    else
      return (← inodeWriteData inode bytes 0) == bytes.length

/-- `free_map_allocate`: `*sectorp`, if it is set. -/
def freeMapAllocate (cnt : Nat) : FsM (Option Word) := do
  let tables ← getTables
  match bitmapScanAndFlip tables.freeMap 0 cnt false with
  | none => return none
  | some (sector, freeMap) =>
    modifyTables fun t => { t with freeMap := freeMap }
    if tables.freeMapFile.isNone then
      return some (BitVec.ofNat 32 sector)
    else if ← bitmapWrite then
      return some (BitVec.ofNat 32 sector)
    else
      modifyTables fun t => { t with freeMap := bitmapSetMultiple t.freeMap sector cnt false }
      return none

def freeMapRelease (sector : Word) (cnt : Nat) : FsM Unit := do
  let tables ← getTables
  if sector.toNat + cnt ≤ tables.freeMap.length ∧ bitmapAll tables.freeMap sector.toNat cnt then
    modifyTables fun t => { t with freeMap := bitmapSetMultiple t.freeMap sector.toNat cnt false }
    let _ ← bitmapWrite
  else
    failure

/-! ## Making, extending and releasing files -/

/-- The loop of `allocate_inode_disk`: `count` slots from slot `i` on.  Where no sector is free, the slot keeps
    what it held. -/
def allocateDirect (i : Nat) (disk : InodeDisk) : Nat → FsM InodeDisk
  | 0 => pure disk
  | count + 1 => do
    let disk := match ← freeMapAllocate 1 with
      | some sector => { disk with direct := disk.direct.setIfInBounds i sector }
      | none => disk
    cacheWrite (disk.slot i) Sector.zeros.bytes 0
    allocateDirect (i + 1) disk count

/-- The loop of `release_inode_disk` over the slots of one block. -/
def releaseDirect : List Word → FsM Unit
  | [] => pure ()
  | sector :: sectors => do
    freeMapRelease sector 1
    cacheRelease sector
    releaseDirect sectors

def releaseInodeDisk (sectors : Nat) (inodeSector : Word) : FsM Unit := do
  lockAcquire
  let disk ← readInodeDisk inodeSector
  if more : sectors > 123 then
    lockRelease
    releaseInodeDisk (sectors - 123) disk.indirect
    lockAcquire
    freeMapRelease disk.indirect 1
    cacheRelease disk.indirect
    releaseDirect (disk.direct.toList.take 123)
    lockRelease
  else
    releaseDirect (disk.direct.toList.take sectors)
    lockRelease
termination_by sectors
decreasing_by omega

/-- What an activation of `allocate_inode_disk` or of `release_inode_disk` gets: a block from `calloc`, none, or not
    even room on the kernel stack, where the activations lie one below the other.  The stack is one page with the
    `struct thread`, and the kernel stops when it has grown into that. -/
inductive Activation
  | runs
  | noBlock
  | noStack
deriving DecidableEq

/-- The activations for `sectors` slots, of which the first is slot `startDirectIdx` of its block. -/
def activations (sectors startDirectIdx : Nat) : Nat :=
  (sectors + startDirectIdx - 1) / 123 + 1

/-- The first `count` activations get what they need. -/
abbrev AllRun (memory : List Activation) (count : Nat) : Prop :=
  ∀ activation ∈ memory.take count, activation = .runs

/-- `release_inode_disk` uses what `calloc` returns at every block without a look at it. -/
def releaseInodeDiskIn (memory : List Activation) (sectors : Nat) (inodeSector : Word) : FsM Unit :=
  if AllRun memory (activations sectors 0) then releaseInodeDisk sectors inodeSector
  else failure

/-- `allocate_inode_disk`.  It reads the block it is about to fill and sets only some of its fields.  Where no
    sector is free for the next block, `new_indirect_sector` is used uninitialised. -/
def allocateInodeDiskIn (memory : List Activation) (sectors : Nat) (inodeSector : Word) (length : Nat)
    (startDirectIdx : Fin 123) (info originSector : Word) : FsM Bool := do
  if memory.head? = some .noStack then
    failure
  else if memory.head? = some .noBlock then
    releaseInodeDiskIn memory.tail (originSector - BitVec.ofNat 32 sectors).toNat originSector
    return false
  else
    lockAcquire
    let old ← readInodeDisk inodeSector
    let disk := { old with
      length := BitVec.ofNat 32 length, sector := inodeSector, info := info, magic := inodeMagic }
    let directAllocNum := if sectors + startDirectIdx > 123 then 123 else startDirectIdx + sectors
    let disk ← allocateDirect startDirectIdx disk (directAllocNum - startDirectIdx)
    if sectors + startDirectIdx > 123 then
      match ← freeMapAllocate 1 with
      | none => failure
      | some newIndirectSector =>
        writeInodeDisk inodeSector { disk with indirect := newIndirectSector }
        lockRelease
        allocateInodeDiskIn memory.tail (sectors - (123 - startDirectIdx)) newIndirectSector length 0 info originSector
    else
      writeInodeDisk inodeSector disk
      lockRelease
      return true
termination_by sectors
decreasing_by omega

/-- `allocate_inode_disk` as it is first called, with the block it starts from as `origin_sector`. -/
abbrev allocateInodeDisk (sectors : Nat) (inodeSector : Word) (length : Nat) (startDirectIdx : Fin 123) (info : Word) :
    FsM Bool :=
  allocateInodeDiskIn [] sectors inodeSector length startDirectIdx info inodeSector

/-- `inode_create` -/
def inodeCreateIn (memory : List Activation) (sector : Word) (length : Nat) (info : Word) : FsM Bool :=
  if length + 512 ≥ 2 ^ 31 then failure
  else allocateInodeDiskIn memory (bytesToSectors length) sector length 0 info sector

abbrev inodeCreate (sector : Word) (length : Nat) (info : Word) : FsM Bool :=
  inodeCreateIn [] sector length info

/-- The loop of `inode_write_at` that looks for the block to extend: `start_direct_idx`, `refer_inode_disk` and
    `refer_previous_sec_no` as it leaves them.  A block whose `indirect` is zero is not left. -/
def findPrevious (startDirectIdx : Nat) (refer : InodeDisk) (previous : Word) : FsM (Fin 123 × InodeDisk × Word) :=
  if enough : startDirectIdx ≥ 123 then
    if refer.indirect ≠ 0 then do
      let next ← readInodeDisk refer.indirect
      findPrevious (startDirectIdx - 123) next refer.indirect
    else
      findPrevious (startDirectIdx - 123) refer previous
  else
    pure (⟨startDirectIdx, Nat.not_le.mp enough⟩, refer, previous)
termination_by startDirectIdx
decreasing_by all_goals omega

/-- `inode_write_at` from the computation of `add_sector` to the end of the extension; false where it
    returns -1. -/
def extendFromIn (memory : List Activation) (inode : Inode) (newLength : Nat) (startDirectIdx : Fin 123)
    (previous : Word) :
    FsM Bool := do
  let addSector := bytesToSectors newLength - bytesToSectors inode.data.length.toNat
  if addSector > 0 then
    lockRelease
    if ← allocateInodeDiskIn memory addSector previous newLength startDirectIdx inode.data.info previous then
      lockAcquire
      finish
    else
      freeMapRelease previous 1
      return false
  else
    finish
where
  finish : FsM Bool := do
    let old ← readInodeDisk inode.data.sector
    let data := { old with length := BitVec.ofNat 32 newLength }
    modifyInode inode.sector fun i => { i with data := data }
    writeInodeDisk data.sector data
    lockRelease
    return true

/-- The branch of `inode_write_at` for a write at or past the end of the file; false where it returns -1.
    Where no sector is free for a new block, it returns with `inode_sys_lock` held. -/
def extendInodeIn (memory : List Activation) (inode : Inode) (newLength : Nat) : FsM Bool :=
  if newLength + 512 ≥ 2 ^ 31 then failure
  else do
    lockAcquire
    let length := inode.data.length.toNat
    let found ← findPrevious (bytesToSectors length) inode.data inode.data.sector
    if found.1 = 0 ∧ 0 < length then
      match ← freeMapAllocate 1 with
      | none => return false
      | some next =>
        writeInodeDisk found.2.1.sector { found.2.1 with indirect := next }
        extendFromIn memory inode newLength found.1 next
    else
      extendFromIn memory inode newLength found.1 found.2.2

/-- `inode_write_at` -/
def inodeWriteAtIn (memory : List Activation) (sector : Word) (buffer : List UInt8) (offset : Nat) : FsM Int := do
  let inode ← findInode sector
  if offset ≥ inode.data.length.toNat ∧ buffer.length > 0 then
    if ← extendInodeIn memory inode (offset + buffer.length) then
      let extended ← findInode sector
      return (← inodeWriteData extended buffer offset)
    else
      return -1
  else
    return (← inodeWriteData inode buffer offset)

abbrev extendFrom (inode : Inode) (newLength : Nat) (startDirectIdx : Fin 123) (previous : Word) : FsM Bool :=
  extendFromIn [] inode newLength startDirectIdx previous

abbrev extendInode (inode : Inode) (newLength : Nat) : FsM Bool :=
  extendInodeIn [] inode newLength

abbrev inodeWriteAt (sector : Word) (buffer : List UInt8) (offset : Nat) : FsM Int :=
  inodeWriteAtIn [] sector buffer offset

/-! ## Open inodes -/

def inodeOpen (sector : Word) : FsM Unit := do
  match (← getTables).openInodes.find? fun inode => inode.sector == sector with
  | some _ => modifyInode sector fun inode => { inode with openCnt := inode.openCnt + 1 }
  | none =>
    let data ← readInodeDisk sector
    modifyTables fun t => { t with openInodes :=
      { sector := sector, openCnt := 1, removed := false, denyWriteCnt := 0, data := data } :: t.openInodes }

def inodeRemove (sector : Word) : FsM Unit := do
  let _ ← findInode sector
  modifyInode sector fun inode => { inode with removed := true }

/-- `inode_close` -/
def inodeCloseIn (memory : List Activation) (sector : Word) : FsM Unit := do
  let inode ← findInode sector
  if inode.openCnt = 1 then
    modifyTables fun t => { t with openInodes := t.openInodes.filter fun inode => inode.sector != sector }
    if inode.removed then
      releaseInodeDiskIn memory (bytesToSectors inode.data.length.toNat) inode.sector
      freeMapRelease inode.sector 1
  else
    modifyInode sector fun inode => { inode with openCnt := inode.openCnt - 1 }

abbrev inodeClose (sector : Word) : FsM Unit :=
  inodeCloseIn [] sector

def inodeLength (sector : Word) : FsM Nat := do
  return (← findInode sector).data.length.toNat

end Pintos.Filesys
