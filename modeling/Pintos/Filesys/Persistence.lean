import Pintos.Filesys.Allocation

/-! # The free map across a restart

`filesys_init`, `filesys_done` and the functions of `free-map.c` between them.  Every change of the free map goes to
`free_map_file` through the cache, `filesys_done` writes the cache back, and the next `free_map_open` reads the file:
the bits that come back are those that the kernel held when it stopped.
-/

namespace Pintos.Filesys

open Library Kernel Function List

def freeMapSector : Word := 0

def rootDirSector : Word := 1

/-- What `inode_init` and `free_map_init` leave on a disk of so many sectors. -/
def bootTables (capacity : Nat) : Tables where
  capacity := capacity
  freeMap := bitmapMark (bitmapMark (bitmapCreate capacity) freeMapSector.toNat) rootDirSector.toNat
  freeMapFile := none
  openInodes := []
  inodeSysLock := false

/-- `buffer_cache_write_back` -/
def cacheWriteBack : FsM Unit := fun fs =>
  some ((), { fs with cache := bufferCacheWriteBack fs.cache, coherent := fs.coherent.writeBack.1 })

/-- `free_map_file = file_open (inode_open (FREE_MAP_SECTOR))` -/
def openFreeMapFile : FsM Unit := do
  inodeOpen freeMapSector
  modifyTables fun t => { t with freeMapFile := some freeMapSector }

/-- `bitmap_read (free_map, free_map_file)` -/
def bitmapRead : FsM Bool := do
  let tables ← getTables
  if tables.freeMap.length > 0 then
    match tables.freeMapFile with
    | none => failure
    | some sector =>
      let size := byteCnt tables.freeMap.length
      let bytes ← inodeReadAt sector size 0
      modifyTables fun t =>
        { t with freeMap := bitmapOfBytes t.freeMap.length (splice (bitmapBytes t.freeMap) 0 bytes) }
      return bytes.length == size
  else
    return true

def freeMapCreate : FsM Unit := do
  let tables ← getTables
  if ← inodeCreate freeMapSector (byteCnt tables.freeMap.length) 0 then
    openFreeMapFile
    if ← bitmapWrite then pure () else failure
  else
    failure

def freeMapOpen : FsM Unit := do
  openFreeMapFile
  if ← bitmapRead then pure () else failure

/-- `free_map_close`; `free_map_file` is left as it is. -/
def freeMapClose : FsM Unit := do
  match (← getTables).freeMapFile with
  | none => pure ()
  | some sector => inodeClose sector

def filesysDone : FsM Unit := do
  cacheWriteBack
  freeMapClose

/-- The calls between the start and the end. -/
inductive MapCall
  | allocate (cnt : Nat)
  | release (sector : Word) (cnt : Nat)
  | read (secNo : Word) (size offset : Nat)
  | write (secNo : Word) (buffer : List UInt8) (offset : Nat)
  | releaseSlot (secNo : Word)
  deriving DecidableEq, Repr

def MapCall.perform : MapCall → FsM Unit
  | allocate cnt => do let _ ← freeMapAllocate cnt
  | release sector cnt => freeMapRelease sector cnt
  | read secNo size offset => do let _ ← cacheRead secNo size offset
  | write secNo buffer offset => cacheWrite secNo buffer offset
  | releaseSlot secNo => cacheRelease secNo

/-- Transfers stay inside a sector, and nothing is written to the sectors of the free map file. -/
def MapCall.Outside (mapSectors : List Word) : MapCall → Prop
  | read _ size offset => offset + size ≤ 512
  | write secNo buffer offset => secNo ∉ mapSectors ∧ offset + buffer.length ≤ 512
  | _ => True

def performAll : List MapCall → FsM Unit
  | [] => pure ()
  | call :: calls => do
    call.perform
    performAll calls

/-- The blocks and the data sectors of the free map file. -/
structure FileSectors (sectors : Word → Sector) (rest data : List Word) : Prop where
  chain : Chain sectors (sectors freeMapSector).inodeDisk rest data
  count : data.length = bytesToSectors (sectors freeMapSector).inodeDisk.length.toNat

/-- A free map file for a disk of so many sectors. -/
structure WellFormed (capacity : Nat) (sectors : Word → Sector) (rest data : List Word) : Prop
    extends FileSectors sectors rest data where
  onDisk : ∀ s ∈ rest ++ data, s.toNat < capacity
  distinct : (freeMapSector :: (rest ++ data)).Nodup
  long : byteCnt capacity ≤ (sectors freeMapSector).inodeDisk.length.toNat

/-- The free map file is open. -/
structure OpenMap (v : View) (inode : Inode) (rest data : List Word) : Prop where
  set : v.tables.freeMapFile = some freeMapSector
  found : v.tables.openInodes.find? (fun i => i.sector == freeMapSector) = some inode
  allowed : inode.denyWriteCnt = 0
  once : inode.openCnt = 1
  kept : inode.removed = false
  -- the `sector` field is not needed to read the file
  head : ∃ sector, (v.sectors freeMapSector).inodeDisk = { inode.data with sector := sector }
  file : Accessible v inode.data rest data
  count : data.length = bytesToSectors inode.data.length.toNat
  long : byteCnt v.tables.capacity ≤ inode.data.length.toNat
  size : v.tables.freeMap.length = v.tables.capacity
  positive : 0 < v.tables.capacity
  distinct : data.Nodup
  apart : freeMapSector ∉ rest
  -- on a disk that has no free sector the file may be written over its own first block
  shared : freeMapSector ∈ data → byteCnt v.tables.capacity = 4
  unlocked : v.tables.inodeSysLock = false

/-- The free map file is open, it can be read to its end, and its bits are those of the free map. -/
structure Persists (v : View) (inode : Inode) (rest data : List Word) : Prop extends OpenMap v inode rest data where
  tail : TailOnDisk v.tables.capacity (lastDisk v.sectors inode.data rest) 0 data.length
    (bytesToSectors (byteCnt v.tables.capacity))
  stored : bitmapOfBytes v.tables.capacity (slice (bytesOf v.sectors data) 0 (byteCnt v.tables.capacity)) =
    v.tables.freeMap

/-- The bytes of the free map file that the free map is read from. -/
abbrev View.mapBytes (v : View) (data : List Word) : List UInt8 :=
  slice (bytesOf v.sectors data) 0 (byteCnt v.tables.capacity)

abbrev View.MapTail (v : View) (disk : InodeDisk) (rest data : List Word) : Prop :=
  TailOnDisk v.tables.capacity (lastDisk v.sectors disk rest) 0 data.length
    (bytesToSectors (byteCnt v.tables.capacity))

variable {v : View} {inode : Inode} {rest data : List Word}

/-! ## What the calls keep -/

/-- The first four bytes of a block are its `sector` field. -/
theorem Sector.inodeDisk_store_four (sector : Sector) {bytes : List UInt8} (four : bytes.length = 4) :
    ∃ first, (sector.store bytes 0).inodeDisk = { sector.inodeDisk with sector := first } := by
  obtain ⟨a, b, c, d, rfl⟩ := length_eq_four.mp four
  have size := sector.length_bytes
  obtain ⟨e, f, g, h, later, all⟩ : ∃ e f g h later, sector.bytes = e :: f :: g :: h :: later := by
    match found : sector.bytes with
    | e :: f :: g :: h :: later => exact ⟨e, f, g, h, later, rfl⟩
    | [] | [_] | [_, _] | [_, _, _] => simp [found] at size
  have stored : (sector.store [a, b, c, d] 0).bytes = a :: b :: c :: d :: later := by
    show splice sector.bytes 0 [a, b, c, d] = _
    have split : sector.bytes = [e, f, g, h] ++ later := all
    rw [split, splice_append]
    show [a, b, c, d] ++ splice later 0 [] = _
    rw [splice_nil]
    rfl
  refine ⟨bytesWord a b c d, ?_⟩
  simp only [inodeDisk, stored, all, InodeDisk.decode, bytesWords]
  rfl

variable {capacity : Nat}

theorem byteCnt_pos (positive : 0 < capacity) : 0 < byteCnt capacity := by
  unfold byteCnt
  omega

namespace OpenMap

section

variable (persists : OpenMap v inode rest data)

include persists

theorem covered : byteCnt v.tables.capacity ≤ 512 * data.length :=
  persists.long.trans (persists.count ▸ le_bytesToSectors _)

theorem written : 0 < inode.data.length.toNat :=
  lt_of_lt_of_le (byteCnt_pos persists.positive) persists.long

/-- A free map of the right size is stored. -/
theorem sync {freeMap : Bitmap} (size : freeMap.length = v.tables.capacity)
    (tail : v.MapTail inode.data rest data) :
    Persists ((v.withMap freeMap).synced data) inode rest data := by
  have covered := persists.covered
  have bytes : (bitmapBytes freeMap).length = byteCnt v.tables.capacity := by rw [length_bitmapBytes, size]
  have blocks : ∀ s ∈ rest, ((v.withMap freeMap).synced data).sectors s = v.sectors s := by
    intro s block
    exact storeAcross_other _ (fun member => persists.file.apart s member block) _ _
  refine { persists with head := ?_, file := ?_, size := size, tail := ?_, stored := ?_ }
  · obtain ⟨sector, head⟩ := persists.head
    by_cases inFile : freeMapSector ∈ data
    · -- only the first data sector receives bytes, four of them
      have four : (bitmapBytes freeMap).length = 4 := bytes.trans (persists.shared inFile)
      rcases data with _ | ⟨first, others⟩
      · cases inFile
      have short : (bitmapBytes freeMap).drop (512 - 0) = [] := drop_eq_nil_iff.mpr (by omega)
      have whole : (bitmapBytes freeMap).take (512 - 0) = bitmapBytes freeMap :=
        take_of_length_le (by omega)
      show ∃ sector, (storeAcross v.sectors (first :: others) 0 (bitmapBytes freeMap) freeMapSector).inodeDisk = _
      rw [storeAcross, short, whole, storeAcross_nil]
      by_cases same : freeMapSector = first
      · rw [← same, update_self]
        obtain ⟨new, stored⟩ := (v.sectors freeMapSector).inodeDisk_store_four four
        exact ⟨new, by rw [stored, head]⟩
      · rw [update_of_ne same]
        exact ⟨sector, head⟩
    · refine ⟨sector, ?_⟩
      show (storeAcross v.sectors data 0 (bitmapBytes freeMap) freeMapSector).inodeDisk = _
      rw [storeAcross_other _ inFile]
      exact head
  · exact { persists.file with chain := persists.file.chain.congr blocks }
  · rw [lastDisk_congr blocks]
    exact tail
  · have stored : slice (splice (bytesOf v.sectors data) 0 (bitmapBytes freeMap)) 0 (byteCnt v.tables.capacity) =
        bitmapBytes freeMap := by
      rw [← bytes]
      apply slice_splice
      rw [length_bytesOf, bytes]
      omega
    show bitmapOfBytes v.tables.capacity (slice (bytesOf (storeAcross v.sectors data 0 (bitmapBytes freeMap)) data) 0
      (byteCnt v.tables.capacity)) = freeMap
    rw [bytesOf_storeAcross persists.distinct, stored, ← size, bitmapOfBytes_bitmapBytes]

end

end OpenMap

namespace Persists

theorem mapFile (persists : Persists v inode rest data) : MapFile True v rest data := by
  have covered := persists.covered
  have tail := persists.tail
  rw [← persists.size] at covered
  apply MapFile.present persists.set persists.found persists.allowed persists.written persists.file covered
  intro _
  rw [persists.size]
  exact tail

theorem write (persists : Persists v inode rest data) {s : Word} (outside : s ∉ freeMapSector :: (rest ++ data))
    (sector : Sector) : Persists (v.withSectors (update v.sectors s sector)) inode rest data := by
  have others : ∀ t ∈ freeMapSector :: (rest ++ data), update v.sectors s sector t = v.sectors t := by
    intro t member
    have other : t ≠ s := fun same => outside (same ▸ member)
    exact update_of_ne other _ _
  have blocks : ∀ t ∈ rest, update v.sectors s sector t = v.sectors t :=
    fun t member => others t (mem_cons_of_mem _ (mem_append_left _ member))
  refine { persists with head := ?_, file := ?_, tail := ?_, stored := ?_ }
  · show ∃ tag, (update v.sectors s sector freeMapSector).inodeDisk = _
    rw [others _ mem_cons_self]
    exact persists.head
  · exact { persists.file with chain := persists.file.chain.congr blocks }
  · show TailOnDisk _ (lastDisk (update v.sectors s sector) inode.data rest) _ _ _
    rw [lastDisk_congr blocks]
    exact persists.tail
  · show bitmapOfBytes _ (slice (bytesOf (update v.sectors s sector) data) _ _) = _
    rw [bytesOf_congr fun t member => others t (mem_cons_of_mem _ (mem_append_right _ member))]
    exact persists.stored

end Persists

theorem bitmapScanAndFlip_length {b flipped : Bitmap} {start cnt sector : Nat} {value : Bool}
    (found : bitmapScanAndFlip b start cnt value = some (sector, flipped)) : flipped.length = b.length := by
  obtain ⟨_, _, same⟩ := Option.map_eq_some_iff.mp found
  cases same
  exact length_splice _ _ _

section

variable (persists : Persists v inode rest data)

include persists

/-- The free map changes and is written, or nothing changes. -/
theorem freeMapAllocate_persists (cnt : Nat) :
    Yields True (freeMapAllocate cnt) v fun _ after =>
      Persists after inode rest data ∧ after.tables.capacity = v.tables.capacity := by
  apply getTables_returns.bind
  rcases scan : bitmapScanAndFlip v.tables.freeMap 0 cnt false with _ | taken
  · exact Yields.pure ⟨persists, rfl⟩
  obtain ⟨sector, freeMap⟩ := taken
  have length := bitmapScanAndFlip_length scan
  have size : freeMap.length = v.tables.capacity := length.trans persists.size
  have marks : Returns True (modifyTables fun t => { t with freeMap := freeMap }) v () (v.withMap freeMap) :=
    modifyTables_returns _
  apply marks.bind
  rw [persists.set]
  have nonempty : 0 < freeMap.length := size ▸ persists.positive
  apply (bitmapWrite_returns (v := v.withMap freeMap) persists.set (persists.mapFile.withMap length) nonempty).bind
  exact Yields.pure ⟨persists.sync size persists.tail, rfl⟩

theorem freeMapRelease_persists (sector : Word) (cnt : Nat) :
    Yields False (freeMapRelease sector cnt) v fun _ after =>
      Persists after inode rest data ∧ after.tables.capacity = v.tables.capacity := by
  apply getTables_returns.bind
  split
  swap
  · intro _ _
    exact id
  have length : (bitmapSetMultiple v.tables.freeMap sector.toNat cnt false).length = v.tables.freeMap.length :=
    length_splice _ _ _
  have size := length.trans persists.size
  have clears : Returns False (modifyTables fun t =>
      { t with freeMap := bitmapSetMultiple t.freeMap sector.toNat cnt false }) v ()
      (v.withMap (bitmapSetMultiple v.tables.freeMap sector.toNat cnt false)) := modifyTables_returns _
  apply clears.bind
  have nonempty : 0 < (bitmapSetMultiple v.tables.freeMap sector.toNat cnt false).length := size ▸ persists.positive
  have writes := bitmapWrite_returns (v := v.withMap (bitmapSetMultiple v.tables.freeMap sector.toNat cnt false))
    persists.set (persists.mapFile.withMap length) nonempty
  apply (writes.weaken False.elim).bind
  intro success after wrote
  rw [wrote.2]
  exact Yields.pure ⟨persists.sync size persists.tail, rfl⟩

theorem perform_persists {call : MapCall} (outside : call.Outside (freeMapSector :: (rest ++ data))) :
    Yields False call.perform v fun _ after =>
      Persists after inode rest data ∧ after.tables.capacity = v.tables.capacity := by
  cases call with
  | allocate cnt =>
    apply ((freeMapAllocate_persists persists cnt).weaken False.elim).bind
    intro sector after kept
    exact Yields.pure kept
  | release sector cnt => exact freeMapRelease_persists persists sector cnt
  | read secNo size offset =>
    apply ((cacheRead_yields secNo size offset).weaken False.elim).bind
    intro bytes after read
    rw [read.2.1]
    exact Yields.pure ⟨persists, rfl⟩
  | write secNo buffer offset =>
    apply ((cacheWrite_yields secNo buffer offset).weaken False.elim).mono
    intro _ after wrote
    rw [wrote.1]
    exact ⟨persists.write outside.1 _, rfl⟩
  | releaseSlot secNo => exact (cacheRelease_returns secNo).yields ⟨persists, rfl⟩

theorem performAll_persists {calls : List MapCall}
    (outside : ∀ call ∈ calls, call.Outside (freeMapSector :: (rest ++ data))) :
    Yields False (performAll calls) v fun _ after =>
      Persists after inode rest data ∧ after.tables.capacity = v.tables.capacity := by
  induction calls generalizing v with
  | nil => exact Yields.pure ⟨persists, rfl⟩
  | cons call calls ih =>
    apply (perform_persists persists (outside call mem_cons_self)).bind
    intro _ after kept
    rw [← kept.2]
    exact ih kept.1 fun later member => outside later (mem_cons_of_mem _ member)

end

/-! ## The start -/

/-- The inode that `inode_open (FREE_MAP_SECTOR)` makes of what it reads. -/
def openedFreeMap (disk : InodeDisk) : Inode where
  sector := freeMapSector
  openCnt := 1
  removed := false
  denyWriteCnt := 0
  data := disk

@[simp] theorem length_bootTables (capacity : Nat) : (bootTables capacity).freeMap.length = capacity := by
  simp [bootTables, bitmapMark, bitmapCreate]

def View.withMapFile (v : View) : View :=
  { v with tables := { v.tables with
      openInodes := [openedFreeMap (v.sectors freeMapSector).inodeDisk], freeMapFile := some freeMapSector } }

theorem openFreeMapFile_yields (none : v.tables.openInodes = []) :
    Yields (0 < v.tables.capacity) openFreeMapFile v fun _ after => after = v.withMapFile ∧ 0 < v.tables.capacity := by
  have opens : Yields (0 < v.tables.capacity) (inodeOpen freeMapSector) v fun _ after =>
      after = v.withInodes [openedFreeMap (v.sectors freeMapSector).inodeDisk] ∧ 0 < v.tables.capacity := by
    apply getTables_returns.bind
    rw [none]
    apply (readInodeDisk_yields freeMapSector).bind
    intro disk after read
    rw [read.1, read.2.1]
    apply (modifyTables_returns _).yields
    rw [none]
    exact ⟨rfl, read.2.2⟩
  apply opens.bind
  intro _ after opened
  rw [opened.1]
  apply (modifyTables_returns _).yields
  exact ⟨rfl, opened.2⟩

theorem find_openedFreeMap (disk : InodeDisk) :
    [openedFreeMap disk].find? (fun i => i.sector == freeMapSector) = some (openedFreeMap disk) := rfl

/-- No inode is open yet. -/
structure Closed (v : View) : Prop where
  none : v.tables.openInodes = []
  size : v.tables.freeMap.length = v.tables.capacity
  unlocked : v.tables.inodeSysLock = false

theorem closed_boot (booted : v.tables = bootTables v.tables.capacity) : Closed v := by
  constructor <;> rw [booted]
  case none | unlocked => rfl
  case size => exact length_bootTables _

/-- `bitmap_read` replaces the whole free map by the bits of the file. -/
theorem freeMapOpen_yields (closed : Closed v) (file : Accessible v (v.sectors freeMapSector).inodeDisk rest data)
    (count : data.length = bytesToSectors (v.sectors freeMapSector).inodeDisk.length.toNat)
    (long : byteCnt v.tables.capacity ≤ (v.sectors freeMapSector).inodeDisk.length.toNat) :
    let tail := v.MapTail (v.sectors freeMapSector).inodeDisk rest data
    Yields (0 < v.tables.capacity ∧ tail) freeMapOpen v fun _ after =>
      after = v.withMapFile.withMap (bitmapOfBytes v.tables.capacity (v.mapBytes data)) ∧
        0 < v.tables.capacity ∧ tail := by
  intro tail
  obtain ⟨none, size, unlocked⟩ := closed
  have covered : (v.sectors freeMapSector).inodeDisk.length.toNat ≤ 512 * data.length := count ▸ le_bytesToSectors _
  apply ((openFreeMapFile_yields none).weaken And.left).bind
  intro _ after opened
  obtain ⟨same, positive⟩ := opened
  subst same
  have some := byteCnt_pos positive
  have taken : min (byteCnt v.tables.capacity)
      ((openedFreeMap (v.sectors freeMapSector).inodeDisk).data.length.toNat - 0) =
      byteCnt v.tables.capacity := by
    show min _ ((v.sectors freeMapSector).inodeDisk.length.toNat - 0) = _
    omega
  have bytes : (v.mapBytes data).length = byteCnt v.tables.capacity := by
    rw [length_slice, length_bytesOf]
    omega
  have reads := inodeReadAt_yields (v := v.withMapFile) unlocked (find_openedFreeMap _)
    file.chain file.blocks file.usable covered (byteCnt v.tables.capacity) 0
  have bitmap : Yields (0 < v.tables.capacity ∧ tail) bitmapRead v.withMapFile fun success after => success = true ∧
      after = v.withMapFile.withMap (bitmapOfBytes v.tables.capacity (v.mapBytes data)) ∧ tail := by
    apply getTables_returns.bind
    show Yields _ (if v.tables.freeMap.length > 0 then _ else _) _ _
    rw [if_pos (by omega)]
    show Yields _ (inodeReadAt freeMapSector (byteCnt v.tables.freeMap.length) 0 >>= _) _ _
    rw [size]
    simp only [taken, zero_add] at reads
    apply (reads.weaken fun holds _ => holds.2).bind
    intro buffer after read
    obtain ⟨buffer_eq, same, onDisk⟩ := read
    rw [buffer_eq, same]
    apply (modifyTables_returns _).bind
    apply Yields.pure
    refine ⟨beq_iff_eq.mpr (bytes.trans (congrArg byteCnt size.symm)), ?_, onDisk some⟩
    have whole : splice (bitmapBytes v.tables.freeMap) 0 (v.mapBytes data) = v.mapBytes data :=
      splice_whole (by rw [bytes, length_bitmapBytes, size])
    show v.withMapFile.withMap (bitmapOfBytes v.tables.freeMap.length
      (splice (bitmapBytes v.tables.freeMap) 0 (v.mapBytes data))) = _
    rw [whole, size]
  apply bitmap.bind
  intro success after read
  obtain ⟨done, same, onDisk⟩ := read
  rw [done, same]
  exact Yields.pure ⟨rfl, positive, onDisk⟩

theorem WellFormed.accessible (wellFormed : WellFormed v.tables.capacity v.sectors rest data)
    (bounded : v.tables.capacity ≤ 2 ^ 28) : Accessible v (v.sectors freeMapSector).inodeDisk rest data :=
  .of_onDisk wellFormed.chain wellFormed.onDisk bounded (nodup_cons.mp wellFormed.distinct).2

theorem WellFormed.openMap (wellFormed : WellFormed v.tables.capacity v.sectors rest data)
    (bounded : v.tables.capacity ≤ 2 ^ 28) (size : v.tables.freeMap.length = v.tables.capacity)
    (positive : 0 < v.tables.capacity) (unlocked : v.tables.inodeSysLock = false) :
    OpenMap v.withMapFile (openedFreeMap (v.sectors freeMapSector).inodeDisk) rest data := by
  have file := wellFormed.accessible bounded
  have distinct := nodup_cons.mp wellFormed.distinct
  have outside : freeMapSector ∉ rest ∧ freeMapSector ∉ data := by
    rw [← not_or, ← mem_append]
    exact distinct.1
  constructor
  case set | allowed | once | kept => rfl
  case found => exact find_openedFreeMap _
  case head => exact ⟨_, rfl⟩
  case file => exact { file with }
  case count => exact wellFormed.count
  case long => exact wellFormed.long
  case size => exact size
  case positive => exact positive
  case distinct => exact (nodup_append.mp distinct.2).2.1
  case apart => exact outside.1
  case shared => exact fun member => absurd member outside.2
  case unlocked => exact unlocked

theorem freeMapOpen_persists (booted : v.tables = bootTables v.tables.capacity) (bounded : v.tables.capacity ≤ 2 ^ 28)
    (wellFormed : WellFormed v.tables.capacity v.sectors rest data) :
    Yields False freeMapOpen v fun _ after =>
      Persists after (openedFreeMap (v.sectors freeMapSector).inodeDisk) rest data ∧
      after.tables.capacity = v.tables.capacity := by
  have closed := closed_boot booted
  apply ((freeMapOpen_yields closed (wellFormed.accessible bounded) wellFormed.count wellFormed.long).weaken
    False.elim).mono
  intro _ after opened
  obtain ⟨same, positive, tail⟩ := opened
  subst same
  have opens := wellFormed.openMap bounded closed.size positive closed.unlocked
  refine ⟨⟨{ opens with file := ?_, size := ?_ }, tail, rfl⟩, rfl⟩
  · exact { opens.file with }
  · simp [View.withMap, View.withMapFile, bitmapOfBytes]

theorem length_free_boot (booted : v.tables = bootTables v.tables.capacity) (two : 2 ≤ v.tables.capacity) :
    (freeSectors v.tables.freeMap).length = v.tables.capacity - 2 := by
  obtain ⟨more, size⟩ := Nat.exists_eq_add_of_le' two
  have all : clearBits (bitmapCreate (more + 2)) = 0 :: 1 :: (range more).map (· + 2) := by
    have clear : clearBits (bitmapCreate (more + 2)) = range (more + 2) := by
      rw [clearBits, bitmapCreate, length_replicate, filter_eq_self]
      intro i member
      rw [getElem?_replicate, if_pos (mem_range.mp member)]
      rfl
    rw [clear, range_succ_eq_map, range_succ_eq_map]
    simp
  have left : clearBits (bootTables (more + 2)).freeMap = (range more).map (· + 2) :=
    clearBits_mark (clearBits_mark all)
  rw [booted, size, freeSectors, length_map, left, length_map, length_range]
  rfl

theorem used_boot_iff (two : 2 ≤ capacity) {s : Word} :
    Used (bootTables capacity).freeMap s ↔ s = rootDirSector ∨ s = freeMapSector := by
  have inside : ∀ t : Word, t = freeMapSector ∨ t = rootDirSector → t.toNat < capacity := by
    intro t isFirst
    cases isFirst with
    | inl same | inr same => rw [same]; exact lt_of_lt_of_le (by decide) two
  have created : ¬ Used (bitmapCreate capacity) s := by
    unfold Used bitmapCreate
    rw [getElem?_replicate]
    split <;> simp
  unfold bootTables
  rw [used_bitmapMark, used_bitmapMark]
  · tauto
  · rw [bitmapCreate, length_replicate]
    exact inside _ (.inl rfl)
  · rw [bitmapMark, length_set, bitmapCreate, length_replicate]
    exact inside _ (.inr rfl)

/-- The file is made, and can be opened. -/
def MapCreated (v w : View) : Prop :=
  w.tables.openInodes = [] ∧ w.tables.capacity = v.tables.capacity ∧
    ∃ rest data, OpenMap w.withMapFile (openedFreeMap (w.sectors freeMapSector).inodeDisk) rest data

section

variable (booted : v.tables = bootTables v.tables.capacity)

include booted

theorem mapReady_boot (bounded : v.tables.capacity ≤ 2 ^ 28) :
    MapReady safe v [] [] where
  file := .absent (by rw [booted]; rfl)
  size := (closed_boot booted).size
  bounded := bounded
  used s member := by simp at member
  distinct := nodup_nil

theorem used_boot (two : 2 ≤ v.tables.capacity) : Used v.tables.freeMap freeMapSector := by
  rw [booted, used_boot_iff two]
  exact .inr rfl

/-- On a disk of three sectors or more the file is made of free sectors. -/
theorem inodeCreate_grows (bounded : v.tables.capacity ≤ 2 ^ 28) (three : 3 ≤ v.tables.capacity) :
    Yields safe (inodeCreate freeMapSector (byteCnt v.tables.capacity) 0) v fun done w => done = true ∧
      (w.sectors freeMapSector).inodeDisk.length = BitVec.ofNat 32 (byteCnt v.tables.capacity) ∧
      ∃ taken, Grown [] v w freeMapSector 0 (bytesToSectors (byteCnt v.tables.capacity)) taken := by
  have enough : growthSectors 0 (bytesToSectors (byteCnt v.tables.capacity)) ≤ (freeSectors
      v.tables.freeMap).length := by
    rw [length_free_boot booted (by omega)]
    unfold growthSectors bytesToSectors byteCnt
    omega
  have allocated : Yields safe (allocateInodeDisk (bytesToSectors (byteCnt v.tables.capacity)) freeMapSector
      (byteCnt v.tables.capacity) 0 0) v _ :=
    allocateInodeDisk_yields (closed_boot booted).unlocked (mapReady_boot booted bounded) (used_boot booted (by omega))
      not_mem_nil (extendable_of_notMem not_mem_nil not_mem_nil _) enough
  unfold inodeCreate inodeCreateIn
  rw [if_neg (by unfold byteCnt; omega)]
  apply allocated.mono
  intro done w made
  obtain ⟨isDone, -, length, -, taken, grown⟩ := made
  exact ⟨isDone, length, taken, grown⟩

theorem inodeCreate_large (bounded : v.tables.capacity ≤ 2 ^ 28) (three : 3 ≤ v.tables.capacity) :
    Yields False (inodeCreate freeMapSector (byteCnt v.tables.capacity) 0) v fun done w => done = true ∧
      MapCreated v w := by
  obtain ⟨closed, size, unlocked⟩ := closed_boot booted
  have creates : Yields False (inodeCreate freeMapSector (byteCnt v.tables.capacity) 0) v _ :=
    @inodeCreate_grows v booted _ bounded three
  generalize inodeCreate freeMapSector (byteCnt v.tables.capacity) 0 = create at creates ⊢
  apply creates.mono
  intro done w made
  obtain ⟨isDone, length, taken, grown⟩ := made
  obtain ⟨count, perm⟩ := carve_spec grown.count
  have chain : Chain w.sectors (w.sectors freeMapSector).inodeDisk
      (carve 0 (bytesToSectors (byteCnt v.tables.capacity)) taken).1
      (carve 0 (bytesToSectors (byteCnt v.tables.capacity)) taken).2 := grown.chain
  generalize carve 0 (bytesToSectors (byteCnt v.tables.capacity)) taken = parts at chain count perm
  have distinct := perm.nodup_iff.mpr (grown.takes.nodup (size ▸ bounded))
  have free : ∀ s ∈ parts.1 ++ parts.2, s ∈ freeSectors v.tables.freeMap :=
    fun s member => grown.takes.mem_free (perm.mem_iff.mp member)
  have notFree : freeMapSector ∉ freeSectors v.tables.freeMap :=
    fun member => not_used_of_free (size ▸ bounded) member (used_boot booted (by omega))
  have stored : (w.sectors freeMapSector).inodeDisk.length.toNat = byteCnt v.tables.capacity := by
    rw [length, BitVec.toNat_ofNat]
    unfold byteCnt
    omega
  have tables := grown.takes.tables
  have capacity : w.tables.capacity = v.tables.capacity := by rw [tables]
  have wellFormed : WellFormed w.tables.capacity w.sectors parts.1 parts.2 := by
    refine ⟨⟨chain, ?_⟩, ?_, nodup_cons.mpr ⟨fun member => notFree (free _ member), distinct⟩, ?_⟩
    · rw [stored, count]
    · exact fun s member => capacity ▸ size ▸ free_lt (size ▸ bounded) (free s member)
    · rw [stored, capacity]
  have sized : w.tables.freeMap.length = w.tables.capacity := by
    rw [grown.takes.freeMap_eq, length_markAll, size, capacity]
  refine ⟨isDone, by rw [tables]; exact closed, capacity, parts.1, parts.2, ?_⟩
  exact wellFormed.openMap (capacity ▸ bounded) sized (by omega) (by rw [tables]; exact unlocked)

/-- With no free sector, the file gets the data sector that the old content of its first block names. -/
theorem inodeCreate_small (two : v.tables.capacity = 2) :
    Yields False (inodeCreate freeMapSector (byteCnt v.tables.capacity) 0) v fun done w => done = true ∧
      MapCreated v w := by
  have unlocked : v.tables.inodeSysLock = false := by rw [booted]; rfl
  have onDisk : freeMapSector.toNat < v.tables.capacity := by rw [two]; decide
  have full : bitmapScanAndFlip v.tables.freeMap 0 1 false = none := by
    rw [booted, two]
    decide
  have fails : Returns False (freeMapAllocate 1) (v.withLock true) none (v.withLock true) := by
    apply getTables_returns.bind
    rw [show bitmapScanAndFlip (v.withLock true).tables.freeMap 0 1 false = none from full]
    exact Returns.pure
  rw [two]
  show Yields False (allocateInodeDisk 1 freeMapSector 4 0 0) v _
  rw [allocateInodeDisk, allocateInodeDiskIn, if_neg memory_available, if_neg memory_available]
  apply (lockAcquire_returns unlocked).bind
  apply (readInodeDisk_returns (v := v.withLock true) onDisk).bind
  let disk : InodeDisk := { (v.sectors freeMapSector).inodeDisk with
    length := 4, sector := freeMapSector, info := 0, magic := inodeMagic }
  let cleared := update v.sectors (disk.slot 0) ((v.sectors (disk.slot 0)).store Sector.zeros.bytes 0)
  have direct : Yields False (allocateDirect 0 disk 1) (v.withLock true) fun filled after => filled = disk ∧
      after = (v.withLock true).withSectors cleared ∧ (disk.slot 0).toNat < v.tables.capacity := by
    apply fails.bind
    apply ((cacheWrite_yields (disk.slot 0) Sector.zeros.bytes 0).weaken False.elim).bind
    intro _ after wrote
    exact Yields.pure ⟨rfl, wrote⟩
  apply direct.bind
  intro filled after made
  obtain ⟨rfl, same, below⟩ := made
  subst same
  have one : ¬ 1 + ((0 : Fin 123) : Nat) > 123 := by decide
  rw [if_neg one]
  apply (writeInodeDisk_returns (v := (v.withLock true).withSectors cleared) onDisk disk).bind
  apply lockRelease_returns.bind
  apply Yields.pure
  refine ⟨rfl, ?_, rfl, [], [disk.slot 0], ?_⟩
  · exact (closed_boot booted).none
  have head : (update cleared freeMapSector (Sector.ofInodeDisk disk) freeMapSector).inodeDisk = disk := by
    rw [update_self, inodeDisk_ofInodeDisk]
  show OpenMap _ (openedFreeMap (update cleared freeMapSector (.ofInodeDisk disk) freeMapSector).inodeDisk) _ _
  rw [head]
  have first : [disk.slot 0] <+: disk.direct.toList := by
    have some : disk.direct.toList ≠ [] := ne_nil_of_length_pos (by rw [disk.length_direct]; decide)
    obtain ⟨s, others, all⟩ := exists_cons_of_ne_nil some
    exact ⟨others, by simp [InodeDisk.slot, all]⟩
  constructor
  case set | allowed | once | kept | unlocked => rfl
  case found =>
    show [openedFreeMap (update cleared freeMapSector (.ofInodeDisk disk) freeMapSector).inodeDisk].find? _ = _
    rw [head]
    exact find_openedFreeMap _
  case head => exact ⟨_, head⟩
  case file =>
    refine ⟨first, fun _ => not_mem_nil.elim, ?_, fun _ _ => not_mem_nil⟩
    intro s member
    rw [mem_singleton.mp member]
    refine ⟨below, ?_⟩
    rw [BitVec.msb_eq_false_iff_two_mul_lt]
    omega
  case count =>
    show 1 = bytesToSectors (4 : Word).toNat
    decide
  case long =>
    show byteCnt v.tables.capacity ≤ 4
    rw [two]
    decide
  case size => exact (closed_boot booted).size
  case positive =>
    show 0 < v.tables.capacity
    omega
  case distinct => exact nodup_singleton _
  case apart => exact not_mem_nil
  case shared =>
    intro _
    show byteCnt v.tables.capacity = 4
    rw [two]
    rfl

theorem freeMapCreate_persists (bounded : v.tables.capacity ≤ 2 ^ 28) (two : 2 ≤ v.tables.capacity) :
    Yields False freeMapCreate v fun _ after =>
      (∃ inode rest data, Persists after inode rest data) ∧ after.tables.capacity = v.tables.capacity := by
  have size := (closed_boot booted).size
  have creates : Yields False (inodeCreate freeMapSector (byteCnt v.tables.capacity) 0) v
      fun done w => done = true ∧ MapCreated v w := by
    cases lt_or_ge 2 v.tables.capacity with
    | inl three => exact @inodeCreate_large v booted bounded three
    | inr small => exact @inodeCreate_small v booted (le_antisymm small two)
  unfold freeMapCreate
  -- its result is all that counts; unfolded, its check for overflow would be evaluated
  generalize inodeCreate = create at creates ⊢
  apply getTables_returns.bind
  rw [size]
  apply creates.bind
  intro done w made
  obtain ⟨rfl, none, capacity, rest, data, opened⟩ := made
  apply ((openFreeMapFile_yields none).weaken False.elim).bind
  intro _ after file
  rw [file.1]
  have writes := bitmapWrite_yields opened.set opened.found opened.allowed opened.written opened.file
    (opened.size.symm ▸ opened.covered) (opened.size.symm ▸ opened.positive)
  apply (writes.weaken False.elim).bind
  intro success after wrote
  obtain ⟨rfl, same, tail⟩ := wrote
  rw [opened.size] at tail
  rw [same]
  exact Yields.pure ⟨⟨_, rest, data, opened.sync opened.size tail⟩, capacity⟩

end

theorem Chain.withSector {sectors : Word → Sector} {disk : InodeDisk} (chain : Chain sectors disk rest data)
    (sector : Word) : Chain sectors { disk with sector := sector } rest data := by
  cases rest with
  | nil | cons => exact chain

theorem lastDisk_withSector (sectors : Word → Sector) (disk : InodeDisk) (sector : Word) :
    (lastDisk sectors { disk with sector := sector } rest).indirect = (lastDisk sectors disk rest).indirect := by
  cases rest with
  | nil => rfl
  | cons next rest => rfl

section

variable (persists : Persists v inode rest data)

include persists

/-- The file that a later start finds. -/
theorem Persists.onDisk :
    Accessible v (v.sectors freeMapSector).inodeDisk rest data ∧
    data.length = bytesToSectors (v.sectors freeMapSector).inodeDisk.length.toNat ∧
    byteCnt v.tables.capacity ≤ (v.sectors freeMapSector).inodeDisk.length.toNat ∧
    v.MapTail (v.sectors freeMapSector).inodeDisk rest data := by
  obtain ⟨sector, head⟩ := persists.head
  rw [head]
  refine ⟨{ persists.file with chain := persists.file.chain.withSector sector }, persists.count, persists.long, ?_⟩
  unfold View.MapTail TailOnDisk
  rw [lastDisk_withSector]
  exact persists.tail

theorem Persists.fileSectors : FileSectors v.sectors rest data where
  chain := persists.onDisk.1.chain
  count := persists.onDisk.2.1

/-- A restart on the same sectors reads the same bits. -/
theorem Persists.reopen {w : View} (booted : w.tables = bootTables v.tables.capacity) (same : w.sectors = v.sectors) :
    Yields True freeMapOpen w fun _ after => after.tables.freeMap = v.tables.freeMap := by
  obtain ⟨file, count, long, tail⟩ := persists.onDisk
  have capacity : w.tables.capacity = v.tables.capacity := by
    rw [booted]
    rfl
  have tail' : w.MapTail (w.sectors freeMapSector).inodeDisk rest data := by
    unfold View.MapTail
    rwa [same, capacity]
  rw [← same] at file count long
  rw [← capacity] at long
  have file' : Accessible w (w.sectors freeMapSector).inodeDisk rest data :=
    ⟨same.symm ▸ file.chain, fun s member => capacity ▸ file.blocks s member,
      fun s member => capacity ▸ file.usable s member, file.apart⟩
  have positive := persists.positive
  apply ((freeMapOpen_yields (closed_boot (capacity ▸ booted)) file' count long).weaken
    fun _ => ⟨capacity ▸ positive, tail'⟩).mono
  intro _ after opened
  rw [opened.1, View.mapBytes, same, capacity]
  exact persists.stored

end

/-! ## The end -/

theorem writeBackSlot_bufferCache (c : CacheState) (i : Fin 64) : (c.writeBackSlot i).bufferCache = c.bufferCache := by
  unfold CacheState.writeBackSlot
  split <;> rfl

variable {c : CacheState} {i : Fin 64} {last : FileSys}

/-- After its round the slot agrees with the disk. -/
theorem Coherent.writeBackSlot_self (coherent : Coherent c) (allocated : (c.bufferCache i).allocated = true) :
    (c.writeBackSlot i).disk (c.bufferCache i).sectorNo = (c.bufferCache i).data := by
  unfold CacheState.writeBackSlot
  split
  next => exact update_self _ _ _
  next clean =>
    rw [allocated, Bool.true_and, Bool.not_eq_true] at clean
    exact (coherent.clean i allocated clean).symm

/-- The rounds of the other slots write to other sectors. -/
theorem Coherent.writeBackSlot_other (coherent : Coherent c) {j : Fin 64} (other : j ≠ i)
    (allocated : (c.bufferCache j).allocated = true) :
    (c.writeBackSlot i).disk (c.bufferCache j).sectorNo = c.disk (c.bufferCache j).sectorNo := by
  unfold CacheState.writeBackSlot
  split
  next writes =>
    rw [Bool.and_eq_true] at writes
    exact update_of_ne (fun same => other (coherent.unique j i allocated writes.1 same)) _ _
  next => rfl

/-- The rounds of the loop reach every slot that is visited or that agrees with the disk already. -/
theorem Coherent.foldl_writeBackSlot (coherent : Coherent c) (slots : List (Fin 64))
    (allocated : (c.bufferCache i).allocated = true)
    (reached : i ∈ slots ∨ c.disk (c.bufferCache i).sectorNo = (c.bufferCache i).data) :
    (slots.foldl CacheState.writeBackSlot c).disk (c.bufferCache i).sectorNo = (c.bufferCache i).data := by
  induction slots generalizing c with
  | nil => exact reached.resolve_left not_mem_nil
  | cons j slots ih =>
    have slot := congrFun (writeBackSlot_bufferCache c j) i
    have later := ih (coherent.writeBackSlot j).1 (slot ▸ allocated)
    rw [slot] at later
    apply later
    by_cases visited : i = j
    · rw [← visited]
      exact .inr (coherent.writeBackSlot_self allocated)
    · cases reached with
      | inl member => exact .inl ((mem_cons.mp member).resolve_left visited)
      | inr agrees => exact .inr ((coherent.writeBackSlot_other visited allocated).trans agrees)

theorem foldl_writeBackSlot_bufferCache (c : CacheState) (slots : List (Fin 64)) :
    (slots.foldl CacheState.writeBackSlot c).bufferCache = c.bufferCache := by
  induction slots generalizing c with
  | nil => rfl
  | cons i slots ih => rw [foldl_cons, ih, writeBackSlot_bufferCache]

theorem Coherent.writeBack_disk (coherent : Coherent c) (s : Word) : (bufferCacheWriteBack c).disk s = logical c s := by
  rw [← coherent.writeBack.2, logical]
  cases found : (bufferCacheWriteBack c).findSlot s with
  | none => rfl
  | some i =>
    obtain ⟨allocated, named⟩ := findSlot_some found
    have slot := congrFun (foldl_writeBackSlot_bufferCache c (finRange 64)) i
    unfold bufferCacheWriteBack at allocated named ⊢
    dsimp only
    rw [slot] at allocated named ⊢
    rw [← named]
    exact coherent.foldl_writeBackSlot _ allocated (.inl (mem_finRange i))

/-- Closing the file drops the inode and touches no sector. -/
theorem freeMapClose_eq {fs : FileSys} (persists : Persists (view fs) inode rest data) :
    ∃ tables, freeMapClose fs = some ((), { fs with tables := tables }) := by
  have set : fs.tables.freeMapFile = some freeMapSector := persists.set
  have found : fs.tables.openInodes.find? (fun i => i.sector == freeMapSector) = some inode := persists.found
  refine ⟨{ fs.tables with openInodes := fs.tables.openInodes.filter fun i => i.sector != freeMapSector }, ?_⟩
  simp [freeMapClose, inodeCloseIn, getTables, modifyTables, bind, StateT.bind, set, findInode_eq found, persists.once,
    persists.kept]
  rfl

/-- The file is closed after the cache has been written back. -/
theorem freeMapClose_ends (persists : Persists (view last) inode rest data) (coherent : Coherent c)
    (same : logical c = logical last.cache) :
    ∃ done, freeMapClose { last with cache := c, coherent := coherent } = some ((), done) ∧ done.cache = c := by
  have viewed : view ({ last with cache := c, coherent := coherent } : FileSys) = view last :=
    congrArg (View.mk last.tables) same
  obtain ⟨tables, closed⟩ := freeMapClose_eq (viewed ▸ persists)
  exact ⟨_, closed, rfl⟩

/-- The shutdown goes through, and leaves on the disk what the cache stood for. -/
theorem filesysDone_ends (persists : Persists (view last) inode rest data) :
    ∃ done, filesysDone last = some ((), done) ∧ logical done.cache = logical last.cache ∧
      done.cache.disk = logical last.cache := by
  obtain ⟨coherent, same⟩ := last.coherent.writeBack
  obtain ⟨done, closed, cache⟩ := freeMapClose_ends persists coherent same
  refine ⟨done, closed, ?_, ?_⟩
  · rw [cache, same]
  · rw [cache]
    exact funext last.coherent.writeBack_disk

/-- The free map file is made, or it is there already. -/
inductive Start
  | created
  | opened
  deriving DecidableEq, Repr

def Start.program : Start → FsM Unit
  | created => freeMapCreate
  | opened => freeMapOpen

theorem Start.persists {start : Start} (booted : v.tables = bootTables v.tables.capacity)
    (bounded : v.tables.capacity ≤ 2 ^ 28) (two : 2 ≤ v.tables.capacity)
    (wellFormed : start = .opened → ∃ rest data, WellFormed v.tables.capacity v.sectors rest data) :
    Yields False start.program v fun _ after =>
      (∃ inode rest data, Persists after inode rest data) ∧ after.tables.capacity = v.tables.capacity := by
  cases start with
  | created => exact @freeMapCreate_persists v booted bounded two
  | opened =>
    obtain ⟨rest, data, file⟩ := wellFormed rfl
    apply (freeMapOpen_persists booted bounded file).mono
    intro _ after opened
    exact ⟨⟨_, rest, data, opened.1⟩, opened.2⟩

theorem logical_empty (empty : ∀ i, (c.bufferCache i).allocated = false) : logical c = c.disk := by
  funext s
  apply logical_uncached
  intro i allocated
  rw [empty i] at allocated
  cases allocated

/-- Whatever is done between the start and the end, the disk then holds the logical sectors, and a new start reads back
the free map that the kernel held.  The disk has the two fixed sectors, and sector numbers of at most 28 bits. -/
theorem free_map_persists (two : 2 ≤ capacity) (bounded : capacity ≤ 2 ^ 28) {fs ready : FileSys}
    {start : Start} (booted : fs.tables = bootTables capacity)
    (wellFormed : start = .opened → ∃ rest data, WellFormed capacity (logical fs.cache) rest data)
    (started : start.program fs = some ((), ready)) :
    ∃ rest data, FileSectors (logical ready.cache) rest data ∧ ∀ calls last,
      (∀ call ∈ calls, call.Outside (freeMapSector :: (rest ++ data))) → performAll calls ready = some ((), last) →
      ∃ done, filesysDone last = some ((), done) ∧
        (∀ s, done.cache.disk s = logical done.cache s) ∧ logical done.cache = logical last.cache ∧
        ∀ fresh : FileSys, fresh.tables = bootTables capacity →
          (∀ i, (fresh.cache.bufferCache i).allocated = false) → fresh.cache.disk = done.cache.disk →
          ∃ reopened, freeMapOpen fresh = some ((), reopened) ∧ reopened.tables.freeMap = last.tables.freeMap := by
  have size : (view fs).tables.capacity = capacity := by
    show fs.tables.capacity = capacity
    rw [booted]
    rfl
  have yields := @Start.persists (view fs) start (size.symm ▸ booted) (size.symm ▸ bounded) (size.symm ▸ two)
    (size.symm ▸ wellFormed)
  obtain ⟨⟨inode, rest, data, persists⟩, sizeReady⟩ := yields.ended started
  refine ⟨rest, data, persists.fileSectors, ?_⟩
  intro calls last outside ran
  obtain ⟨kept, sizeLast⟩ := (performAll_persists persists outside).ended ran
  obtain ⟨done, ended, same, disk⟩ := filesysDone_ends kept
  refine ⟨done, ended, fun s => by rw [disk, same], same, ?_⟩
  intro fresh bootedAgain empty sameDisk
  have sectors : (view fresh).sectors = (view last).sectors := by
    show logical fresh.cache = logical last.cache
    rw [logical_empty empty, sameDisk, disk]
  have sizes : (view last).tables.capacity = capacity := sizeLast.trans (sizeReady.trans size)
  obtain ⟨_, reopened, opened, map⟩ := (kept.reopen (sizes.symm ▸ bootedAgain) sectors).ends trivial
  exact ⟨reopened, opened, map⟩

/-- The first block of a free map file of four bytes, which are in the third sector. -/
def smallMapDisk : InodeDisk where
  sector := freeMapSector
  info := 0
  length := 4
  direct := (Vector.replicate 123 0).set 0 2
  indirect := 0
  magic := inodeMagic

def smallMap (s : Word) : Sector :=
  if s = freeMapSector then .ofInodeDisk smallMapDisk else .zeros

/-- A restart on a disk of three sectors. -/
def smallFileSys : FileSys where
  tables := bootTables 3
  cache := bufferCacheInit (.boot smallMap)
  coherent := coherent_init _

theorem smallMap_wellFormed : WellFormed 3 smallMap [] [2] := by
  have head : (smallMap freeMapSector).inodeDisk = smallMapDisk := by
    rw [smallMap, if_pos rfl, inodeDisk_ofInodeDisk]
  constructor
  case toFileSectors =>
    constructor
    case chain =>
      rw [head]
      show [2] <+: smallMapDisk.direct.toList
      decide
    case count =>
      rw [head]
      decide
  case onDisk =>
    intro s member
    rw [mem_singleton.mp member]
    decide
  case distinct => decide
  case long =>
    rw [head]
    decide

/-- A sector is allocated after the restart, and is still allocated after the next one. -/
theorem free_map_persists_example : ∃ ready last done fresh reopened, freeMapOpen smallFileSys = some ((), ready) ∧
    performAll [.allocate 1] ready = some ((), last) ∧ filesysDone last = some ((), done) ∧
    (∀ s, done.cache.disk s = logical done.cache s) ∧ fresh.cache.disk = done.cache.disk ∧
    freeMapOpen fresh = some ((), reopened) ∧ reopened.tables.freeMap = last.tables.freeMap := by
  have wellFormed : WellFormed 3 (logical smallFileSys.cache) [] [2] := by
    show WellFormed 3 (logical (bufferCacheInit _)) [] [2]
    rw [logical_init]
    exact smallMap_wellFormed
  have runs : ((freeMapOpen smallFileSys).bind fun ended => performAll [.allocate 1] ended.2).isSome = true := by
    decide +kernel
  obtain ⟨⟨_, last⟩, both⟩ := Option.isSome_iff_exists.mp runs
  obtain ⟨⟨_, ready⟩, opened, ran⟩ := Option.bind_eq_some_iff.mp both
  obtain ⟨rest, data, _, persistent⟩ := @free_map_persists 3 (by decide) (by decide) _ _ .opened rfl
    (fun _ => ⟨[], [2], wellFormed⟩) opened
  obtain ⟨done, ended, disk, _, restart⟩ := persistent [.allocate 1] last (by simp [MapCall.Outside]) ran
  let fresh : FileSys := ⟨bootTables 3, bufferCacheInit (.boot done.cache.disk), coherent_init _⟩
  obtain ⟨reopened, openedAgain, same⟩ := restart fresh rfl (fun _ => rfl) rfl
  exact ⟨ready, last, done, fresh, reopened, opened, ran, ended, disk, rfl, openedAgain, same⟩

end Pintos.Filesys
