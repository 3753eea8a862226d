import Pintos.Filesys.FileWorld
import Pintos.Filesys.DirectoryFile

/-! # Formatting a disk (`filesys_init (true)`)

`do_format` makes the free map file and the root directory, and closes the free map file; `free_map_open` opens it
again.  What it leaves is a volume of two files, whatever the disk held before.
-/

namespace Pintos.Filesys

open Library Kernel Directory List Volume Nat

/-- `dir_create (ROOT_DIR_SECTOR, ROOT_DIR_SECTOR, 16)`.  `dir_add` writes the entries of "." and ".." to the first two
    slots. -/
def rootDirCreate (dot dotDot : List UInt8) : FsM Unit := do
  if ← inodeCreate rootDirSector (16 * entrySize) 1 then
    inodeOpen rootDirSector
    if (← inodeWriteAt rootDirSector dot 0) = entrySize then
      if (← inodeWriteAt rootDirSector dotDot entrySize) = entrySize then
        inodeClose rootDirSector
      else failure
    else failure
  else failure

def doFormat (dot dotDot : List UInt8) : FsM Unit := do
  freeMapCreate
  rootDirCreate dot dotDot
  freeMapClose

/-- `filesys_init (true)` after the tables have been set up. -/
def filesysFormat (dot dotDot : List UInt8) : FsM Unit := do
  doFormat dot dotDot
  freeMapOpen

/-- The free map file holds the free map. -/
def Volume.Stored (a : Volume) : Prop :=
  ∃ f, a.files freeMapSector = some f ∧ slice f.bytes 0 (byteCnt a.freeMap.length) = bitmapBytes a.freeMap

/-- What the steps of formatting leave: the free map file is open and holds the free map, and free sectors hold what
    they held. -/
structure Fresh (v w : View) (a : Volume) : Prop where
  represents : Represents w a
  sound : a.Sound
  stored : a.Stored
  kept : ∀ s ∈ freeSectors a.freeMap, w.sectors s = v.sectors s

variable {safe : Prop} {v w : View} {a : Volume}

/-! ## The free map file -/

/-- The volume that has the free map file only. -/
def mapVolume (freeMap : Bitmap) (taken : List Word) : Volume where
  freeMap := freeMap
  files := fun head => if head = freeMapSector then some (File.empty.grow (byteCnt freeMap.length) taken) else none
  handles := [{ sector := freeMapSector, openCnt := 1, removed := false, denyWriteCnt := 0 }]

@[simp] theorem mapVolume_files (freeMap : Bitmap) (taken : List Word) :
    (mapVolume freeMap taken).files freeMapSector = some (File.empty.grow (byteCnt freeMap.length) taken) := by
  simp [mapVolume]

/-- The free map file of a disk, with the sectors that it takes beside its first block. -/
abbrev View.mapFile (v : View) (taken : List Word) : File :=
  File.empty.grow (byteCnt v.tables.capacity) taken

variable {head : Word} {f : File} {taken : List Word} {freeMap : Bitmap}

theorem files_mapVolume (found : (mapVolume freeMap taken).files head = some f) :
    head = freeMapSector ∧ f = File.empty.grow (byteCnt freeMap.length) taken := by
  unfold mapVolume at found
  dsimp only at found
  split_ifs at found with same
  exact ⟨same, (Option.some.inj found).symm⟩

theorem sound_mapVolume (bounded : freeMap.length ≤ 2 ^ 28)
    (count : taken.length = File.empty.needs (byteCnt freeMap.length))
    (used : ∀ s ∈ freeMapSector :: taken, Used freeMap s) (distinct : (freeMapSector :: taken).Nodup) :
    (mapVolume freeMap taken).Sound := by
  have perm := perm_grow freeMapSector count
  constructor
  case bounded => exact bounded
  case used =>
    intro head f s found member
    obtain ⟨rfl, rfl⟩ := files_mapVolume found
    exact used s (perm.mem_iff.mp member)
  case distinct =>
    intro head f found
    obtain ⟨rfl, rfl⟩ := files_mapVolume found
    exact perm.nodup_iff.mpr distinct
  case disjoint =>
    intro head head' f f' s found found' _ _
    rw [(files_mapVolume found).1, (files_mapVolume found').1]
  case count =>
    intro head f found
    obtain ⟨rfl, rfl⟩ := files_mapVolume found
    exact length_data_grow count (zero_le _)
  case small =>
    intro head f found
    obtain ⟨rfl, rfl⟩ := files_mapVolume found
    show byteCnt freeMap.length + 512 < 2 ^ 31
    unfold byteCnt
    omega
  case map => exact ⟨_, mapVolume_files _ _, le_refl _⟩
  case mapOpen => exact mem_cons_self
  case mapAllowed =>
    intro handle member _
    rw [mem_singleton.mp member]
  case once => exact nodup_singleton _
  case live =>
    intro handle member
    rw [mem_singleton.mp member]
    exact ⟨_, mapVolume_files _ _⟩

/-- The free map file has been made and opened, and the free map can be written to it. -/
theorem represents_mapVolume (unlocked : v.tables.inodeSysLock = false)
    (size : v.tables.freeMap.length = v.tables.capacity)
    (sized : (w.sectors freeMapSector).inodeDisk.length = BitVec.ofNat 32 (byteCnt v.tables.capacity))
    (grown : Grown [] v w freeMapSector 0 (bytesToSectors (byteCnt v.tables.capacity)) taken)
    (tail : TailOnDisk w.tables.capacity
      (w.sectors ((v.mapFile taken).last freeMapSector)).inodeDisk 0
      (v.mapFile taken).data.length (bytesToSectors (byteCnt w.tables.capacity))) :
    Represents w.withMapFile (mapVolume w.tables.freeMap taken) := by
  have tables := grown.takes.tables
  have length : w.tables.freeMap.length = v.tables.capacity := by rw [grown.takes.freeMap_eq, length_markAll, size]
  have capacity : w.tables.capacity = v.tables.capacity := by rw [tables]
  constructor
  case freeMap => rfl
  case capacity => exact capacity.trans length.symm
  case mapFile => rfl
  case unlocked =>
    show w.tables.inodeSysLock = false
    rw [tables]
    exact unlocked
  case handles => rfl
  case cached =>
    intro inode member
    rw [mem_singleton.mp member]
    rfl
  case file =>
    intro head f found
    obtain ⟨rfl, rfl⟩ := files_mapVolume found
    rw [length]
    exact grown.holds_new sized
  case tail =>
    intro f found
    obtain ⟨-, rfl⟩ := files_mapVolume found
    rw [length]
    exact tail

variable {capacity total : Nat} {s : Word} {dotDot dot : List UInt8} {fs : FileSys}

/-- The sectors that the free map file takes beside its first block. -/
def mapSectors (capacity : Nat) : Nat :=
  growthSectors 0 (bytesToSectors (byteCnt capacity))

theorem mapSectors_lt (four : 4 ≤ capacity) : mapSectors capacity < capacity - 2 := by
  unfold mapSectors growthSectors bytesToSectors byteCnt
  omega

/-- What there is after the free map file has been made: the sector of the root directory belongs to no file yet. -/
structure MapMade (v w : View) (a : Volume) : Prop extends Fresh v w a where
  capacity : w.tables.capacity = v.tables.capacity
  handles : a.handles = [{ sector := freeMapSector, openCnt := 1, removed := false, denyWriteCnt := 0 }]
  live : ∀ s, a.Live s ↔ s = freeMapSector
  used : ∀ s, Used a.freeMap s ↔ s = rootDirSector ∨ a.Owned s
  loose : ¬ a.Owned rootDirSector
  room : mapSectors v.tables.capacity + (freeSectors a.freeMap).length = v.tables.capacity - 2

/-- The free map file has been made, and has not been opened yet. -/
structure MapGrown (v w : View) (taken : List Word) : Prop where
  booted : v.tables = bootTables v.tables.capacity
  bounded : v.tables.capacity ≤ 2 ^ 28
  four : 4 ≤ v.tables.capacity
  sized : (w.sectors freeMapSector).inodeDisk.length = BitVec.ofNat 32 (byteCnt v.tables.capacity)
  grown : Grown [] v w freeMapSector 0 (bytesToSectors (byteCnt v.tables.capacity)) taken

namespace MapGrown

variable {taken : List Word} (made : MapGrown v w taken)
include made

theorem size : v.tables.freeMap.length = v.tables.capacity := by
  rw [made.booted]
  exact length_bootTables _

theorem boundedMap : v.tables.freeMap.length ≤ 2 ^ 28 :=
  made.size ▸ made.bounded

theorem length : w.tables.freeMap.length = v.tables.capacity := by
  rw [made.grown.takes.freeMap_eq, length_markAll, made.size]

theorem sameCapacity : w.tables.capacity = v.tables.capacity := by
  rw [made.grown.takes.tables]

theorem usedBoot (s : Word) : Used v.tables.freeMap s ↔ s = rootDirSector ∨ s = freeMapSector := by
  have four := made.four
  rw [made.booted]
  exact used_boot_iff (by omega)

theorem used (s : Word) : Used w.tables.freeMap s ↔ s ∈ taken ∨ s = rootDirSector ∨ s = freeMapSector := by
  rw [made.grown.takes.used_iff made.boundedMap, made.usedBoot]

theorem fresh (member : s ∈ taken) : s ≠ rootDirSector ∧ s ≠ freeMapSector := by
  have unused := not_used_of_free made.boundedMap (made.grown.takes.mem_free member)
  rwa [made.usedBoot, not_or] at unused

theorem count : taken.length = File.empty.needs (byteCnt w.tables.freeMap.length) := by
  rw [made.length]
  exact made.grown.count

theorem isMap : (mapVolume w.tables.freeMap taken).files freeMapSector = some (v.mapFile taken) := by
  rw [mapVolume_files, made.length]

theorem perm : ((v.mapFile taken).sectors freeMapSector).Perm (freeMapSector :: taken) := by
  have perm := perm_grow freeMapSector made.count
  rwa [made.length] at perm

theorem sound : (mapVolume w.tables.freeMap taken).Sound := by
  apply sound_mapVolume (made.length ▸ made.bounded) made.count
  · intro s member
    rw [made.used]
    cases mem_cons.mp member with
    | inl same => exact .inr (.inr same)
    | inr taken => exact .inl taken
  · exact nodup_cons.mpr ⟨fun member => (made.fresh member).2 rfl, made.grown.takes.nodup made.boundedMap⟩

theorem onDisk (member : s ∈ (v.mapFile taken).sectors freeMapSector) :
    s.toNat < w.tables.capacity := by
  rw [made.sameCapacity, ← made.length]
  exact used_lt (made.sound.used made.isMap member)

theorem holds : Holds w.sectors freeMapSector (v.mapFile taken) :=
  made.grown.holds_new made.sized

theorem accessible : Accessible w.withMapFile (openedFreeMap (w.sectors freeMapSector).inodeDisk).data
    (v.mapFile taken).blocks (v.mapFile taken).data :=
  .of_onDisk made.holds.chain (fun _ member => made.onDisk (mem_cons_of_mem _ member))
    (made.sameCapacity ▸ made.bounded) (nodup_cons.mp (made.sound.distinct made.isMap)).2

theorem owned (s : Word) : ((mapVolume w.tables.freeMap taken).setMap w.tables.freeMap).Owned s ↔
    s = freeMapSector ∨ s ∈ taken := by
  constructor
  · intro ⟨head, f, found, member⟩
    obtain ⟨f', before, rfl⟩ := files_setMap.mp found
    obtain ⟨rfl, rfl⟩ := files_mapVolume before
    rw [File.mapStored_sectors, made.length] at member
    exact mem_cons.mp (made.perm.mem_iff.mp member)
  · intro member
    refine ⟨freeMapSector, _, files_setMap.mpr ⟨_, made.isMap, rfl⟩, ?_⟩
    rw [File.mapStored_sectors]
    exact made.perm.mem_iff.mpr (mem_cons.mpr member)

/-- The file has room for the free map. -/
theorem covered : byteCnt v.tables.capacity ≤ 512 * (v.mapFile taken).data.length :=
  made.sound.covered made.isMap

theorem room : mapSectors v.tables.capacity + (freeSectors w.tables.freeMap).length = v.tables.capacity - 2 := by
  have all := congrArg List.length made.grown.takes.free
  rwa [List.length_append, length_free_boot made.booted (le_trans (by decide) made.four), made.grown.count] at all

theorem mapMade (tail : TailOnDisk w.tables.capacity
      (w.sectors ((v.mapFile taken).last freeMapSector)).inodeDisk 0
      (v.mapFile taken).data.length (bytesToSectors (byteCnt w.tables.capacity))) :
    MapMade v (w.withMapFile.synced (v.mapFile taken).data)
      ((mapVolume w.tables.freeMap taken).setMap w.tables.freeMap) := by
  have unlocked : v.tables.inodeSysLock = false := by rw [made.booted]; rfl
  have sound := made.sound
  have isMap := made.isMap
  have rep := represents_mapVolume unlocked made.size made.sized made.grown tail
  constructor
  case toFresh =>
    constructor
    case represents => exact rep.setMap sound isMap rfl
    case sound => exact sound.setMap rfl sound.used
    case stored =>
      refine ⟨_, files_setMap.mpr ⟨_, isMap, rfl⟩, ?_⟩
      have fits : 0 + (bitmapBytes w.tables.freeMap).length ≤
          (v.mapFile taken).bytes.length := by
        rw [length_bitmapBytes, made.length, zero_add, made.holds.length_bytes]
        exact made.covered
      have stored := slice_splice _ fits
      rw [length_bitmapBytes] at stored
      exact stored
    case kept =>
      intro s free
      have bytes : (w.withMapFile.synced (v.mapFile taken).data).sectors s =
          w.sectors s := by
        apply storeAcross_other
        intro inData
        exact not_used_of_free sound.bounded free (sound.used isMap (File.data_mem inData))
      rw [bytes]
      exact made.grown.free_kept made.boundedMap (fun _ member => nomatch member)
        ((made.usedBoot _).mpr (.inr rfl)) free
  case capacity => exact made.sameCapacity
  case handles => rfl
  case live =>
    intro s
    constructor
    · intro ⟨f, found⟩
      obtain ⟨f', before, -⟩ := files_setMap.mp found
      exact (files_mapVolume before).1
    · rintro rfl
      exact ⟨_, files_setMap.mpr ⟨_, isMap, rfl⟩⟩
  case used =>
    intro s
    rw [made.owned]
    show Used w.tables.freeMap s ↔ _
    rw [made.used]
    tauto
  case loose =>
    rw [made.owned, not_or]
    exact ⟨by decide, fun member => (made.fresh member).1 rfl⟩
  case room => exact made.room

end MapGrown

/-- Where the free map fills its last block, writing it reads on, whatever `indirect` names. -/
theorem freeMapCreate_makes (booted : v.tables = bootTables v.tables.capacity) (bounded : v.tables.capacity ≤ 2 ^ 28)
    (four : 4 ≤ v.tables.capacity) :
    Yields (¬ 123 ∣ bytesToSectors (byteCnt v.tables.capacity)) freeMapCreate v fun _ w => ∃ a, MapMade v w a := by
  have size := (closed_boot booted).size
  have creates : Yields (¬ 123 ∣ bytesToSectors (byteCnt v.tables.capacity))
      (inodeCreate freeMapSector (byteCnt v.tables.capacity) 0) v fun done w => done = true ∧
        ∃ taken, MapGrown v w taken := by
    have grows : Yields (¬ 123 ∣ bytesToSectors (byteCnt v.tables.capacity))
        (inodeCreate freeMapSector (byteCnt v.tables.capacity) 0) v _ :=
      @inodeCreate_grows v booted _ bounded (le_of_succ_le four)
    generalize inodeCreate freeMapSector (byteCnt v.tables.capacity) 0 = create at grows ⊢
    apply grows.mono
    intro done w made
    obtain ⟨isDone, sized, taken, grown⟩ := made
    exact ⟨isDone, taken, booted, bounded, four, sized, grown⟩
  unfold freeMapCreate
  -- its result is all that counts; unfolded, its check for overflow would be evaluated
  generalize inodeCreate = create at creates ⊢
  apply getTables_returns.bind
  rw [size]
  apply creates.bind
  intro done w made
  obtain ⟨rfl, taken, made⟩ := made
  have none : w.tables.openInodes = [] := by rw [made.grown.takes.tables, booted]; rfl
  have capacity := made.sameCapacity
  have sized : w.tables.freeMap.length = w.tables.capacity := made.length.trans capacity.symm
  apply ((openFreeMapFile_yields none).weaken fun _ => by omega).bind
  intro _ after file
  rw [file.1]
  have length : (openedFreeMap (w.sectors freeMapSector).inodeDisk).data.length.toNat = byteCnt v.tables.capacity := by
    show (w.sectors freeMapSector).inodeDisk.length.toNat = _
    rw [made.sized, BitVec.toNat_ofNat]
    unfold byteCnt
    omega
  have writes := bitmapWrite_yields (v := w.withMapFile) rfl (find_openedFreeMap _) rfl
    (by rw [length]; exact byteCnt_pos (by omega)) made.accessible
    (by show byteCnt w.tables.freeMap.length ≤ _; rw [made.length]; exact made.covered)
    (by show 0 < w.tables.freeMap.length; omega)
  have tailEq : lastDisk w.withMapFile.sectors (openedFreeMap (w.sectors freeMapSector).inodeDisk).data
      (v.mapFile taken).blocks =
        (w.sectors ((v.mapFile taken).last freeMapSector)).inodeDisk :=
    Holds.lastDisk _ _
  rw [tailEq] at writes
  apply (writes.weaken ?_).bind
  · intro success after wrote
    obtain ⟨rfl, rfl, tail⟩ := wrote
    refine Yields.pure ⟨_, made.mapMade ?_⟩
    have sameSize : w.withMapFile.tables.freeMap.length = w.tables.capacity := sized
    rwa [sameSize] at tail
  · intro odd whole divides
    have sameSize : w.withMapFile.tables.freeMap.length = v.tables.capacity := made.length
    rw [sameSize] at whole
    rw [zero_add, ← whole] at divides
    exact absurd divides odd

/-! ## The root directory -/

/-- `inode_close` of the last pointer to an inode that has not been removed. -/
theorem inodeClose_returns {sector : Word} {inode : Inode}
    (found : v.tables.openInodes.find? (fun i => i.sector == sector) = some inode) (last : inode.openCnt = 1)
    (kept : inode.removed = false) :
    Returns safe (inodeClose sector) v () (v.withInodes (v.tables.openInodes.filter fun i => i.sector != sector)) := by
  apply (findInode_returns found).bind
  rw [if_pos last]
  apply (modifyTables_returns _).bind
  rw [kept]
  exact Returns.pure

/-- The root directory is one sector long. -/
theorem Fresh.writeInside {handle : Handle} {buffer : List UInt8} {offset : Nat} (fresh : Fresh v w a)
    (notMap : head ≠ freeMapSector) (found : a.files head = some f) (isOpen : a.handle head = some handle)
    (allowed : handle.denyWriteCnt = 0) (positive : 0 < buffer.length) (inside : offset + buffer.length ≤ f.length)
    (odd : ¬ 123 ∣ f.data.length) :
    Yields safe (inodeWriteAt head buffer offset) w fun n x => n = buffer.length ∧
      Fresh v x (a.overwrite head offset buffer) := by
  have covered := fresh.sound.covered found
  have notPast : ¬ (offset ≥ f.length ∧ buffer.length > 0) := by omega
  have fits : Fits w a head f buffer.length offset := ⟨fun _ => by omega, fun past _ => by omega⟩
  have target : a.target f buffer.length offset = f := if_neg notPast
  have ends : WriteEnds w a head f buffer.length offset := by
    unfold WriteEnds
    rw [if_neg (ne_of_gt positive), target]
    exact fun divides => absurd divides odd
  have written : a.write head buffer offset = a.overwrite head offset buffer := write_inside found notPast
  have overwritten := overwrite_eq found offset buffer
  have soundAfter : (a.write head buffer offset).Sound := fresh.sound.write found fun past _ => by omega
  rw [written] at soundAfter
  apply ((inodeWriteAt_represents fresh.represents fresh.sound isOpen allowed found fits).weaken fun _ => ends).mono
  intro n x wrote
  obtain ⟨rfl, rep, spared⟩ := wrote
  rw [written] at rep
  refine ⟨rfl, rep, soundAfter, ?_, ?_⟩
  · obtain ⟨mapped, isMap, stored⟩ := fresh.stored
    rw [overwritten]
    exact ⟨mapped, (files_put_other a _ (Ne.symm notMap)).trans isMap, stored⟩
  · intro s free
    rw [overwritten] at free rep
    have kept := spared.free s (by rw [rep.freeMap]; exact free)
    rw [kept]
    exact fresh.kept s free

theorem Volume.Stored.take (stored : a.Stored) (rep : Represents w a) (sound : a.Sound) : (a.take taken).Stored := by
  obtain ⟨f, found, same⟩ := stored
  refine ⟨a.kept taken freeMapSector f, files_take.mpr ⟨f, found, rfl⟩, ?_⟩
  show slice (a.kept taken freeMapSector f).bytes 0 (byteCnt (markAll a.freeMap taken).length) =
    bitmapBytes (markAll a.freeMap taken)
  rw [length_markAll]
  by_cases none : taken = []
  · subst none
    exact same
  have long := sound.map_long found
  have covered := sound.covered found
  have fits : 0 + (bitmapBytes (markAll a.freeMap taken)).length ≤ f.bytes.length := by
    rw [length_bitmapBytes, length_markAll, (rep.file found).length_bytes]
    omega
  have stored := slice_splice _ fits
  rw [length_bitmapBytes, length_markAll] at stored
  have kept : a.kept taken freeMapSector f = f.overwrite 0 (bitmapBytes (markAll a.freeMap taken)) :=
    (if_neg none).trans (if_pos rfl)
  rw [kept]
  exact stored

theorem Fresh.create {length : Nat} {info : Word} (fresh : Fresh v w a) (notMap : head ≠ freeMapSector)
    (used : Used a.freeMap head) (loose : ¬ a.Owned head) (small : length + 512 < 2 ^ 31)
    (enough : File.empty.needs length ≤ (freeSectors a.freeMap).length) :
    Yields safe (inodeCreate head length info) w fun done x => done = true ∧ Fresh v x (a.create head length) := by
  have creates : Yields safe (inodeCreate head length info) w _ :=
    @inodeCreate_represents _ w a head fresh.represents length info fresh.sound used loose small enough
  generalize inodeCreate head length info = program at creates ⊢
  apply creates.mono
  intro done x made
  obtain ⟨rfl, rep, spared, -⟩ := made
  refine ⟨rfl, rep, fresh.sound.create used loose small enough, ?_, ?_⟩
  · obtain ⟨f, found, same⟩ := fresh.stored.take fresh.represents fresh.sound
    exact ⟨f, (files_put_other _ _ (Ne.symm notMap)).trans found, same⟩
  · intro s free
    rw [spared.free s (by rw [rep.freeMap]; exact free)]
    apply fresh.kept
    exact free_of_markAll fresh.sound.bounded (a.next_subset _) free

/-- What there is while the root directory is open. -/
structure RootOpen (v w : View) (a : Volume) : Prop extends Fresh v w a where
  capacity : w.tables.capacity = v.tables.capacity
  handles : a.handles = [{ sector := rootDirSector, openCnt := 1, removed := false, denyWriteCnt := 0 },
    { sector := freeMapSector, openCnt := 1, removed := false, denyWriteCnt := 0 }]
  live : ∀ s, a.Live s ↔ s = freeMapSector ∨ s = rootDirSector
  root : ∃ f, a.files rootDirSector = some f ∧ f.length = 16 * entrySize
  room : mapSectors v.tables.capacity + 1 + (freeSectors a.freeMap).length = v.tables.capacity - 2

theorem root_notMap : rootDirSector ≠ freeMapSector := by
  decide

/-- The volume with a root directory. -/
abbrev Volume.withRoot (a : Volume) : Volume :=
  a.create rootDirSector (16 * entrySize)

theorem rootCreate_opens (made : MapMade v w a) (four : 4 ≤ v.tables.capacity) :
    Yields safe (inodeCreate rootDirSector (16 * entrySize) 1) w fun done x => done = true ∧
      Yields safe (inodeOpen rootDirSector) x fun _ y => ∃ b, RootOpen v y b := by
  have needs : File.empty.needs (16 * entrySize) = 1 := by decide
  have enough : File.empty.needs (16 * entrySize) ≤ (freeSectors a.freeMap).length := by
    have room := made.room
    have less := mapSectors_lt four
    omega
  have small : 16 * entrySize + 512 < 2 ^ 31 := by
    unfold entrySize
    omega
  have creates : Yields safe (inodeCreate rootDirSector (16 * entrySize) 1) w _ :=
    @Fresh.create _ v w a rootDirSector (16 * entrySize) 1 made.toFresh root_notMap ((made.used _).mpr (.inl rfl))
      made.loose small enough
  generalize inodeCreate rootDirSector (16 * entrySize) 1 = program at creates ⊢
  apply creates.mono
  intro done x created
  obtain ⟨rfl, fresh⟩ := created
  refine ⟨rfl, ?_⟩
  have found : a.withRoot.files rootDirSector =
      some (File.empty.grow (16 * entrySize) (a.next (File.empty.needs (16 * entrySize)))) := files_put_self _ _ _
  have handles : a.withRoot.handles = _ := made.handles
  apply (inodeOpen_represents fresh.represents fresh.sound found).mono
  intro _ y opened
  obtain ⟨rep, same⟩ := opened
  have closed : a.withRoot.handle rootDirSector = none := by
    unfold handle
    rw [handles]
    rfl
  have sound := fresh.sound.opened found
  simp only [Volume.opened, closed, handles] at rep sound
  have left : 1 + (freeSectors a.withRoot.freeMap).length = (freeSectors a.freeMap).length := by
    have taken := freeSectors_markAll made.sound.bounded (File.empty.needs (16 * entrySize))
    have free : freeSectors a.withRoot.freeMap = _ := taken
    rw [free, length_drop, needs]
    omega
  have room := made.room
  refine ⟨_, ⟨rep, sound, fresh.stored, fun s free => ?_⟩, ?_, rfl, ?_, ⟨_, found, rfl⟩, ?_⟩
  · rw [same]
    exact fresh.kept s free
  · rw [rep.capacity, ← made.capacity, made.represents.capacity]
    exact length_markAll _ _
  · intro s
    have live : a.withRoot.Live s ↔ _ := live_create a (16 * entrySize)
    rwa [made.live, or_comm] at live
  · show _ + (freeSectors a.withRoot.freeMap).length = _
    omega

namespace RootOpen

variable {buffer : List UInt8} {offset : Nat}

theorem handle (isOpen : RootOpen v w a) :
    a.handle rootDirSector = some { sector := rootDirSector, openCnt := 1, removed := false, denyWriteCnt := 0 } := by
  unfold Volume.handle
  rw [isOpen.handles]
  rfl

theorem write (isOpen : RootOpen v w a) (positive : 0 < buffer.length)
    (inside : offset + buffer.length ≤ 16 * entrySize) :
    Yields safe (inodeWriteAt rootDirSector buffer offset) w fun n x => n = buffer.length ∧ ∃ b, RootOpen v x b := by
  obtain ⟨f, found, length⟩ := isOpen.root
  have odd : ¬ 123 ∣ f.data.length := by
    rw [isOpen.sound.count found, length]
    decide
  apply (isOpen.toFresh.writeInside root_notMap found isOpen.handle rfl positive (length ▸ inside) odd).mono
  intro n x wrote
  obtain ⟨rfl, fresh⟩ := wrote
  have overwritten := overwrite_eq found offset buffer
  have live := fun s => live_overwrite (s := s) a rootDirSector offset buffer
  rw [overwritten] at fresh live
  refine ⟨rfl, _, fresh, ?_, isOpen.handles, fun s => (live s).trans (isOpen.live s),
    ⟨_, files_put_self _ _ _, length⟩, isOpen.room⟩
  rw [fresh.represents.capacity, ← isOpen.capacity, isOpen.represents.capacity]
  rfl

end RootOpen

/-- What formatting leaves. -/
structure Formatted (v w : View) (a : Volume) : Prop extends Fresh v w a where
  capacity : w.tables.capacity = v.tables.capacity
  handles : a.handles = [{ sector := freeMapSector, openCnt := 1, removed := false, denyWriteCnt := 0 }]
  live : ∀ s, a.Live s ↔ s = freeMapSector ∨ s = rootDirSector
  room : mapSectors v.tables.capacity + 1 + (freeSectors a.freeMap).length = v.tables.capacity - 2

theorem RootOpen.close (isOpen : RootOpen v w a) :
    Yields safe (inodeClose rootDirSector) w fun _ x => ∃ b, Formatted v x b := by
  obtain ⟨inode, found, same, -⟩ := isOpen.represents.exists_inode isOpen.handle
  apply (inodeClose_returns found (congrArg Handle.openCnt same) (congrArg Handle.removed same)).yields
  have handles : (w.tables.openInodes.map Inode.handle).filter (fun h => h.sector != rootDirSector) = _ :=
    congrArg _ (isOpen.represents.handles.trans isOpen.handles)
  rw [filter_map] at handles
  have rep := isOpen.represents.withInodes handles fun inode member =>
    isOpen.represents.cached inode (mem_of_mem_filter member)
  have sound := (isOpen.sound.filterHandles root_notMap).1
  rw [isOpen.handles] at sound
  exact ⟨_, ⟨rep, sound, isOpen.stored, isOpen.kept⟩, isOpen.capacity, rfl, isOpen.live, isOpen.room⟩

theorem rootDirCreate_yields (made : MapMade v w a) (four : 4 ≤ v.tables.capacity) (dotSize : dot.length = entrySize)
    (dotDotSize : dotDot.length = entrySize) :
    Yields safe (rootDirCreate dot dotDot) w fun _ x => ∃ b, Formatted v x b := by
  have creates : Yields safe (inodeCreate rootDirSector (16 * entrySize) 1) w _ := rootCreate_opens made four
  have positive : 0 < entrySize := by decide
  unfold rootDirCreate
  generalize inodeCreate rootDirSector (16 * entrySize) 1 = program at creates ⊢
  apply creates.bind
  intro done x created
  obtain ⟨rfl, opens⟩ := created
  rw [if_pos rfl]
  apply opens.bind
  intro _ y opened
  obtain ⟨b, opened⟩ := opened
  apply (opened.write (by omega) (by omega)).bind
  intro n z wrote
  obtain ⟨rfl, c, opened⟩ := wrote
  rw [if_pos (congrArg Nat.cast dotSize)]
  apply (opened.write (by omega) (by omega)).bind
  intro n z wrote
  obtain ⟨rfl, d, opened⟩ := wrote
  rw [if_pos (congrArg Nat.cast dotDotSize)]
  exact opened.close

/-! ## Opening the free map again -/

theorem Formatted.reopen (formatted : Formatted v w a) :
    Yields safe (do freeMapClose; freeMapOpen) w fun _ x => Formatted v x a := by
  have rep := formatted.represents
  have sound := formatted.sound
  obtain ⟨f, found, stored⟩ := formatted.stored
  have long := sound.map_long found
  have handle : a.handle freeMapSector = _ := congrArg (find? _) formatted.handles
  obtain ⟨inode, isOpen, same, -⟩ := rep.exists_inode handle
  have none : (w.tables.openInodes.filter fun i => i.sector != freeMapSector) = [] := by
    have all : (w.tables.openInodes.map Inode.handle).filter (fun h => h.sector != freeMapSector) = [] := by
      rw [rep.handles, formatted.handles]
      rfl
    rw [filter_map] at all
    exact map_eq_nil_iff.mp all
  have closes : Returns safe freeMapClose w () (w.withInodes []) := by
    apply getTables_returns.bind
    rw [rep.mapFile]
    have closed : Returns safe (inodeClose freeMapSector) w () _ :=
      inodeClose_returns isOpen (congrArg Handle.openCnt same) (congrArg Handle.removed same)
    rwa [none] at closed
  have file := rep.accessible sound found
  have length := rep.length_toNat sound found
  have positive : 0 < w.tables.capacity := lt_of_le_of_lt (zero_le _) (rep.onDisk sound found mem_cons_self)
  apply closes.bind
  have opens : Yields _ freeMapOpen (w.withInodes []) _ := freeMapOpen_yields (v := w.withInodes [])
    ⟨rfl, rep.freeMap ▸ rep.capacity.symm, rep.unlocked⟩ { file with }
    (by show _ = bytesToSectors (w.sectors freeMapSector).inodeDisk.length.toNat; rw [length]; exact sound.count found)
    (by show byteCnt w.tables.capacity ≤ (w.sectors freeMapSector).inodeDisk.length.toNat
        rw [length, rep.capacity]; exact long)
  apply (opens.weaken fun _ => ⟨positive, ?_⟩).mono
  · intro _ x opened
    obtain ⟨rfl, -⟩ := opened
    have bits : bitmapOfBytes w.tables.capacity (slice (bytesOf w.sectors f.data) 0 (byteCnt w.tables.capacity)) =
        a.freeMap := by
      rw [(rep.file found).bytes, rep.capacity, stored, bitmapOfBytes_bitmapBytes]
    have sameView : (w.withInodes []).withMapFile.withMap (bitmapOfBytes w.tables.capacity
        (slice (bytesOf w.sectors f.data) 0 (byteCnt w.tables.capacity))) =
        w.withInodes [openedFreeMap (w.sectors freeMapSector).inodeDisk] := by
      rw [bits, ← rep.freeMap]
      unfold View.withMapFile View.withMap View.withInodes
      dsimp only
      rw [← rep.mapFile]
    have cached : ∀ inode ∈ [openedFreeMap (w.sectors freeMapSector).inodeDisk],
        inode.data = (w.sectors inode.sector).inodeDisk := by
      intro inode member
      rw [mem_singleton.mp member]
      rfl
    have again := rep.withInodes rfl cached
    have sameVolume : { a with handles := [openedFreeMap (w.sectors freeMapSector).inodeDisk].map Inode.handle } =
        a := by
      cases a
      dsimp only
      congr 1
      exact formatted.handles.symm
    rw [sameVolume] at again
    refine ⟨⟨?_, sound, formatted.stored, formatted.kept⟩, formatted.capacity, formatted.handles, formatted.live,
      formatted.room⟩
    rwa [← sameView] at again
  · show TailOnDisk w.tables.capacity (lastDisk w.sectors (w.sectors freeMapSector).inodeDisk f.blocks) _ _ _
    rw [Holds.lastDisk]
    exact rep.tail found

/-- What a format leaves, on a disk of any contents that has four sectors or more. -/
theorem filesysFormat_yields (booted : v.tables = bootTables v.tables.capacity) (bounded : v.tables.capacity ≤ 2 ^ 28)
    (four : 4 ≤ v.tables.capacity) (dotSize : dot.length = entrySize) (dotDotSize : dotDot.length = entrySize) :
    Yields (¬ 123 ∣ bytesToSectors (byteCnt v.tables.capacity)) (filesysFormat dot dotDot) v fun _ w =>
      ∃ a, Formatted v w a := by
  have creates : Yields _ freeMapCreate v _ := @freeMapCreate_makes v booted bounded four
  have roots : ∀ {w a}, MapMade v w a → Yields (¬ 123 ∣ bytesToSectors (byteCnt v.tables.capacity))
      (rootDirCreate dot dotDot) w _ := fun made => rootDirCreate_yields made four dotSize dotDotSize
  unfold filesysFormat doFormat
  -- the checks for overflow would be evaluated
  generalize freeMapCreate = create at creates ⊢
  generalize rootDirCreate dot dotDot = root at roots ⊢
  simp only [bind_assoc]
  apply creates.bind
  intro _ w made
  obtain ⟨a, made⟩ := made
  apply (roots made).bind
  intro _ x formatted
  obtain ⟨b, formatted⟩ := formatted
  exact formatted.reopen.mono fun _ y again => ⟨b, again⟩

/-! ## The world of a new disk -/

/-- What there is after a format: the free map file, which the inode layer holds, and the root directory. -/
def newWorld (fs : FileSys) : World where
  fs := fs
  live := [freeMapSector, rootDirSector]
  held := []

theorem Formatted.models (formatted : Formatted v (view fs) a) : Models (newWorld fs) a := by
  refine ⟨formatted.represents, formatted.sound, ?_, ?_⟩
  · intro handle member
    rw [formatted.handles] at member
    rw [mem_singleton.mp member]
  · constructor
    case live =>
      intro s
      rw [formatted.live]
      simp [newWorld]
    case once =>
      show [freeMapSector, rootDirSector].Nodup
      decide
    case counted =>
      intro s
      unfold handle
      rw [formatted.handles]
      by_cases isMap : s = freeMapSector
      · rw [if_pos isMap, isMap]
        rfl
      · rw [if_neg isMap, find?_cons_of_neg (by simpa using Ne.symm isMap), find?_nil]
        rfl

/-- A disk of zeros, before it is formatted. -/
def blankFileSys (capacity : Nat) : FileSys where
  tables := bootTables capacity
  cache := bufferCacheInit (.boot fun _ => .zeros)
  coherent := coherent_init _

/-- The entries of the root directory are of no interest here. -/
def someEntry : List UInt8 :=
  replicate entrySize 0

theorem blankFileSys_formats (bounded : capacity ≤ 2 ^ 28) (four : 4 ≤ capacity)
    (odd : ¬ 123 ∣ bytesToSectors (byteCnt capacity)) :
    ∃ fs a, filesysFormat someEntry someEntry (blankFileSys capacity) = some ((), fs) ∧
      Formatted (view (blankFileSys capacity)) (view fs) a := by
  have size : someEntry.length = entrySize := length_replicate
  have formats : Yields _ (filesysFormat someEntry someEntry) (view (blankFileSys capacity)) _ :=
    @filesysFormat_yields (view (blankFileSys capacity)) someEntry someEntry rfl bounded four size size
  obtain ⟨_, fs, ran, a, formatted⟩ := formats.ends odd
  exact ⟨fs, a, ran, formatted⟩

theorem openFile_keeps (rep : Represents (view fs) a) (sound : a.Sound) (found : a.files head = some f) :
    ∃ opened, (FileCall.open head).perform fs = some (.done, opened) ∧ (view opened).sectors = (view fs).sectors := by
  have opens : Yields True (FileCall.open head).perform (view fs) fun reply w =>
      reply = .done ∧ w.sectors = (view fs).sectors := by
    apply (inodeOpen_represents rep sound found).bind
    intro _ w opened
    exact Yields.pure ⟨rfl, opened.2⟩
  obtain ⟨reply, opened, ran, rfl, same⟩ := opens.ends trivial
  exact ⟨opened, ran, same⟩

/-- A file of zeros that has been made on a new disk of zeros, and opened. -/
structure NewFile (capacity total : Nat) (w : World) (a : Volume) (head : Word) (f : File) : Prop where
  models : Models w a
  held : w.held = [head]
  live : w.live = [head, freeMapSector, rootDirSector]
  found : a.files head = some f
  length : f.length = total
  unset : ((view w.fs).sectors (f.last head)).inodeDisk.indirect = 0
  clean : ∀ s ∈ freeSectors a.freeMap, (view w.fs).sectors s = .zeros
  room : mapSectors capacity + 2 + growthSectors 0 (bytesToSectors total) + (freeSectors a.freeMap).length =
    capacity - 2

theorem exists_newFile (bounded : capacity ≤ 2 ^ 28) (four : 4 ≤ capacity)
    (odd : ¬ 123 ∣ bytesToSectors (byteCnt capacity)) (small : total + 512 < 2 ^ 31)
    (room : mapSectors capacity + 2 + growthSectors 0 (bytesToSectors total) ≤ capacity - 2) :
    ∃ w a head f, NewFile capacity total w a head f ∧ ((view w.fs).sectors head).inodeDisk.info = 0 := by
  obtain ⟨fs, a, -, formatted⟩ := blankFileSys_formats bounded four odd
  have left : mapSectors capacity + 1 + (freeSectors a.freeMap).length = capacity - 2 := formatted.room
  have models := formatted.models
  have zeros : ∀ s ∈ freeSectors a.freeMap, (view fs).sectors s = .zeros := by
    intro s free
    rw [formatted.kept s free]
    exact congrFun (logical_init _) s
  rcases free : freeSectors a.freeMap with _ | ⟨head, others⟩
  · rw [free, length_nil] at left
    omega
  rw [free, length_cons] at left
  have fits : a.Fits (view fs) (.create total 0) := by
    refine ⟨small, ?_⟩
    rw [free, length_cons]
    show 1 + growthSectors 0 (bytesToSectors total) ≤ _
    omega
  have calm : (newWorld fs).Calm (.create total 0) := by
    have same : fs.tables.freeMap = a.freeMap := formatted.represents.freeMap
    unfold World.Calm
    rw [show (newWorld fs).fs = fs from rfl, same]
    exact fits
  have creates : Yields True (FileCall.create total 0).perform (view fs) _ :=
    @create_represents _ (view fs) a total 0 formatted.represents formatted.sound fits
  obtain ⟨reply, made, performed, replied, repMade, spared⟩ := creates.ends trivial
  obtain ⟨spared, infoSet, lastFree, wereFree⟩ := spared free
  have answer : a.reply (.create total 0) = .made head := by simp [Volume.reply, free]
  have after : a.after (.create total 0) = (a.take [head]).create head total := by simp [Volume.after, free]
  rw [answer] at replied
  have created : (newWorld fs).perform (.create total 0) =
      some (.made head, { fs := made, live := [head, freeMapSector, rootDirSector], held := [] }) := by
    rw [World.perform, show (newWorld fs).fs = fs from rfl, performed, replied]
    rfl
  have legal : (newWorld fs).Legal (.create total 0) := trivial
  obtain ⟨-, modelsMade⟩ := models.after legal calm created
  rw [after] at modelsMade repMade
  have found : ((a.take [head]).create head total).files head =
      some (File.empty.grow total ((a.take [head]).next (File.empty.needs total))) := files_put_self _ _ _
  obtain ⟨opened, performedOpen, sameSectors⟩ := openFile_keeps repMade modelsMade.sound found
  have openedWorld :
      World.perform (.open head) { fs := made, live := [head, freeMapSector, rootDirSector], held := [] } =
      some (.done, { fs := opened, live := [head, freeMapSector, rootDirSector], held := [head] }) := by
    rw [World.perform, performedOpen]
    rfl
  have mayOpen : World.Legal { fs := made, live := [head, freeMapSector, rootDirSector], held := [] } (.open head) :=
    mem_cons_self
  obtain ⟨-, modelsOpen⟩ := modelsMade.after mayOpen trivial openedWorld
  replace modelsOpen : Models _ (((a.take [head]).create head total).opened head) := modelsOpen
  have sameMap := freeMap_opened ((a.take [head]).create head total) head
  refine ⟨_, _, head, _, ⟨modelsOpen, rfl, rfl, by rw [files_opened, found], rfl, ?_, ?_, ?_⟩,
    by rw [sameSectors, infoSet]⟩
  · show ((view opened).sectors _).inodeDisk.indirect = 0
    rw [sameSectors, spared.indirect, zeros _ lastFree, inodeDisk_zeros_indirect]
  · intro s later
    rw [sameMap, ← repMade.freeMap] at later
    show (view opened).sectors s = _
    rw [sameSectors, spared.free s later]
    exact zeros s (wereFree s later)
  · rw [sameMap]
    have remaining : freeSectors ((a.take [head]).create head total).freeMap = _ :=
      freeSectors_markAll (formatted.sound.fresh free).1.bounded (File.empty.needs total)
    rw [remaining, length_drop, (formatted.sound.fresh free).2.2.2]
    show _ + (others.length - growthSectors 0 (bytesToSectors total)) = _
    omega

/-- A file of one byte. -/
theorem exists_oneByte : ∃ w a head f, NewFile 64 1 w a head f := by
  obtain ⟨w, a, head, f, new, -⟩ :=
    @exists_newFile 64 1 (by decide) (by decide) (by decide) (by decide) (by decide)
  exact ⟨w, a, head, f, new⟩

theorem NewFile.notMap {w : World} (new : NewFile capacity total w a head f) : head ≠ freeMapSector := by
  have once := new.models.linked.once
  rw [new.live] at once
  exact fun same => (nodup_cons.mp once).1 (same ▸ mem_cons_self)

end Pintos.Filesys
