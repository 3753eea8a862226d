import Pintos.Filesys.Format

/-! # Running out of sectors and of memory

`free_map_allocate` reports that no sector is free, but `allocate_inode_disk` does not look at what it returns:
a slot for which there is no sector keeps the number it held, and the sector of that number is filled with zeros.
`inode_write_at` looks at it when it takes a sector for a new block, and then returns with `inode_sys_lock` held.
-/

namespace Pintos.Filesys

open Library Kernel Function List Nat

variable {safe : Prop} {v w : View} {a : Volume} {head b previous info : Word} {f : File} {memory : List Activation}
  {startDirectIdx : Fin 123} {inode : Inode}

/-! ## No free sector -/

theorem freeMapAllocate_exhausted (full : freeSectors v.tables.freeMap = []) :
    Returns safe (freeMapAllocate 1) v none v := by
  unfold freeMapAllocate
  apply getTables_returns.bind
  rw [bitmapScanAndFlip_nil (map_eq_nil_iff.mp full)]
  exact Returns.pure

/-- Some sectors are filled with zeros. -/
def zeroAll (sectors : Word → Sector) (cleared : List Word) : Word → Sector :=
  fun s => if s ∈ cleared then .zeros else sectors s

theorem zeroAll_nil (sectors : Word → Sector) : zeroAll sectors [] = sectors := by
  funext s
  simp [zeroAll]

theorem zeroAll_cons (sectors : Word → Sector) (s : Word) (cleared : List Word) :
    zeroAll (update sectors s .zeros) cleared = zeroAll sectors (s :: cleared) := by
  funext t
  by_cases same : t = s
  · simp [zeroAll, same]
  · simp [zeroAll, same]

/-- The sectors that a block names in its slots from `i` on. -/
def InodeDisk.slots (disk : InodeDisk) (i count : Nat) : List Word :=
  (range' i count).map disk.slot

theorem allocateDirect_exhausted {i count : Nat} {disk : InodeDisk} (full : freeSectors v.tables.freeMap = [])
    (onDisk : ∀ s ∈ disk.slots i count, s.toNat < v.tables.capacity) :
    Returns safe (allocateDirect i disk count) v disk (v.withSectors (zeroAll v.sectors (disk.slots i count))) := by
  induction count generalizing i v with
  | zero =>
    have same : v.withSectors (zeroAll v.sectors (disk.slots i 0)) = v := by
      show v.withSectors (zeroAll v.sectors []) = v
      rw [zeroAll_nil]
      rfl
    rw [same]
    exact Returns.pure
  | succ count ih =>
    have all : disk.slots i (count + 1) = disk.slot i :: disk.slots (i + 1) count := rfl
    rw [all] at onDisk ⊢
    rw [allocateDirect]
    apply (freeMapAllocate_exhausted full).bind
    dsimp only
    apply (writeZeros_returns (onDisk _ mem_cons_self)).bind
    have later := @ih (v.withSectors (update v.sectors (disk.slot i) .zeros)) (i + 1) full
      fun s member => onDisk s (mem_cons_of_mem _ member)
    rw [← zeroAll_cons]
    exact later

/-- What `inode_create` writes to the block it fills while it finds no free sector. -/
def InodeDisk.claimed (disk : InodeDisk) (b : Word) (length : Nat) (info : Word) : InodeDisk :=
  { disk with length := BitVec.ofNat 32 length, sector := b, info := info, magic := inodeMagic }

/-- With no sector free, a file of one block is made of the sectors that its block happens to name. -/
theorem inodeCreate_exhausted {length : Nat} (unlocked : v.tables.inodeSysLock = false)
    (full : freeSectors v.tables.freeMap = []) (small : bytesToSectors length ≤ 123)
    (blockOnDisk : b.toNat < v.tables.capacity)
    (onDisk : ∀ s ∈ (v.sectors b).inodeDisk.slots 0 (bytesToSectors length), s.toNat < v.tables.capacity) :
    Returns safe (inodeCreate b length info) v true (v.withSectors (update
      (zeroAll v.sectors ((v.sectors b).inodeDisk.slots 0 (bytesToSectors length))) b
      (.ofInodeDisk ((v.sectors b).inodeDisk.claimed b length info)))) := by
  have short : ¬ length + 512 ≥ 2 ^ 31 := by
    unfold bytesToSectors at small
    omega
  have fits : ¬ bytesToSectors length + ((0 : Fin 123) : Nat) > 123 := not_lt.mpr small
  have number : ((0 : Fin 123) : Nat) + bytesToSectors length - ((0 : Fin 123) : Nat) = bytesToSectors length :=
    zero_add _
  have sameSlots : ((v.sectors b).inodeDisk.claimed b length info).slots 0 (bytesToSectors length) =
    (v.sectors b).inodeDisk.slots 0 (bytesToSectors length) := rfl
  rw [inodeCreate, inodeCreateIn, if_neg short, allocateInodeDiskIn, if_neg memory_available, if_neg memory_available]
  apply (lockAcquire_returns unlocked).bind
  apply (readInodeDisk_returns (v := v.withLock true) blockOnDisk).bind
  simp only [if_neg fits, number]
  have filled : Returns safe _ (v.withLock true) _ _ :=
    @allocateDirect_exhausted safe (v.withLock true) 0 (bytesToSectors length)
      ((v.sectors b).inodeDisk.claimed b length info) full onDisk
  apply filled.bind
  apply (writeInodeDisk_returns (v := (v.withLock true).withSectors _) blockOnDisk _).bind
  apply lockRelease_returns.bind
  rw [sameSlots]
  have same : ∀ sectors, (((v.withLock true).withSectors sectors).withLock false) = v.withSectors sectors := by
    intro sectors
    exact View.withLock_self (v := v.withSectors sectors) unlocked
  show Returns safe _ (((v.withLock true).withSectors _).withLock false) _ _
  rw [same]
  exact Returns.pure

/-- What `inode_create` recorded at `b` for a file of `length` bytes: the blocks after the first and the data sectors,
    each of them free before and in use afterwards. -/
structure Recorded (before after : View) (b : Word) (length : Nat) (blocks data : List Word) : Prop where
  chain : Chain after.sectors (after.sectors b).inodeDisk blocks data
  count : data.length = bytesToSectors length
  once : (blocks ++ data).Nodup
  free : ∀ s ∈ blocks ++ data, ¬ Used before.tables.freeMap s
  taken : ∀ s ∈ blocks ++ data, Used after.tables.freeMap s

theorem Grown.recorded {mapData taken : List Word} {length : Nat} (bounded : v.tables.freeMap.length ≤ 2 ^ 28)
    (grown : Grown mapData v w b 0 (bytesToSectors length) taken) :
    Recorded v w b length (carve 0 (bytesToSectors length) taken).1 (carve 0 (bytesToSectors length) taken).2 := by
  obtain ⟨count, perm⟩ := carve_spec grown.count
  have inTaken : ∀ s ∈ (carve 0 (bytesToSectors length) taken).1 ++ (carve 0 (bytesToSectors length) taken).2,
      s ∈ taken :=
    fun s member => perm.subset member
  refine ⟨grown.chain, count, perm.nodup_iff.mpr (grown.takes.nodup bounded), ?_, ?_⟩
  · intro s member
    exact not_used_of_free bounded (grown.takes.mem_free (inTaken s member))
  · intro s member
    exact (grown.takes.used_iff bounded).mpr (.inl (inTaken s member))

section Recorded

variable {fs : FileSys} {rest data : List Word} {length : Nat} (unlocked : fs.tables.inodeSysLock = false)
  (map : MapReady True (view fs) rest data) (inUse : Used fs.tables.freeMap b) (notBlock : b ∉ rest)
    (notData : b ∉ data)

include unlocked map inUse notBlock notData

/-- While the free sectors suffice, a file is made of sectors that were free, and no sector in use is written but that
    of the inode and those that hold the free map. -/
theorem inodeCreate_recorded (small : length + 512 < 2 ^ 31)
    (enough : growthSectors 0 (bytesToSectors length) ≤ (freeSectors fs.tables.freeMap).length) :
    ∃ after blocks sectors, inodeCreate b length info fs = some (true, after) ∧
      Recorded (view fs) (view after) b length blocks sectors ∧
      ∀ s, Used fs.tables.freeMap s → s ≠ b → s ∉ data → (view after).sectors s = (view fs).sectors s := by
  have bounded := map.boundedMap
  rw [inodeCreate, inodeCreateIn, if_neg (not_le.mpr small)]
  obtain ⟨done, after, ran, rfl, -, -, -, taken, grown⟩ := (@allocateInodeDisk_yields (bytesToSectors length)
    True (view fs) rest data b b length 0 info unlocked map inUse notData (extendable_of_notMem notBlock notData 0)
    enough).ends trivial
  refine ⟨after, _, _, ran, grown.recorded bounded, ?_⟩
  intro s used other notMap
  apply grown.takes.frame s notMap
  intro touched
  cases mem_cons.mp touched with
  | inl same => exact other same
  | inr new => exact not_used_of_free bounded (grown.takes.mem_free new) used

/-- A lack of free sectors is reported, and a file that is made consists of sectors that were free, exactly where the
    free sectors suffice: a lack of them is never reported. -/
theorem inodeCreate_records (granted : .noBlock ∉ memory) :
    ((¬ growthSectors 0 (bytesToSectors length) ≤ (freeSectors fs.tables.freeMap).length →
        ∃ after, inodeCreateIn memory b length info fs = some (false, after) ∧
          ∀ s, Used fs.tables.freeMap s → (view after).sectors s = (view fs).sectors s) ∧
      ∀ after, inodeCreateIn memory b length info fs = some (true, after) →
        ∃ blocks sectors, Recorded (view fs) (view after) b length blocks sectors ∧
          ∀ s, Used fs.tables.freeMap s → s ≠ b → s ∉ data → (view after).sectors s = (view fs).sectors s) ↔
    growthSectors 0 (bytesToSectors length) ≤ (freeSectors fs.tables.freeMap).length := by
  constructor
  · intro reported
    by_contra lacking
    obtain ⟨after, ran, -⟩ := reported.1 lacking
    exact granted ((inodeCreateIn_returned ran).2.2 rfl)
  · intro enough
    refine ⟨absurd enough, fun after ran => ?_⟩
    obtain ⟨small, run, -⟩ := inodeCreateIn_returned ran
    rw [inodeCreateIn_run (run.mp rfl)] at ran
    obtain ⟨made, blocks, sectors, created, recorded⟩ :=
      @inodeCreate_recorded b info fs rest data length unlocked map inUse notBlock notData small enough
    rw [created] at ran
    cases ran
    exact ⟨blocks, sectors, recorded⟩

end Recorded

theorem inodeCreate_records_example : ∃ fs head allocated after blocks sectors,
    freeMapAllocate 1 fs = some (some head, allocated) ∧ inodeCreate head 700 0 allocated = some (true, after) ∧
    Recorded (view allocated) (view after) head 700 blocks sectors := by
  obtain ⟨fs, a, -, formatted⟩ := @blankFileSys_formats 64 (by decide) (by decide) (by decide)
  have room : mapSectors 64 + 1 + (freeSectors a.freeMap).length = 64 - 2 := formatted.room
  have taken : mapSectors 64 = 1 := by decide
  have needs : growthSectors 0 (bytesToSectors 700) = 2 := by decide
  rcases free : freeSectors a.freeMap with _ | ⟨head, others⟩
  · rw [free, length_nil] at room
    omega
  rw [free, length_cons] at room
  have allocates : Yields True (freeMapAllocate 1) (view fs) _ :=
    freeMapAllocate_represents formatted.represents formatted.sound free
  obtain ⟨_, allocated, ran, rfl, rep, -⟩ := allocates.ends trivial
  obtain ⟨sound, used, loose, freeAfter⟩ := formatted.sound.fresh free
  obtain ⟨mapped, isMap, -⟩ := sound.map
  have notBlock : head ∉ mapped.blocks := fun block =>
    loose ⟨_, mapped, isMap, File.block_mem (mem_cons_of_mem _ block)⟩
  have notData : head ∉ mapped.data := fun inData => loose ⟨_, mapped, isMap, File.data_mem inData⟩
  have sameMap : allocated.tables.freeMap = (a.take [head]).freeMap := rep.freeMap
  have enough : growthSectors 0 (bytesToSectors 700) ≤ (freeSectors allocated.tables.freeMap).length := by
    rw [sameMap, freeAfter, needs]
    omega
  have map : MapReady True (view allocated) mapped.blocks mapped.data := rep.mapReady sound isMap
  obtain ⟨after, -, -, created, -⟩ := @inodeCreate_recorded head 0 allocated mapped.blocks mapped.data 700 rep.unlocked
    map (sameMap ▸ used) notBlock notData (by decide) enough
  obtain ⟨blocks, sectors, recorded, -⟩ := ((@inodeCreate_records head 0 [] allocated mapped.blocks mapped.data 700
    rep.unlocked map (sameMap ▸ used) notBlock notData not_mem_nil).mpr enough).2 after created
  exact ⟨fs, head, allocated, after, blocks, sectors, ran, created, recorded⟩

theorem slots_zeros : Sector.zeros.inodeDisk.slots 0 (bytesToSectors 512) = [freeMapSector] := by
  decide +kernel

theorem length_zeros : Sector.zeros.inodeDisk.length.toNat = 0 := by
  decide +kernel

/-- The last free sector of a disk becomes the inode of a file of 512 bytes.  Its slots are zeros, so the data of the
    new file is sector 0, where the inode of the free map was. -/
theorem inodeCreate_overwrites : ∃ fs a head allocated after, Represents (view fs) a ∧ a.Sound ∧
    freeMapAllocate 1 fs = some (some head, allocated) ∧ freeSectors allocated.tables.freeMap = [] ∧
    inodeCreate head 512 0 allocated = some (true, after) ∧ Used fs.tables.freeMap freeMapSector ∧
    (view after).sectors freeMapSector ≠ (view allocated).sectors freeMapSector := by
  obtain ⟨w, a, file, f, new, -⟩ := @exists_newFile 8 1024 (by decide) (by decide) (by decide) (by decide) (by decide)
  have rep := new.models.represents
  have sound := new.models.sound
  have room : mapSectors 8 + 2 + growthSectors 0 (bytesToSectors 1024) + (freeSectors a.freeMap).length = 8 - 2 :=
    new.room
  have counted : mapSectors 8 + 2 + growthSectors 0 (bytesToSectors 1024) = 5 := by decide
  have one : (freeSectors a.freeMap).length = 1 := by omega
  obtain ⟨head, free⟩ := length_eq_one_iff.mp one
  have allocates : Yields True (freeMapAllocate 1) (view w.fs) _ := freeMapAllocate_represents rep sound free
  obtain ⟨_, allocated, ran, rfl, repAfter, kept⟩ := allocates.ends trivial
  obtain ⟨soundAfter, used, loose, freeAfter⟩ := sound.fresh free
  have isFree : head ∈ freeSectors a.freeMap := free ▸ mem_cons_self
  have full : freeSectors allocated.tables.freeMap = [] := by
    rw [show allocated.tables.freeMap = (a.take [head]).freeMap from repAfter.freeMap, freeAfter]
  have block : (view allocated).sectors head = .zeros := by rw [kept head isFree, new.clean head isFree]
  obtain ⟨mapped, isMap, long⟩ := sound.map
  obtain ⟨mappedAfter, isMapAfter, longAfter⟩ := soundAfter.map
  have mapUsed : Used a.freeMap freeMapSector := sound.used isMap mem_cons_self
  have notMap : freeMapSector ≠ head := fun same => not_used_of_free sound.bounded isFree (same ▸ mapUsed)
  have mapOnDisk : freeMapSector.toNat < (view allocated).tables.capacity :=
    repAfter.onDisk soundAfter isMapAfter mem_cons_self
  have slots : ((view allocated).sectors head).inodeDisk.slots 0 (bytesToSectors 512) = [freeMapSector] := by
    rw [block, slots_zeros]
  have blockOnDisk : head.toNat < (view allocated).tables.capacity := by
    rw [repAfter.capacity]
    exact used_lt used
  have creates : Returns True (inodeCreate head 512 0) (view allocated) true _ :=
    @inodeCreate_exhausted True (view allocated) head 0 512 repAfter.unlocked full (by decide) blockOnDisk (by
      rw [slots]
      intro s member
      rw [mem_singleton.mp member]
      exact mapOnDisk)
  obtain ⟨_, after, created, rfl, seen⟩ := creates.ends trivial
  refine ⟨w.fs, a, head, allocated, after, rep, sound, ran, full, created, ?_, ?_⟩
  · rw [show w.fs.tables.freeMap = a.freeMap from rep.freeMap]
    exact mapUsed
  · have cleared : (view after).sectors freeMapSector = .zeros := by
      rw [seen, slots]
      show update _ head _ freeMapSector = _
      rw [update_of_ne notMap, zeroAll, if_pos mem_cons_self]
    rw [cleared]
    intro same
    have length := repAfter.length_toNat soundAfter isMapAfter
    rw [← same, length_zeros] at length
    have positive : 0 < byteCnt (a.take [head]).freeMap.length :=
      byteCnt_pos (lt_of_le_of_lt (zero_le _) (used_lt used))
    omega

/-! ## Writes that fail -/

theorem finish_true {newLength : Nat} :
    Yields False (extendFromIn.finish inode newLength) v fun done _ => done = true := by
  unfold extendFromIn.finish
  refine .skip fun _ _ => ?_
  refine .skip fun _ _ => ?_
  refine .skip fun _ _ => ?_
  refine .skip fun _ _ => ?_
  exact Yields.pure rfl

/-- The activations of `allocate_inode_disk` in a write that extends a file. -/
def Inode.nesting (inode : Inode) (newLength : Nat) : Nat :=
  let held := bytesToSectors inode.data.length.toNat
  if held < bytesToSectors newLength then activations (bytesToSectors newLength - held) (held % 123) else 0

theorem extendFromIn_result {newLength : Nat}
    (slot : startDirectIdx.val = bytesToSectors inode.data.length.toNat % 123) :
    Yields False (extendFromIn memory inode newLength startDirectIdx previous) v fun done _ =>
      done = true ↔ AllRun memory (inode.nesting newLength) := by
  unfold extendFromIn Inode.nesting
  dsimp only
  rw [← slot]
  split_ifs with more grows grows
  · refine .skip fun _ _ => ?_
    apply allocateInodeDiskIn_result.bind
    intro done _ returned
    rw [← returned.1]
    split_ifs with isDone
    · refine .skip fun _ _ => ?_
      apply finish_true.mono
      exact fun _ _ finished => iff_of_true finished isDone
    · refine .skip fun _ _ => ?_
      exact Yields.pure (iff_of_false Bool.false_ne_true isDone)
  · omega
  · omega
  · apply finish_true.mono
    exact fun _ _ finished => iff_of_true finished (by simp [AllRun])

/-- The loop that looks for the last block reads only. -/
theorem findPrevious_slot {startDirectIdx : Nat} {refer : InodeDisk} :
    Yields False (findPrevious startDirectIdx refer previous) v fun found w =>
      found.1.val = startDirectIdx % 123 ∧ w = v := by
  induction startDirectIdx using Nat.strongRecOn generalizing refer previous with
  | ind startDirectIdx ih =>
    rw [findPrevious]
    by_cases enough : startDirectIdx ≥ 123
    · have same : startDirectIdx % 123 = (startDirectIdx - 123) % 123 := mod_eq_sub_mod enough
      rw [dif_pos enough, same]
      split
      · apply ((readInodeDisk_yields refer.indirect).weaken False.elim).bind
        intro next after read
        rw [read.2.1]
        exact ih (startDirectIdx - 123) (by omega)
      · exact ih (startDirectIdx - 123) (by omega)
    · rw [dif_neg enough]
      exact Yields.pure ⟨(mod_eq_of_lt (not_le.mp enough)).symm, rfl⟩

/-- The last block of the file is full, so that the next sector needs a new one. -/
def Inode.Full (inode : Inode) : Prop :=
  123 ∣ bytesToSectors inode.data.length.toNat ∧ 0 < inode.data.length.toNat

/-- A sector can be taken for a new block. -/
def BlockAvailable (v : View) : Prop :=
  ∃ safe rest data, MapReady safe v rest data ∧ freeSectors v.tables.freeMap ≠ []

/-- A write at or past the end of the file finds no sector for the block after a full one, or an activation of
    `allocate_inode_disk` does not get what it needs. -/
def WriteFails (v : View) (memory : List Activation) (inode : Inode) (offset size : Nat) : Prop :=
  (offset ≥ inode.data.length.toNat ∧ size > 0) ∧
    (inode.Full ∧ freeSectors v.tables.freeMap = [] ∨ ¬ AllRun memory (inode.nesting (offset + size)))

/-- Whether a sector can be taken is known where one is needed. -/
def Decided (v : View) (inode : Inode) : Prop :=
  inode.Full → freeSectors v.tables.freeMap = [] ∨ BlockAvailable v

theorem extendInodeIn_result {newLength : Nat} (decided : Decided v inode) :
    Yields False (extendInodeIn memory inode newLength) v fun done w =>
      (done = true ↔ ¬ (inode.Full ∧ freeSectors v.tables.freeMap = []) ∧ AllRun memory (inode.nesting newLength)) ∧
      (inode.Full ∧ freeSectors v.tables.freeMap = [] → w.tables.inodeSysLock = true) := by
  unfold extendInodeIn
  split
  · exact fun _ _ => id
  cases locked : v.tables.inodeSysLock with
  | true =>
    -- the thread that asks for the lock has it already
    have stops : Yields False lockAcquire v fun _ _ => False := by
      apply getTables_returns.bind
      rw [locked]
      exact fun _ _ => id
    apply stops.bind
    exact fun _ _ never => never.elim
  | false =>
    apply (lockAcquire_returns locked).bind
    apply findPrevious_slot.bind
    intro found after read
    obtain ⟨slot, rfl⟩ := read
    dsimp only
    have isFull : (found.1 = 0 ∧ 0 < inode.data.length.toNat) ↔ inode.Full := by
      rw [Inode.Full, dvd_iff_mod_eq_zero, ← slot, Fin.ext_iff]
      rfl
    by_cases full : inode.Full
    · rw [if_pos (isFull.mpr full)]
      rcases decided full with exhausted | ⟨safe, rest, data, map, some⟩
      · apply (freeMapAllocate_exhausted (v := v.withLock true) exhausted).bind
        exact Yields.pure ⟨iff_of_false Bool.false_ne_true fun granted => granted.1 ⟨full, exhausted⟩, fun _ => rfl⟩
      · obtain ⟨next, left, free⟩ := exists_cons_of_ne_nil some
        apply ((freeMapAllocate_yields (map.withLock true) free).weaken False.elim).bind
        intro sector _ allocated
        rw [allocated.1]
        refine .skip fun _ _ => ?_
        apply (extendFromIn_result slot).mono
        intro done w extended
        exact ⟨extended.trans (and_iff_right fun exhausted => some exhausted.2).symm,
          fun exhausted => absurd exhausted.2 some⟩
    · rw [if_neg (full ∘ isFull.mp)]
      apply (extendFromIn_result slot).mono
      intro done w extended
      exact ⟨extended.trans (and_iff_right fun exhausted => full exhausted.1).symm,
        fun exhausted => absurd exhausted.1 full⟩

theorem inodeWriteAtIn_result {fs : FileSys} {sector : Word} {buffer : List UInt8} {offset : Nat}
    (found : fs.tables.openInodes.find? (fun i => i.sector == sector) = some inode)
    (decided : offset ≥ inode.data.length.toNat ∧ buffer.length > 0 → Decided (view fs) inode) :
    Yields False (inodeWriteAtIn memory sector buffer offset) (view fs) fun result w =>
      (result = -1 ↔ WriteFails (view fs) memory inode offset buffer.length) ∧ (result = -1 ∨ 0 ≤ result) ∧
      (WriteFails (view fs) [] inode offset buffer.length → w.tables.inodeSysLock = true) := by
  have wrote : ∀ extended seen, ¬ WriteFails (view fs) memory inode offset buffer.length →
      ¬ WriteFails (view fs) [] inode offset buffer.length →
      Yields False (inodeWriteData extended buffer offset >>= fun n => pure (n : Int)) seen fun result w =>
        (result = -1 ↔ WriteFails (view fs) memory inode offset buffer.length) ∧ (result = -1 ∨ 0 ≤ result) ∧
        (WriteFails (view fs) [] inode offset buffer.length → w.tables.inodeSysLock = true) := by
    intro extended seen succeeds taken
    refine .skip fun written _ => ?_
    have nonneg : (0 : Int) ≤ written := Int.natCast_nonneg written
    exact Yields.pure ⟨iff_of_false (by omega) succeeds, .inr nonneg, fun fails => absurd fails taken⟩
  have exhausts : WriteFails (view fs) [] inode offset buffer.length ↔
      (offset ≥ inode.data.length.toNat ∧ buffer.length > 0) ∧ inode.Full ∧
        freeSectors (view fs).tables.freeMap = [] := by
    simp [WriteFails, AllRun]
  unfold inodeWriteAtIn
  apply (findInode_returns (v := view fs) found).bind
  by_cases past : offset ≥ inode.data.length.toNat ∧ buffer.length > 0
  · have extending := @extendInodeIn_result (view fs) memory inode (offset + buffer.length) (decided past)
    rw [if_pos past]
    -- the check for overflow would be evaluated
    generalize extendInodeIn memory inode (offset + buffer.length) = program at extending ⊢
    apply extending.bind
    intro done seen extended
    split_ifs with isDone
    · have granted := extended.1.mp isDone
      have succeeds : ¬ WriteFails (view fs) memory inode offset buffer.length := by
        rintro ⟨-, exhausted | stopped⟩
        · exact granted.1 exhausted
        · exact stopped granted.2
      refine .skip fun again _ => ?_
      exact wrote again _ succeeds fun fails => granted.1 (exhausts.mp fails).2
    · have fails : WriteFails (view fs) memory inode offset buffer.length :=
        ⟨past, or_iff_not_and_not.mpr fun granted => isDone (extended.1.mpr ⟨granted.1, not_not.mp granted.2⟩)⟩
      exact Yields.pure ⟨iff_of_true rfl fails, .inl rfl, fun fails => extended.2 (exhausts.mp fails).2⟩
  · rw [if_neg past]
    exact wrote inode _ (fun fails => past fails.1) fun fails => past fails.1

/-- A byte is added to a file of one byte. -/
theorem NewFile.grows {w : World} (new : NewFile 64 1 w a head f) :
    ∃ after, inodeWriteAt head [1] 1 w.fs = some (1, after) := by
  have rep := new.models.represents
  have sound := new.models.sound
  obtain ⟨handle, isOpen⟩ := new.models.isOpen (new.held ▸ mem_cons_self)
  have allowed : handle.denyWriteCnt = 0 := new.models.undenied handle (Volume.handle_eq_some isOpen).1
  have size : f.data.length = 1 := by
    rw [sound.count new.found, new.length]
    rfl
  have odd : ¬ 123 ∣ f.data.length := by
    rw [size]
    decide
  have none : f.growth (1 + [(1 : UInt8)].length) = 0 := by
    rw [File.growth, size]
    rfl
  have fits : Fits (view w.fs) a head f [(1 : UInt8)].length 1 := by
    constructor
    case inside =>
      intro inside
      rw [new.length] at inside
      exact absurd inside (by decide)
    case past =>
      intro _ _
      refine ⟨by decide, ?_, fun _ full => absurd full odd⟩
      rw [File.needs, none, growthSectors_fits (zero_le _)]
      exact zero_le _
  have ends : WriteEnds (view w.fs) a head f [(1 : UInt8)].length 1 := by
    intro full
    rw [Volume.target, if_pos (by rw [new.length]; decide), File.grow, none, carve_fits (zero_le _)] at full
    dsimp only at full
    rw [take_zero, append_nil] at full
    exact absurd full odd
  have writes : Yields _ (inodeWriteAt head [1] 1) (view w.fs) _ :=
    inodeWriteAt_represents rep sound isOpen allowed new.found fits
  obtain ⟨result, after, ran, rfl, -⟩ := writes.ends ends
  exact ⟨after, ran⟩

/-- A write that returns returns -1 exactly where it finds no sector for a new block or an activation gets no block; in
    the first case it keeps the lock. -/
theorem inodeWriteAtIn_fails {fs after : FileSys} {buffer : List UInt8} {offset : Nat} {result : Int}
    (rep : Represents (view fs) a) (sound : a.Sound)
    (found : fs.tables.openInodes.find? (fun i => i.sector == head) = some inode)
    (ran : inodeWriteAtIn memory head buffer offset fs = some (result, after)) :
    (result = -1 ↔ WriteFails (view fs) memory inode offset buffer.length) ∧
    (WriteFails (view fs) [] inode offset buffer.length → after.tables.inodeSysLock = true) := by
  have decided : Decided (view fs) inode := by
    intro _
    obtain ⟨mapped, isMap, -⟩ := sound.map
    by_cases none : freeSectors (view fs).tables.freeMap = []
    · exact .inl none
    · exact .inr ⟨_, _, _, rep.mapReady sound isMap, none⟩
  have returned := (inodeWriteAtIn_result found fun _ => decided).ended ran
  exact ⟨returned.1, returned.2.2⟩

theorem inodeWriteAtIn_fails_example : ∃ fs head inode after,
    fs.tables.openInodes.find? (fun i => i.sector == head) = some inode ∧
    inodeWriteAtIn [] head [1] 1 fs = some (1, after) ∧ ((1 : Int) = -1 ↔ WriteFails (view fs) [] inode 1 1) := by
  obtain ⟨w, a, head, f, new⟩ := exists_oneByte
  have rep := new.models.represents
  obtain ⟨handle, isOpen⟩ := new.models.isOpen (new.held ▸ mem_cons_self)
  obtain ⟨inode, isFound, -⟩ := rep.exists_inode isOpen
  obtain ⟨after, ran⟩ := new.grows
  exact ⟨w.fs, head, inode, after, isFound, ran, (inodeWriteAtIn_fails rep new.models.sound isFound ran).1⟩

/-- The last block of the file is full and no sector is free: the write fails, and the lock stays taken. -/
theorem inodeWriteAtIn_blocked {buffer : List UInt8} {offset : Nat} {handle : Handle} (rep : Represents v a)
    (sound : a.Sound) (isOpen : a.handle head = some handle) (found : a.files head = some f) (some : f.data ≠ [])
    (aligned : 123 ∣ f.data.length) (unset : (v.sectors (f.last head)).inodeDisk.indirect = 0)
    (full : freeSectors v.tables.freeMap = []) (past : offset ≥ f.length ∧ buffer.length > 0)
    (small : offset + buffer.length + 512 < 2 ^ 31) :
    Returns safe (inodeWriteAtIn memory head buffer offset) v (-1) (v.withLock true) := by
  obtain ⟨inode, member, named, -, finds⟩ := findInode_represents rep isOpen
  have length := rep.inode_length sound member (named ▸ found)
  have extending : Returns safe (extendInodeIn memory inode (offset + buffer.length)) v false (v.withLock true) := by
    refine @extendInodeIn_searches safe v f.blocks f.data inode (offset + buffer.length) memory _
      (rep.extending sound member (named ▸ found) small) (fun _ _ => named ▸ unset) ?_ fun notFull => absurd aligned
        (notFull some)
    intro _ _
    apply (freeMapAllocate_exhausted (v := v.withLock true) full).bind
    exact Returns.pure
  unfold inodeWriteAtIn
  apply finds.bind
  rw [length, if_pos past]
  -- the check for overflow would be evaluated
  generalize extendInodeIn memory inode (offset + buffer.length) = program at extending ⊢
  apply extending.bind
  exact Returns.pure

/-- A file of 123 sectors on a disk that is full. -/
theorem exists_full : ∃ w a head f, NewFile 128 62976 w a head f ∧
    ((view w.fs).sectors head).inodeDisk.info = 0 ∧ ∃ after, inodeWriteAt head [1] 62976 w.fs = some (-1, after) ∧
    after.tables.inodeSysLock = true := by
  obtain ⟨w, a, head, f, new, info⟩ :=
    @exists_newFile 128 62976 (by decide) (by decide) (by decide) (by decide) (by decide)
  have rep := new.models.represents
  have sound := new.models.sound
  obtain ⟨handle, isOpen⟩ := new.models.isOpen (new.held ▸ mem_cons_self)
  have size : f.data.length = 123 := by
    rw [sound.count new.found, new.length]
    rfl
  have room : mapSectors 128 + 2 + growthSectors 0 (bytesToSectors 62976) + (freeSectors a.freeMap).length = 128 - 2 :=
    new.room
  have counted : mapSectors 128 + 2 + growthSectors 0 (bytesToSectors 62976) = 126 := by decide
  have full : freeSectors (view w.fs).tables.freeMap = [] := by
    rw [rep.freeMap]
    exact length_eq_zero_iff.mp (by omega)
  have blocked : Returns True (inodeWriteAtIn [] head [1] 62976) (view w.fs) (-1) _ :=
    @inodeWriteAtIn_blocked True (view w.fs) a head f [] [1] 62976 handle rep sound isOpen new.found
      (ne_nil_of_length_pos (by omega)) (by rw [size]) new.unset full ⟨new.length.le, by decide⟩ (by decide)
  obtain ⟨_, after, ran, rfl, seen⟩ := blocked.ends trivial
  refine ⟨w, a, head, f, new, info, after, ran, ?_⟩
  show (view after).tables.inodeSysLock = true
  rw [seen]
  rfl

theorem inodeWriteAt_keeps_lock : ∃ fs a head f after, Represents (view fs) a ∧ a.Sound ∧ a.files head = some f ∧
    fs.tables.inodeSysLock = false ∧ inodeWriteAt head [1] f.length fs = some (-1, after) ∧
    after.tables.inodeSysLock = true := by
  obtain ⟨w, a, head, f, new, -, after, ran, locked⟩ := exists_full
  have rep := new.models.represents
  exact ⟨w.fs, a, head, f, after, rep, new.models.sound, new.found, rep.unlocked, new.length ▸ ran, locked⟩

end Pintos.Filesys
