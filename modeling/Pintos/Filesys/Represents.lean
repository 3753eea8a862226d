import Pintos.Filesys.Volume

/-! # The inode layer implements the operations on volumes

`Represents v a` says how the files of a volume lie on the disk and in the table of open inodes.  Each function of
`inode.c` leaves a disk that represents the volume after the operation.  What the functions assume is said where it is
needed: an extension from a full last block must add a sector and must find `indirect` unset, and a transfer to the
end of a full last block reads the block that `indirect` names.
-/

namespace Pintos.Filesys

open Library Kernel Function List Volume Nat

def Inode.handle (inode : Inode) : Handle where
  sector := inode.sector
  openCnt := inode.openCnt
  removed := inode.removed
  denyWriteCnt := inode.denyWriteCnt

/-- The sector of the last block of a file. -/
def File.last (head : Word) (f : File) : Word :=
  f.blocks.getLastD head

/-- The file lies on the disk. -/
structure Holds (sectors : Word → Sector) (head : Word) (f : File) : Prop where
  chain : Chain sectors (sectors head).inodeDisk f.blocks f.data
  named : (sectors head).inodeDisk.sector = head
  length : (sectors head).inodeDisk.length = BitVec.ofNat 32 f.length
  bytes : bytesOf sectors f.data = f.bytes

structure Represents (v : View) (a : Volume) : Prop where
  freeMap : v.tables.freeMap = a.freeMap
  capacity : v.tables.capacity = a.freeMap.length
  mapFile : v.tables.freeMapFile = some freeMapSector
  unlocked : v.tables.inodeSysLock = false
  handles : v.tables.openInodes.map Inode.handle = a.handles
  cached : ∀ inode ∈ v.tables.openInodes, inode.data = (v.sectors inode.sector).inodeDisk
  file : ∀ {head f}, a.files head = some f → Holds v.sectors head f
  -- the free map has been written to its file before
  tail : ∀ {f}, a.files freeMapSector = some f → TailOnDisk v.tables.capacity
    (v.sectors (f.last freeMapSector)).inodeDisk 0 f.data.length (bytesToSectors (byteCnt v.tables.capacity))

variable {safe : Prop} {v w : View} {a : Volume} {head : Word} {f : File}

variable {sectors : Word → Sector}

/-- The blocks of a file are as they were, and its data may have changed. -/
theorem Holds.of_blocks {sectors' : Word → Sector} {g : File} (holds : Holds sectors head f)
    (same : ∀ s ∈ head :: f.blocks, sectors' s = sectors s) (blocks : g.blocks = f.blocks) (data : g.data = f.data)
    (length : g.length = f.length) (bytes : bytesOf sectors' f.data = g.bytes) : Holds sectors' head g := by
  have sameHead := same head mem_cons_self
  constructor
  case chain =>
    rw [blocks, data, sameHead]
    exact holds.chain.congr fun s member => same s (mem_cons_of_mem _ member)
  case named => rw [sameHead, holds.named]
  case length => rw [sameHead, holds.length, length]
  case bytes => rw [data, bytes]

theorem Holds.congr {sectors' : Word → Sector} (holds : Holds sectors head f)
    (same : ∀ s ∈ f.sectors head, sectors' s = sectors s) : Holds sectors' head f := by
  apply holds.of_blocks (fun s member => same s (File.block_mem member)) rfl rfl rfl
  rw [← holds.bytes]
  exact bytesOf_congr fun s member => same s (File.data_mem member)

theorem Holds.lastDisk (head : Word) (f : File) :
    lastDisk sectors (sectors head).inodeDisk f.blocks = (sectors (f.last head)).inodeDisk :=
  lastDisk_head sectors head f.blocks

theorem Holds.length_bytes (holds : Holds sectors head f) : f.bytes.length = 512 * f.data.length := by
  rw [← holds.bytes, length_bytesOf]

theorem File.last_mem (head : Word) (f : File) : f.last head ∈ head :: f.blocks :=
  getLastD_mem_cons

variable {s : Word} {taken touched : List Word} {inode : Inode} {mapped g : File}

namespace Represents

variable (rep : Represents v a) (sound : a.Sound)
include rep

theorem find_handle (sector : Word) :
    a.handle sector = (v.tables.openInodes.find? fun inode => inode.sector == sector).map Inode.handle := by
  rw [handle, ← rep.handles, find?_map]
  rfl

/-- The open inode a handle stands for. -/
theorem exists_inode {sector : Word} {handle : Handle} (found : a.handle sector = some handle) :
    ∃ inode, v.tables.openInodes.find? (fun inode => inode.sector == sector) = some inode ∧
      inode.handle = handle ∧ inode.sector = sector ∧ inode.data = (v.sectors sector).inodeDisk := by
  rw [rep.find_handle] at found
  obtain ⟨inode, isOpen, same⟩ := Option.map_eq_some_iff.mp found
  have sector : inode.sector = sector := by
    have matched := find?_some isOpen
    exact beq_iff_eq.mp matched
  have data := rep.cached inode (mem_of_find?_eq_some isOpen)
  exact ⟨inode, isOpen, same, sector, sector ▸ data⟩

include sound

theorem live_inode (member : inode ∈ v.tables.openInodes) : ∃ f, a.files inode.sector = some f := by
  have isOpen : inode.handle ∈ a.handles := rep.handles ▸ mem_map_of_mem member
  exact sound.live inode.handle isOpen

section

variable (found : a.files head = some f)

include found

theorem length_toNat : (v.sectors head).inodeDisk.length.toNat = f.length := by
  have small := sound.small found
  rw [(rep.file found).length, BitVec.toNat_ofNat]
  omega

theorem onDisk (member : s ∈ f.sectors head) : s.toNat < v.tables.capacity := by
  rw [rep.capacity]
  exact used_lt (sound.used found member)

theorem used (member : s ∈ f.sectors head) : Used v.tables.freeMap s := by
  rw [rep.freeMap]
  exact sound.used found member

theorem accessible : Accessible v (v.sectors head).inodeDisk f.blocks f.data :=
  .of_onDisk (rep.file found).chain (fun _ member => rep.onDisk sound found (mem_cons_of_mem _ member))
    (rep.capacity ▸ sound.bounded) (nodup_cons.mp (sound.distinct found)).2

end

theorem mapReady (found : a.files freeMapSector = some f) : MapReady True v f.blocks f.data := by
  obtain ⟨handle, member, isMap⟩ := mem_map.mp sound.mapOpen
  have isOpen : ∃ handle, a.handle freeMapSector = some handle := by
    cases none : a.handle freeMapSector with
    | none => exact absurd (beq_iff_eq.mpr isMap) (find?_eq_none.mp none handle member)
    | some handle => exact ⟨handle, rfl⟩
  obtain ⟨handle, isOpen⟩ := isOpen
  obtain ⟨inode, isOpen, -, named, data⟩ := rep.exists_inode isOpen
  have inTable : inode.handle ∈ a.handles := rep.handles ▸ mem_map_of_mem (mem_of_find?_eq_some isOpen)
  have allowed := sound.mapAllowed inode.handle inTable named
  have long := sound.map_long found
  have first := sound.used found mem_cons_self
  have positive : 0 < byteCnt a.freeMap.length := byteCnt_pos (lt_of_le_of_lt (zero_le _) (used_lt first))
  constructor
  case file =>
    apply MapFile.present rep.mapFile isOpen allowed
    case nonempty =>
      rw [data, rep.length_toNat sound found]
      omega
    case file =>
      rw [data]
      exact rep.accessible sound found
    case covered =>
      rw [rep.freeMap]
      exact long.trans (sound.covered found)
    case tail =>
      intro _
      have tail := rep.tail found
      rw [rep.capacity] at tail
      rw [data, Holds.lastDisk, rep.capacity, rep.freeMap]
      exact tail
  case size => rw [rep.freeMap, rep.capacity]
  case bounded =>
    rw [rep.capacity]
    exact sound.bounded
  case used =>
    intro s member
    exact rep.used sound found (mem_cons_of_mem _ (mem_append.mpr member))
  case distinct => exact (sound.apart found).2.1

/-! ## Taking sectors -/

section Taking

variable {mapped : File} {taken touched : List Word} (isMap : a.files freeMapSector = some mapped)
  (takes : Takes mapped.data v w taken touched) (found : a.files head = some f)
include isMap takes found

theorem bytes_kept (apart : ∀ s ∈ f.data, s ∉ touched) : bytesOf w.sectors f.data = (a.kept taken head f).bytes := by
  have holds := rep.file found
  by_cases map : head = freeMapSector
  · subst map
    rw [isMap] at found
    cases found
    have distinct := (rep.mapReady sound isMap).distinct
    unfold kept
    by_cases none : taken = []
    · rw [if_pos none, ← holds.bytes]
      apply bytesOf_congr
      intro s member
      rw [takes.synced s member, if_pos none]
    · have stored : bytesOf w.sectors f.data =
          bytesOf (storeAcross v.sectors f.data 0 (bitmapBytes w.tables.freeMap)) f.data := by
        apply bytesOf_congr
        intro s member
        rw [takes.synced s member, if_neg none]
      rw [if_neg none, stored, bytesOf_storeAcross distinct, holds.bytes, takes.freeMap_eq, rep.freeMap]
      rfl
  · rw [kept_other _ _ _ _ map, ← holds.bytes]
    apply bytesOf_congr
    intro s member
    apply takes.frame s _ (apart s member)
    intro inMap
    exact map (sound.disjoint found isMap (File.data_mem member) (File.data_mem inMap))

theorem holds_kept (apart : ∀ s ∈ f.sectors head, s ∉ touched) : Holds w.sectors head (a.kept taken head f) := by
  have blocks : ∀ s ∈ head :: f.blocks, w.sectors s = v.sectors s := fun s member =>
    sound.block_kept isMap takes found member (apart s (File.block_mem member))
  apply (rep.file found).of_blocks blocks (kept_blocks ..) (kept_data ..) (kept_length ..)
  exact rep.bytes_kept sound isMap takes found fun s member => apart s (File.data_mem member)

end Taking

/-- Sectors are taken and nothing else happens to the files. -/
theorem takes (isMap : a.files freeMapSector = some mapped) (takes : Takes mapped.data v w taken touched)
    (apart : ∀ {head f}, a.files head = some f → ∀ s ∈ f.sectors head, s ∉ touched) : Represents w (a.take taken) := by
  have tables := takes.tables
  constructor
  case freeMap => rw [tables, rep.freeMap]; rfl
  case capacity =>
    rw [tables, rep.capacity]
    exact (length_markAll _ _).symm
  case mapFile => rw [tables, rep.mapFile]
  case unlocked => rw [tables, rep.unlocked]
  case handles => rw [tables, rep.handles]; rfl
  case cached =>
    intro inode member
    rw [tables] at member
    obtain ⟨f, found⟩ := rep.live_inode sound member
    rw [sound.block_kept isMap takes found mem_cons_self (apart found _ mem_cons_self)]
    exact rep.cached inode member
  case file =>
    intro head f found
    obtain ⟨f', before, rfl⟩ := files_take.mp found
    exact rep.holds_kept sound isMap takes before (apart before)
  case tail =>
    intro f found
    obtain ⟨f', before, rfl⟩ := files_take.mp found
    rw [isMap] at before
    cases before
    have last : mapped.last freeMapSector ∈ freeMapSector :: mapped.blocks := getLastD_mem_cons
    have kept := sound.block_kept isMap takes isMap last (apart isMap _ (mem_append_left mapped.data last))
    rw [File.last, kept_blocks, kept_data, ← File.last, kept, tables]
    exact rep.tail isMap

section

variable (isMap : a.files freeMapSector = some mapped) (takes : Takes mapped.data v w taken touched)

include isMap takes

/-- Sectors are taken, and a file is made or replaced at `head`. -/
theorem replace {x : View}
    (apart : ∀ {s other f}, other ≠ head → a.files other = some f → s ∈ f.sectors other → s ∉ touched ∧ s ≠ head)
    (sectors : ∀ s, s ≠ head → x.sectors s = w.sectors s)
    (tables : x.tables = { w.tables with openInodes := x.tables.openInodes, inodeSysLock := false })
    (handles : x.tables.openInodes.map Inode.handle = v.tables.openInodes.map Inode.handle)
    (cached : ∀ inode ∈ x.tables.openInodes, inode.sector ≠ head ∧ inode ∈ v.tables.openInodes ∨
      inode.sector = head ∧ inode.data = (x.sectors head).inodeDisk)
    (holds : Holds x.sectors head g)
    (tail : head = freeMapSector → TailOnDisk v.tables.capacity (x.sectors (g.last head)).inodeDisk 0 g.data.length
      (bytesToSectors (byteCnt v.tables.capacity))) :
    Represents x ((a.take taken).put head g) := by
  have tablesTaken := takes.tables
  have capacity : x.tables.capacity = v.tables.capacity := by rw [tables, tablesTaken]
  have same : ∀ {s other f}, other ≠ head → a.files other = some f → s ∈ other :: f.blocks →
      x.sectors s = v.sectors s := by
    intro s other f different isFile member
    obtain ⟨untouched, notHead⟩ := apart different isFile (mem_append_left f.data member)
    rw [sectors s notHead, sound.block_kept isMap takes isFile member untouched]
  constructor
  case freeMap =>
    rw [tables, tablesTaken, rep.freeMap]
    rfl
  case capacity =>
    rw [capacity, rep.capacity]
    exact (length_markAll _ _).symm
  case mapFile => rw [tables, tablesTaken, rep.mapFile]
  case unlocked => rw [tables]
  case handles =>
    rw [handles, rep.handles]
    rfl
  case cached =>
    intro inode member
    cases cached inode member with
    | inl other =>
      obtain ⟨f, isFile⟩ := rep.live_inode sound other.2
      rw [same other.1 isFile mem_cons_self]
      exact rep.cached inode other.2
    | inr own =>
      rw [own.1]
      exact own.2
  case file =>
    intro other f isFile
    obtain ⟨rfl, rfl⟩ | ⟨isHead, isFile⟩ := files_put_some isFile
    · exact holds
    · obtain ⟨f', before, rfl⟩ := files_take.mp isFile
      apply (rep.holds_kept sound isMap takes before fun s member => (apart isHead before member).1).congr
      intro s member
      rw [kept_sectors] at member
      exact sectors s (apart isHead before member).2
  case tail =>
    intro f isFile
    rw [capacity]
    obtain ⟨rfl, rfl⟩ | ⟨isHead, isFile⟩ := files_put_some isFile
    · exact tail rfl
    · obtain ⟨f', before, rfl⟩ := files_take.mp isFile
      rw [File.last, kept_blocks, kept_data, ← File.last, same isHead before (f'.last_mem freeMapSector)]
      exact rep.tail before

/-- Sectors are taken, and the file at `head` gets another length. -/
theorem lengthen {newLength : Nat}
    (found : a.files head = some f)
    (apart : ∀ {s other f}, other ≠ head → a.files other = some f → s ∈ f.sectors other → s ∉ touched)
    (holds : Holds (w.lengthened head newLength).sectors head g)
    (tail : head = freeMapSector → TailOnDisk v.tables.capacity
      ((w.lengthened head newLength).sectors (g.last head)).inodeDisk 0 g.data.length
      (bytesToSectors (byteCnt v.tables.capacity))) :
    Represents (w.lengthened head newLength) ((a.take taken).put head g) := by
  have tables := takes.tables
  apply rep.replace sound isMap takes
  case apart =>
    intro s other g different isFile member
    refine ⟨apart different isFile member, ?_⟩
    rintro rfl
    exact different (sound.disjoint isFile found member mem_cons_self)
  case sectors => exact fun s other => update_of_ne other _ _
  case tables => rfl
  case handles =>
    show (w.tables.openInodes.map _).map Inode.handle = _
    rw [tables, map_map]
    apply map_congr_left
    intro inode _
    dsimp only [Function.comp]
    split <;> rfl
  case cached =>
    intro inode member
    obtain ⟨before, isOpen, rfl⟩ := mem_map.mp member
    rw [tables] at isOpen
    by_cases same : before.sector = head
    · rw [if_pos (beq_iff_eq.mpr same)]
      refine .inr ⟨same, ?_⟩
      rw [View.lengthened_disk, if_pos rfl]
    · rw [if_neg fun equal => same (beq_iff_eq.mp equal)]
      exact .inl ⟨same, isOpen⟩
  case holds => exact holds
  case tail => exact tail

end

end Represents

theorem freeMapAllocate_represents {left : List Word} (rep : Represents v a) (sound : a.Sound)
    (free : freeSectors a.freeMap = s :: left) :
    Yields safe (freeMapAllocate 1) v fun sector w => sector = some s ∧ Represents w (a.take [s]) ∧
      ∀ t ∈ freeSectors a.freeMap, w.sectors t = v.sectors t := by
  obtain ⟨mapped, isMap, -⟩ := sound.map
  have map := rep.mapReady sound isMap
  rw [← rep.freeMap] at free ⊢
  apply ((freeMapAllocate_yields map free).weaken fun _ => trivial).mono
  intro sector w allocated
  obtain ⟨rfl, takes, -⟩ := allocated
  refine ⟨rfl, rep.takes sound isMap takes fun _ _ _ => not_mem_nil, ?_⟩
  intro t member
  exact takes.frame t (map.not_free member).2 not_mem_nil

/-! ## Growing a file -/

variable {data : List Word} {newLength : Nat}

theorem bytesOf_zeros (zeros : ∀ s ∈ data, sectors s = .zeros) :
    bytesOf sectors data = replicate (512 * data.length) 0 := by
  induction data with
  | nil => rfl
  | cons s data ih =>
    rw [bytesOf_cons, zeros s mem_cons_self, ih fun t member => zeros t (mem_cons_of_mem _ member),
      length_cons, mul_add, mul_one, add_comm, replicate_add]
    rfl

theorem File.last_grow (f : File) (head : Word) (newLength : Nat) (taken : List Word) :
    (f.grow newLength taken).last head =
      (carve (usedSlots f.blocks f.data) (f.growth newLength) taken).1.getLastD (f.last head) := by
  unfold File.last File.grow
  generalize (carve (usedSlots f.blocks f.data) (f.growth newLength) taken).1 = more
  cases more using reverseRecOn with
  | nil => simp
  | append_singleton more s => rw [← append_assoc, getLastD_concat, getLastD_concat]

/-- What was taken belonged to no file. -/
theorem Represents.not_taken (rep : Represents v a) (sound : a.Sound) (takes : Takes data v w taken touched)
    (found : a.files head = some f) (member : s ∈ f.sectors head) : s ∉ taken := by
  intro new
  have free := takes.mem_free new
  rw [rep.freeMap] at free
  exact not_used_of_free sound.bounded free (sound.used found member)

theorem Represents.next_eq (rep : Represents v a) (takes : Takes data v w taken touched) :
    a.next taken.length = taken := by
  rw [Volume.next, ← rep.freeMap, ← takes.free]
  exact take_left' rfl

/-- The last block keeps the `indirect` that its sector held before. -/
theorem Grown.indirect_last
    (grown : Grown data v w (f.last head) (usedSlots f.blocks f.data) (f.growth newLength) taken) :
    ((w.lengthened head newLength).sectors ((f.grow newLength taken).last head)).inodeDisk.indirect =
      (v.sectors ((f.grow newLength taken).last head)).inodeDisk.indirect := by
  have spare := grown.spare
  rw [lastDisk_head, ← File.last_grow] at spare
  rw [← spare, View.lengthened_disk]
  split
  next first => rw [first]
  next => rfl

section Grown

variable {mapped : File} {taken : List Word} {newLength : Nat} (rep : Represents v a) (sound : a.Sound)
  (isMap : a.files freeMapSector = some mapped) (found : a.files head = some f)
  (grown : Grown mapped.data v w (f.last head) (usedSlots f.blocks f.data) (f.growth newLength) taken)
include rep sound found grown

variable {s : Word}

theorem Grown.untouched {other : Word} (different : other ≠ head) (isFile : a.files other = some g)
    (member : s ∈ g.sectors other) : s ∉ f.last head :: taken := by
  intro touched
  cases mem_cons.mp touched with
  | inl last =>
    have own : s ∈ f.sectors head := last ▸ File.block_mem (f.last_mem head)
    exact different (sound.disjoint isFile found member own)
  | inr new => exact rep.not_taken sound grown.takes isFile member new

theorem Grown.block_mem (member : s ∈ f.sectors head) :
    s ∉ (carve (usedSlots f.blocks f.data) (f.growth newLength) taken).1 ∧
      s ∉ (carve (usedSlots f.blocks f.data) (f.growth newLength) taken).2 := by
  have perm := (carve_spec grown.count).2
  have old := rep.not_taken sound grown.takes found member
  constructor
  · exact fun new => old (perm.subset (mem_append_left _ new))
  · exact fun new => old (perm.subset (mem_append_right _ new))

include isMap

theorem Grown.holds :
    Holds (w.lengthened head newLength).sectors head ((a.kept taken head f).grow newLength taken) := by
  have holds := rep.file found
  have bounded : v.tables.freeMap.length ≤ 2 ^ 28 := rep.freeMap ▸ sound.bounded
  have chain := holds.chain.extend (sound.apart found).1 (fun s member => ⟨sound.block_notMem isMap found member,
      rep.not_taken sound grown.takes found (File.block_mem member)⟩) grown
  have named := grown.sector_of_used bounded holds.named (rep.used sound found mem_cons_self)
    (sound.block_notMem isMap found mem_cons_self)
  obtain ⟨notNewBlock, notNewData⟩ := grown.block_mem rep sound found (mem_cons_self (a := head))
  have notOld := (nodup_cons.mp (sound.distinct found)).1
  rw [mem_append, not_or] at notOld
  have others : ∀ s, s ≠ head → (w.lengthened head newLength).sectors s = w.sectors s :=
    fun s other => update_of_ne other _ _
  have disk : ((w.lengthened head newLength).sectors head).inodeDisk =
      { (w.sectors head).inodeDisk with length := BitVec.ofNat 32 newLength } := by
    rw [View.lengthened_disk, if_pos rfl]
  constructor
  case chain =>
    rw [disk]
    simp only [File.grow, File.growth, kept_blocks, kept_data]
    refine Chain.congr_disk (Chain.congr chain ?_) rfl rfl
    intro s member
    apply others
    rintro rfl
    cases mem_append.mp member with
    | inl old => exact notOld.1 old
    | inr new => exact notNewBlock new
  case named =>
    rw [disk]
    exact named
  case length => rw [disk]; rfl
  case bytes =>
    have old : bytesOf (w.lengthened head newLength).sectors f.data = (a.kept taken head f).bytes := by
      rw [← rep.bytes_kept sound isMap grown.takes found]
      · apply bytesOf_congr
        intro s member
        exact others s fun same => notOld.2 (same ▸ member)
      · intro s member touched
        cases mem_cons.mp touched with
        | inl last => exact (sound.apart found).2.2 (last ▸ f.last_mem head) member
        | inr new => exact rep.not_taken sound grown.takes found (File.data_mem member) new
    have new : bytesOf (w.lengthened head newLength).sectors
        (carve (usedSlots f.blocks f.data) (f.growth newLength) taken).2 = replicate (512 * f.growth newLength) 0 := by
      have size : (carve (usedSlots f.blocks f.data) (f.growth newLength) taken).2.length = f.growth newLength :=
        (carve_spec grown.count).1
      rw [bytesOf_zeros, size]
      intro s member
      rw [others s fun same => notNewData (same ▸ member)]
      exact grown.zeroed s member
    simp only [File.grow, File.growth, kept_blocks, kept_data, bytesOf_append] at old new ⊢
    rw [old, new]

theorem Grown.free_lengthened (free : s ∈ freeSectors w.tables.freeMap) :
    (w.lengthened head newLength).sectors s = v.sectors s := by
  have bounded : v.tables.freeMap.length ≤ 2 ^ 28 := rep.freeMap ▸ sound.bounded
  rw [← grown.free_kept bounded (fun t inMap => rep.used sound isMap (File.data_mem inMap))
    (rep.used sound found (File.block_mem (f.last_mem head))) free]
  apply update_of_ne
  rintro rfl
  have boundedAfter : w.tables.freeMap.length ≤ 2 ^ 28 := by
    rw [grown.takes.freeMap_eq, length_markAll]
    exact bounded
  exact not_used_of_free boundedAfter free
    ((grown.takes.used_iff bounded).mpr (.inr (rep.used sound found mem_cons_self)))

theorem Grown.represents :
    Represents (w.lengthened head newLength)
    ((a.take taken).put head ((a.kept taken head f).grow newLength taken)) := by
  apply rep.lengthen sound isMap grown.takes found
  case apart => exact grown.untouched rep sound found
  case holds => exact grown.holds rep sound isMap found
  case tail =>
    rintro rfl
    rw [isMap] at found
    cases found
    -- the file has the sectors for the free map already
    have covers : bytesToSectors (byteCnt v.tables.capacity) ≤ f.data.length := by
      rw [sound.count isMap, rep.capacity]
      exact bytesToSectors_mono (sound.map_long isMap)
    have added : (f.grow newLength taken).data.length = f.data.length + f.growth newLength := by
      rw [← (carve_spec grown.count).1]
      exact length_append
    have shape : ((a.kept taken freeMapSector f).grow newLength taken).data = (f.grow newLength taken).data ∧
        ((a.kept taken freeMapSector f).grow newLength taken).last freeMapSector =
          (f.grow newLength taken).last freeMapSector := by
      simp [File.grow, File.growth, File.last]
    intro whole full
    rw [shape.1] at whole full
    have none : f.growth newLength = 0 := by omega
    have sameLast : (f.grow newLength taken).last freeMapSector = f.last freeMapSector := by
      rw [File.last_grow, none, carve_fits (zero_le _)]
      rfl
    rw [shape.2, grown.indirect_last, sameLast]
    apply rep.tail isMap
    · omega
    · rwa [added, none] at full

end Grown

/-- The last block of a file may be written anew, even if it is the one of the free map file. -/
theorem Volume.Sound.extendable (sound : a.Sound) (isMap : a.files freeMapSector = some mapped)
    (found : a.files head = some f) :
    Extendable safe v mapped.blocks mapped.data (f.last head) (usedSlots f.blocks f.data) := by
  have last := f.last_mem head
  have notData := sound.block_notMem isMap found last
  by_cases map : head = freeMapSector
  · subst map
    rw [isMap] at found
    cases found
    have distinct := sound.distinct isMap
    obtain empty | ⟨blocks, b, all⟩ := f.blocks.eq_nil_or_concat
    · rw [File.last, empty] at notData ⊢
      exact extendable_of_notMem not_mem_nil notData _
    · rw [concat_eq_append] at all
      have isLast : f.last freeMapSector = b := by rw [File.last, all, getLastD_concat]
      rw [isLast] at notData ⊢
      rw [File.sectors, all] at distinct
      rw [all]
      apply extendable_last _ notData
      intro earlier
      have blocksDistinct := (nodup_append.mp (nodup_cons.mp distinct).2).1
      exact (nodup_append.mp blocksDistinct).2.2 b earlier b (mem_singleton_self b) rfl
  · apply extendable_of_notMem _ notData
    intro block
    exact map (sound.disjoint found isMap (File.block_mem last) (File.block_mem (mem_cons_of_mem _ block)))

section

variable (rep : Represents v a) (sound : a.Sound)

include rep sound

theorem Represents.blocks (found : a.files head = some f) :
    Blocks v head f.blocks f.data where
  chain := (rep.file found).chain
  named := (rep.file found).named
  nonzero member := by
    obtain ⟨mapped, isMap, -⟩ := sound.map
    have own : freeMapSector ∈ f.sectors head := File.block_mem (mem_cons_of_mem _ member)
    have same := sound.disjoint found isMap own mem_cons_self
    subst same
    exact (nodup_cons.mp (sound.distinct found)).1 (mem_append_left _ member)
  used s member := rep.used sound found (File.block_mem member)

/-- What an extension needs apart from free sectors: if all slots of the last block are in use, its `indirect` must be
    unset and the extension must add a sector. -/
def Extends (v : View) (head : Word) (f : File) (newLength : Nat) : Prop :=
  f.data ≠ [] → 123 ∣ f.data.length →
    (v.sectors (f.last head)).inodeDisk.indirect = 0 ∧ f.data.length < bytesToSectors newLength

/-- The `indirect` of the last block, and all free sectors, are as they were. -/
structure Spared (v w : View) (head : Word) (f : File) : Prop where
  indirect : (w.sectors (f.last head)).inodeDisk.indirect = (v.sectors (f.last head)).inodeDisk.indirect
  free : ∀ s ∈ freeSectors w.tables.freeMap, w.sectors s = v.sectors s

theorem Represents.inode_length (member : inode ∈ v.tables.openInodes)
    (found : a.files inode.sector = some f) : inode.data.length.toNat = f.length := by
  rw [rep.cached inode member, rep.length_toNat sound found]

theorem Represents.extending (isOpen : inode ∈ v.tables.openInodes)
    (found : a.files inode.sector = some f) (small : newLength + 512 < 2 ^ 31) :
    Extending v inode newLength f.blocks f.data where
  free := rep.unlocked
  size := rep.freeMap ▸ rep.capacity.symm
  blocks := rep.blocks sound found
  fresh := rep.cached inode isOpen
  count := rep.inode_length sound isOpen found ▸ sound.count found
  small := small

theorem extendInode_represents (isOpen : inode ∈ v.tables.openInodes)
    (named : inode.sector = head) (found : a.files head = some f) (small : newLength + 512 < 2 ^ 31)
    (extension : Extends v head f newLength) (enough : f.needs newLength ≤ (freeSectors a.freeMap).length) :
    Yields safe (extendInode inode newLength) v fun done x => done = true ∧ Represents x (a.extend head newLength) ∧
      Spared v x head (f.grow newLength (a.next (f.needs newLength))) := by
  subst named
  obtain ⟨mapped, isMap, -⟩ := sound.map
  have yields : Yields True (extendInode inode newLength) v _ := @extendInode_yields _ v f.blocks f.data mapped.blocks
    mapped.data inode newLength (rep.extending sound isOpen found small) (rep.mapReady sound isMap)
    (fun s member => sound.block_notMem isMap found member) (sound.extendable isMap found)
    (by rw [rep.cached inode isOpen, Holds.lastDisk]; exact extension) (by rw [rep.freeMap]; exact enough)
  -- the check for overflow would be evaluated
  generalize extendInode inode newLength = program at yields ⊢
  apply (yields.weaken fun _ => trivial).mono
  intro done x extended
  obtain ⟨rfl, taken, w, grown, rfl⟩ := extended
  have next : a.next (f.needs newLength) = taken := by
    have size : taken.length = f.needs newLength := grown.count
    rw [← size, rep.next_eq grown.takes]
  have unfolded : a.extend inode.sector newLength =
      (a.take taken).put inode.sector ((a.kept taken inode.sector f).grow newLength taken) := by
    rw [Volume.extend, found]
    simp only [next]
  rw [unfolded, next]
  exact ⟨rfl, grown.represents rep sound isMap found, grown.indirect_last,
    fun s free => grown.free_lengthened rep sound isMap found free⟩

end

/-! ## Writing data -/

/-- A transfer to the end of a file reads the block that its last block names, if that is full. -/
def EndsOnDisk (v : View) (head : Word) (f : File) : Prop :=
  123 ∣ f.data.length → (v.sectors (f.last head)).inodeDisk.indirect.toNat < v.tables.capacity

theorem EndsOnDisk.tail (ends : EndsOnDisk v head f) (count : Nat) :
    TailOnDisk v.tables.capacity (v.sectors (f.last head)).inodeDisk 0 f.data.length count := by
  intro _ full
  rw [zero_add] at full
  exact ends full

theorem Represents.overwrite (rep : Represents v a) (sound : a.Sound) (found : a.files head = some f) (offset : Nat)
    (buffer : List UInt8) :
    Represents (v.withSectors (storeAcross v.sectors f.data offset buffer)) (a.overwrite head offset buffer) := by
  have others : ∀ {s other g}, a.files other = some g → s ∈ g.sectors other → (other = head → s ∈ head :: f.blocks) →
      storeAcross v.sectors f.data offset buffer s = v.sectors s := by
    intro s other g isFile member own
    apply storeAcross_other
    intro written
    have same := sound.disjoint isFile found member (File.data_mem written)
    exact (sound.apart found).2.2 (own same) written
  rw [overwrite_eq found]
  refine { rep with cached := ?cached, file := ?file, tail := ?tail }
  case cached =>
    intro inode member
    obtain ⟨g, isFile⟩ := rep.live_inode sound member
    show inode.data = (storeAcross v.sectors f.data offset buffer inode.sector).inodeDisk
    rw [others isFile mem_cons_self fun same => same ▸ mem_cons_self]
    exact rep.cached inode member
  case file =>
    intro other g isFile
    obtain ⟨rfl, rfl⟩ | ⟨same, isFile⟩ := files_put_some isFile
    · have holds := rep.file found
      refine holds.of_blocks (fun s member => others found (File.block_mem member) fun _ => member) rfl rfl rfl ?_
      show _ = splice f.bytes offset buffer
      rw [← holds.bytes]
      exact bytesOf_storeAcross (sound.apart found).2.1 ..
    · apply (rep.file isFile).congr
      intro s member
      exact others isFile member fun equal => absurd equal same
  case tail =>
    intro g isFile
    have keeps : ∃ before, a.files freeMapSector = some before ∧ before.last freeMapSector = g.last freeMapSector ∧
        before.data = g.data := by
      obtain ⟨rfl, rfl⟩ | ⟨-, isFile⟩ := files_put_some isFile
      · exact ⟨f, found, rfl, rfl⟩
      · exact ⟨g, isFile, rfl, rfl⟩
    obtain ⟨before, isMap, sameLast, sameData⟩ := keeps
    show TailOnDisk _ (storeAcross v.sectors f.data offset buffer (g.last freeMapSector)).inodeDisk _ _ _
    rw [← sameLast, ← sameData, others isMap (File.block_mem (before.last_mem _))]
    · exact rep.tail isMap
    · intro same
      subst same
      rw [found] at isMap
      cases isMap
      exact f.last_mem _

/-- What a write inside a file leaves as it was. -/
structure WroteData (v w : View) (f : File) : Prop where
  tables : w.tables = v.tables
  frame : ∀ s, s ∉ f.data → w.sectors s = v.sectors s

theorem inodeWriteData_represents {buffer : List UInt8} {offset : Nat} (rep : Represents v a) (sound : a.Sound)
    (isOpen : inode ∈ v.tables.openInodes) (named : inode.sector = head) (found : a.files head = some f)
    (allowed : inode.denyWriteCnt = 0) (positive : 0 < buffer.length)
    (fits : offset + buffer.length ≤ 512 * f.data.length) :
    Yields (EndsOnDisk v head f) (inodeWriteData inode buffer offset) v fun written w =>
      written = buffer.length ∧ Represents w (a.overwrite head offset buffer) ∧ WroteData v w f := by
  subst named
  have data := rep.cached inode isOpen
  have file := rep.accessible sound found
  rw [← data] at file
  have yields := inodeWriteData_yields file allowed positive fits
  rw [data, Holds.lastDisk] at yields
  apply (yields.weaken fun ends => ends.tail _).mono
  intro written w wrote
  obtain ⟨rfl, rfl, -⟩ := wrote
  exact ⟨rfl, rep.overwrite sound found offset buffer, rfl, fun s outside => storeAcross_other _ outside _ _⟩

end Pintos.Filesys
