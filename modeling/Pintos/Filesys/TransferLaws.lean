import Pintos.Filesys.Handles
import Pintos.Filesys.Operations

/-! # Reads, and writes that are denied

`inode_read_at` gives the part of a file that was asked for, and `inode_write_at` leaves a file that is denied writes as
it is, up to what it does before it looks at `deny_write_cnt`.
-/

namespace Pintos.Filesys

open Library List Volume Nat

variable {v w : View} {a : Volume} {head offset size : Word} {f : File} {inode : Inode} {fs : FileSys}
  {newLength capacity total : Nat} {start : World}

/-! ## Reading -/

/-- `size = length - offset > size ? size : length - offset`, where `length` is unsigned and so all is. -/
def clipSize (length size offset : Word) : Word :=
  if length - offset > size then size else length - offset

/-- `inode_read_at` on `off_t` arguments.  The size is clipped before the offset is tested. -/
def inodeReadAtOff (sector size offset : Word) : FsM (List UInt8) := do
  lockAcquire
  let inode ← findInode sector
  let length := inode.data.length
  lockRelease
  let size := clipSize length size offset
  if offset ≥ length then
    return []
  else
    let refer ← referDisk inode.data (offset.toNat / (512 * 123))
    -- the loop runs while `size > 0`, and `size` is signed
    if size.msb then
      return []
    else
      readLoop refer (offset.toNat / 512 % 123) (offset.toNat % 512) size.toNat []

theorem clipSize_toNat {length : Word} (inside : offset < length) :
    (clipSize length size offset).toNat =
      if length.toNat - offset.toNat > size.toNat then size.toNat else length.toNat - offset.toNat := by
  have less : offset.toNat < length.toNat := inside
  have left : (length - offset).toNat = length.toNat - offset.toNat := BitVec.toNat_sub_of_le (le_of_lt less)
  unfold clipSize
  have compares : length - offset > size ↔ length.toNat - offset.toNat > size.toNat := by
    rw [← left]
    exact Iff.rfl
  by_cases longer : length - offset > size
  · rw [if_pos longer, if_pos (compares.mp longer)]
  · rw [if_neg longer, if_neg fun more => longer (compares.mpr more), left]

/-- An inode whose data can be read: its length is not negative, its blocks name as many sectors as the length
    needs, all are on the disk, and the last block names no other. -/
structure Readable (v : View) (inode : Inode) (blocks data : List Word) : Prop where
  length : inode.data.length.msb = false
  chain : Chain v.sectors inode.data blocks data
  count : data.length = bytesToSectors inode.data.length.toNat
  last : (lastDisk v.sectors inode.data blocks).indirect = 0
  blocksOnDisk : ∀ s ∈ blocks, s.toNat < v.tables.capacity
  dataOnDisk : ∀ s ∈ data, s.toNat < v.tables.capacity ∧ s.msb = false

/-- Two programs that go on alike from where the first part ends. -/
theorem bind_eq_bind {α β : Type} {first : FsM α} {rest rest' : α → FsM β}
    (same : ∀ result next, first fs = some (result, next) → rest result next = rest' result next) :
    (first >>= rest) fs = (first >>= rest') fs := by
  show (first fs).bind (fun ended => rest ended.1 ended.2) = (first fs).bind fun ended => rest' ended.1 ended.2
  cases ran : first fs with
  | none => rfl
  | some ended => exact same ended.1 ended.2 ran

theorem inodeReadAtOff_eq {sector : Word} (unlocked : fs.tables.inodeSysLock = false)
    (found : fs.tables.openInodes.find? (fun i => i.sector == sector) = some inode)
    (nonneg : inode.data.length.msb = false) :
    inodeReadAtOff sector size offset fs = inodeReadAt sector size.toNat offset.toNat fs := by
  unfold inodeReadAtOff inodeReadAt
  apply bind_eq_bind
  intro _ locked acquired
  apply bind_eq_bind
  intro held next finds
  have same : held = inode := by
    have inodes : locked.tables.openInodes = fs.tables.openInodes := by
      simp [lockAcquire, getTables, modifyTables, bind, StateT.bind, unlocked] at acquired
      rw [← acquired]
    rw [findInode_eq (inodes ▸ found)] at finds
    cases finds
    rfl
  subst same
  apply bind_eq_bind
  intro _ released _
  by_cases inside : offset < held.data.length
  · have less : offset.toNat < held.data.length.toNat := inside
    have positive : (clipSize held.data.length size offset).msb = false := by
      have clipped : (clipSize held.data.length size offset).toNat = _ := clipSize_toNat inside
      rw [BitVec.msb_eq_false_iff_two_mul_lt] at nonneg ⊢
      rw [clipped]
      split <;> omega
    rw [if_neg (BitVec.not_le.mpr inside), if_neg (not_le.mpr less)]
    apply bind_eq_bind
    intro refer _ _
    rw [positive, if_neg Bool.false_ne_true, clipSize_toNat inside]
  · have outside : held.data.length.toNat ≤ offset.toNat := not_lt.mp inside
    rw [if_pos (BitVec.not_lt.mp inside), if_pos outside]

/-- A read gives the bytes that the file has there, and changes nothing. -/
theorem inodeReadAt_reads {fs : FileSys} {sector : Word} {inode : Inode} {blocks data : List Word} {size offset : Word}
    (unlocked : fs.tables.inodeSysLock = false)
    (found : fs.tables.openInodes.find? (fun i => i.sector == sector) = some inode)
    (readable : Readable (view fs) inode blocks data) :
    ∃ bytes after, inodeReadAtOff sector size offset fs = some (bytes, after) ∧
      bytes.length = min size.toNat (inode.data.length.toNat - offset.toNat) ∧
      bytes = slice (bytesOf (logical fs.cache) data) offset.toNat
        (min size.toNat (inode.data.length.toNat - offset.toNat)) ∧
      after.tables = fs.tables ∧ logical after.cache = logical fs.cache := by
  have covered : inode.data.length.toNat ≤ 512 * data.length := readable.count ▸ le_bytesToSectors _
  have yields := inodeReadAt_yields (v := view fs) unlocked found readable.chain readable.blocksOnDisk
    readable.dataOnDisk covered size.toNat offset.toNat
  -- a read to the end of a full last block reads sector 0 as the next block
  have ends : 0 < min size.toNat (inode.data.length.toNat - offset.toNat) → TailOnDisk fs.tables.capacity
      (lastDisk (logical fs.cache) inode.data blocks) 0 data.length
      (bytesToSectors (offset.toNat + min size.toNat (inode.data.length.toNat - offset.toNat))) := by
    intro positive _ _
    have last : (lastDisk (logical fs.cache) inode.data blocks).indirect = 0 := readable.last
    have some : data ≠ [] := by
      rintro rfl
      rw [length_nil] at covered
      omega
    obtain ⟨s, member⟩ := exists_mem_of_ne_nil data some
    have onDisk := (readable.dataOnDisk s member).1
    rw [last]
    exact lt_of_le_of_lt (zero_le _) onDisk
  obtain ⟨bytes, after, ran, rfl, unchanged, -⟩ := yields.ends ends
  have length : (slice (bytesOf (logical fs.cache) data) offset.toNat
      (min size.toNat (inode.data.length.toNat - offset.toNat))).length =
        min size.toNat (inode.data.length.toNat - offset.toNat) := by
    rw [length_slice, length_bytesOf]
    omega
  rw [inodeReadAtOff_eq unlocked found readable.length]
  exact ⟨_, after, ran, length, rfl, congrArg View.tables unchanged, congrArg View.sectors unchanged⟩

theorem Represents.readable (rep : Represents v a) (sound : a.Sound) (found : a.files head = some f)
    (data : inode.data = (v.sectors head).inodeDisk) (unset : (v.sectors (f.last head)).inodeDisk.indirect = 0) :
    Readable v inode f.blocks f.data := by
  have file := rep.accessible sound found
  have small := sound.small found
  have length := rep.length_toNat sound found
  constructor
  case length =>
    rw [BitVec.msb_eq_false_iff_two_mul_lt, data, length]
    omega
  case chain =>
    rw [data]
    exact file.chain
  case count =>
    rw [data, length]
    exact sound.count found
  case last => rwa [data, Holds.lastDisk]
  case blocksOnDisk => exact file.blocks
  case dataOnDisk => exact file.usable

theorem inodeReadAt_reads_example :
    ∃ fs sector bytes after, inodeReadAtOff sector 600 500 fs = some (bytes, after) ∧ bytes.length = 200 := by
  obtain ⟨w, a, head, f, new, -⟩ := @exists_newFile 64 700 (by decide) (by decide) (by decide) (by decide) (by decide)
  obtain ⟨handle, isOpen⟩ := new.models.isOpen (new.held ▸ mem_cons_self)
  obtain ⟨inode, found, -, -, data⟩ := new.models.represents.exists_inode isOpen
  have length : inode.data.length.toNat = 700 := by
    rw [data, new.models.represents.length_toNat new.models.sound new.found, new.length]
  have readable := new.models.represents.readable new.models.sound new.found data new.unset
  obtain ⟨bytes, after, ran, size, -⟩ :=
    @inodeReadAt_reads w.fs head inode f.blocks f.data 600 500 new.models.represents.unlocked found readable
  refine ⟨w.fs, head, bytes, after, ran, ?_⟩
  rw [size, length]
  rfl

/-! ## Denied writes -/

section Denied

variable {handle : Handle} {buffer : List UInt8} {offset : Nat}

theorem writeData_denied (rep : Represents v a) (sound : a.Sound) (member : inode ∈ v.tables.openInodes)
    (same : inode.handle = handle) (denied : 0 < handle.denyWriteCnt) (found : a.files inode.sector = some f)
    (reached : offset / 512 < f.data.length ∨ offset / (512 * 123) ≤ f.blocks.length) :
    Yields True (inodeWriteData inode buffer offset >>= fun n => pure (n : Int)) v fun n w => n = 0 ∧ w = v := by
  have idle : 0 < inode.handle.denyWriteCnt := same ▸ denied
  have count := (rep.accessible sound found).chain.length_rest
  apply ((inodeWriteData_reads rep sound member found (.inl idle)).weaken fun _ => by omega).bind
  intro written w wrote
  obtain ⟨rfl, rfl⟩ := wrote
  exact Yields.pure ⟨rfl, rfl⟩

variable {memory : List Activation} {startDirectIdx : Fin 123} {previous : Word}

/-- The inodes with this sector have the new length. -/
def View.Lengthened (v : View) (sector : Word) (newLength : Nat) : Prop :=
  ∀ inode ∈ v.tables.openInodes, inode.sector = sector → inode.data.length = BitVec.ofNat 32 newLength

theorem finish_lengthened : Yields False (extendFromIn.finish inode newLength) v fun _ w =>
    w.Lengthened inode.sector newLength := by
  unfold extendFromIn.finish
  refine .skip fun old x => ?_
  apply (modifyInode_returns inode.sector _).bind
  apply ((cacheWrite_yields _ _ 0).weaken False.elim).bind
  intro _ y wrote
  apply lockRelease_returns.bind
  refine Yields.pure ?_
  rw [wrote.1]
  intro other member named
  obtain ⟨opened, -, rfl⟩ := mem_map.mp member
  split_ifs at named ⊢ with same
  · rfl
  · exact absurd (beq_iff_eq.mpr named) same

theorem extendFromIn_lengthened : Yields False (extendFromIn memory inode newLength startDirectIdx previous) v
    fun done w => done = true → w.Lengthened inode.sector newLength := by
  unfold extendFromIn
  dsimp only
  split
  · refine .skip fun _ _ => ?_
    refine .skip fun done _ => ?_
    split
    · refine .skip fun _ _ => ?_
      exact finish_lengthened.mono fun _ _ lengthened _ => lengthened
    · refine .skip fun _ _ => ?_
      exact Yields.pure nofun
  · exact finish_lengthened.mono fun _ _ lengthened _ => lengthened

theorem extendInodeIn_lengthened : Yields False (extendInodeIn memory inode newLength) v
    fun done w => done = true → newLength < 2 ^ 31 ∧ w.Lengthened inode.sector newLength := by
  unfold extendInodeIn
  split
  · exact fun _ _ => id
  next small =>
    have bound : newLength < 2 ^ 31 := by omega
    refine .skip fun _ _ => ?_
    refine .skip fun found _ => ?_
    dsimp only
    split
    · refine .skip fun sector _ => ?_
      cases sector with
      | none => exact Yields.pure nofun
      | some next =>
        refine .skip fun _ _ => ?_
        exact extendFromIn_lengthened.mono fun _ _ lengthened isDone => ⟨bound, lengthened isDone⟩
    · exact extendFromIn_lengthened.mono fun _ _ lengthened isDone => ⟨bound, lengthened isDone⟩

variable {fs : FileSys} (rep : Represents (view fs) a) (sound : a.Sound) (isOpen : a.handle head = some handle)
  (denied : 0 < handle.denyWriteCnt) (found : a.files head = some f)

include rep sound isOpen denied found

omit denied in
/-- A denied write at or past the end changes the length, or is reported as an error. -/
theorem inodeWriteAtIn_past (past : offset ≥ f.length) (positive : buffer.length > 0) :
    Yields False (inodeWriteAtIn memory head buffer offset) (view fs) fun n w => n = 0 → w ≠ view fs := by
  obtain ⟨inode, member, named, same, finds⟩ := findInode_represents rep isOpen
  unfold inodeWriteAtIn
  apply finds.bind
  have length := rep.inode_length sound member (named ▸ found)
  rw [length, if_pos ⟨past, positive⟩]
  have extending : Yields False (extendInodeIn memory inode (offset + buffer.length)) (view fs) _ :=
    @extendInodeIn_lengthened (view fs) inode (offset + buffer.length) memory
  -- the check for overflow would be evaluated
  generalize extendInodeIn memory inode (offset + buffer.length) = program at extending ⊢
  apply extending.bind
  intro done x extended
  split
  next isDone =>
    obtain ⟨small, lengthened⟩ := extended isDone
    have keeps (opened : Inode) : Keeps (inodeWriteData opened buffer offset >>= fun n => pure (n : Int)) :=
      (inodeWriteData_keeps opened buffer offset).bind fun _ => Keeps.pure
    refine ((findInode_keeps head).bind keeps x).mono ?_
    rintro n w kept - rfl
    have grown := congrArg BitVec.toNat (lengthened inode (kept.1 ▸ member) rfl)
    rw [length, BitVec.toNat_ofNat, Nat.mod_eq_of_lt (by omega)] at grown
    omega
  next => exact Yields.pure nofun

/-- A denied write that does not extend the file walks to the block of its offset. -/
theorem deniedWrite_walks (inside : ¬ (offset ≥ f.length ∧ buffer.length > 0)) :
    Yields ((view fs).Walks ((view fs).sectors head).inodeDisk (offset / (512 * 123)))
      (inodeWriteAtIn memory head buffer offset) (view fs) fun n w => n = 0 ∧ w = view fs ∧
        (view fs).Walks ((view fs).sectors head).inodeDisk (offset / (512 * 123)) := by
  obtain ⟨inode, isFound, same, named, data⟩ := rep.exists_inode isOpen
  have length := rep.inode_length sound (mem_of_find?_eq_some isFound) (named ▸ found)
  have idle : 0 < inode.handle.denyWriteCnt := same ▸ denied
  unfold inodeWriteAtIn
  apply (findInode_returns isFound).bind
  rw [length, if_neg inside, ← data]
  apply (inodeWriteData_idle offset (.inl idle)).bind
  intro written w wrote
  exact Yields.pure ⟨by rw [wrote.1]; rfl, wrote.2⟩

theorem deniedWrite_inside (inside : offset < f.length) :
    ∃ after, inodeWriteAtIn memory head buffer offset fs = some (0, after) ∧ view after = view fs := by
  have file := rep.accessible sound found
  have count := file.chain.length_rest
  rw [sound.count found, bytesToSectors] at count
  have walks := file.chain.walks file.blocks (show offset / (512 * 123) ≤ _ by omega)
  obtain ⟨_, after, ran, rfl, kept, -⟩ :=
    (deniedWrite_walks rep sound isOpen denied found fun past => not_le.mpr inside past.1).ends walks
  exact ⟨after, ran, kept⟩

/-- A denied write changes nothing exactly if it starts inside the file, or has no bytes and the blocks on the way to
    its offset are on the disk. -/
theorem inodeWriteAt_denied :
    (∃ after, inodeWriteAtIn memory head buffer offset fs = some (0, after) ∧ view after = view fs) ↔
      offset < f.length ∨
        buffer = [] ∧ (view fs).Walks ((view fs).sectors head).inodeDisk (offset / (512 * 123)) := by
  constructor
  · rintro ⟨after, ran, kept⟩
    by_cases past : offset < f.length
    · exact .inl past
    have none : buffer = [] := by
      by_contra some
      exact (inodeWriteAtIn_past rep sound isOpen found (not_lt.mp past) (length_pos_iff.mpr some)).ended ran rfl kept
    have walked := ((deniedWrite_walks rep sound isOpen denied found (by simp [none])).ended ran).2.2
    exact .inr ⟨none, walked⟩
  · rintro (inside | ⟨none, walks⟩)
    · exact deniedWrite_inside rep sound isOpen denied found inside
    · have empty : ¬ (offset ≥ f.length ∧ buffer.length > 0) := by simp [none]
      obtain ⟨_, after, ran, rfl, kept, -⟩ := (deniedWrite_walks rep sound isOpen denied found empty).ends walks
      exact ⟨after, ran, kept⟩

/-- At or past the end the file is extended before `deny_write_cnt` is looked at. -/
theorem deniedWrite_extends (past : offset ≥ f.length ∧ buffer.length > 0)
    (small : offset + buffer.length + 512 < 2 ^ 31)
    (enough : f.needs (offset + buffer.length) ≤ (freeSectors a.freeMap).length)
    (extension : Extends (view fs) head f (offset + buffer.length)) :
    ∃ after, inodeWriteAt head buffer offset fs = some (0, after) ∧
      ((view after).sectors head).inodeDisk.length.toNat = offset + buffer.length := by
  obtain ⟨inode, member, named, -, finds⟩ := findInode_represents rep isOpen
  have soundAfter := sound.extend found (le_trans past.1 (le_add_right _ _)) small enough
  have foundAfter : (a.extend head (offset + buffer.length)).files head = _ := files_extend found
  have count := soundAfter.count foundAfter
  have extending : Yields True (extendInode inode (offset + buffer.length)) (view fs) _ :=
    @extendInode_represents _ (view fs) a head f inode (offset + buffer.length) rep sound member named found small
      extension enough
  have writes : Yields True (inodeWriteAt head buffer offset) (view fs) fun n w => n = 0 ∧
      Represents w (a.extend head (offset + buffer.length)) := by
    unfold inodeWriteAt inodeWriteAtIn
    apply finds.bind
    rw [rep.inode_length sound member (named ▸ found), if_pos past]
    -- the check for overflow would be evaluated
    unfold extendInode at extending
    generalize extendInodeIn [] inode (offset + buffer.length) = program at extending ⊢
    apply extending.bind
    intro done x extended
    obtain ⟨rfl, repAfter, -⟩ := extended
    obtain ⟨opened, memberAfter, sector, same, findsAfter⟩ :=
      findInode_represents repAfter ((handle_extend ..).trans isOpen)
    rw [if_pos rfl]
    apply findsAfter.bind
    refine (writeData_denied repAfter soundAfter memberAfter same denied (by rw [sector, foundAfter]) (.inl ?_)).mono ?_
    · rw [count, bytesToSectors]
      show offset / 512 < (offset + buffer.length + 511) / 512
      omega
    · intro n w wrote
      exact ⟨wrote.1, wrote.2 ▸ repAfter⟩
  obtain ⟨n, after, ran, rfl, repAfter⟩ := writes.ends trivial
  exact ⟨after, ran, repAfter.length_toNat soundAfter foundAfter⟩

end Denied

/-- A file may not be written any more. -/
theorem NewFile.denied {capacity total : Nat} {w : World} (new : NewFile capacity total w a head f) :
    ∃ (fs : FileSys) (b : Volume) (handle : Handle), Represents (view fs) b ∧ b.Sound ∧
      b.handle head = some handle ∧ 0 < handle.denyWriteCnt ∧
      b.files head = some f ∧ (view fs).sectors = (view w.fs).sectors := by
  obtain ⟨handle, isOpen⟩ := new.models.isOpen (new.held ▸ mem_cons_self)
  let deny (handle : Handle) : Handle := { handle with denyWriteCnt := handle.denyWriteCnt + 1 }
  have denies : (a.setHandle head deny).handle head = some (deny handle) := by
    rw [handle_setHandle, if_pos rfl, isOpen]
    · rfl
    · exact fun _ => rfl
  have sound : (a.setHandle head deny).Sound :=
    new.models.sound.setHandle fun _ => ⟨rfl, fun isMap => absurd isMap new.notMap⟩
  have rep := @Represents.modifyInode _ _ new.models.represents
    (fun inode => { inode with denyWriteCnt := inode.denyWriteCnt + 1 }) deny head (fun _ => rfl) fun _ => ⟨rfl, rfl⟩
  exact ⟨{ w.fs with tables := { w.fs.tables with openInodes := _ } }, _, _, rep, sound, denies, succ_pos _, new.found,
    rfl⟩

theorem inodeWriteAt_denied_example : ∃ fs head after, inodeWriteAt head [1, 1] 0 fs = some (0, after) ∧
    view after = view fs := by
  obtain ⟨w, a, head, f, new⟩ := exists_oneByte
  obtain ⟨fs, b, handle, rep, sound, isOpen, denied, found, -⟩ := new.denied
  have length := new.length
  obtain ⟨after, ran, same⟩ := (@inodeWriteAt_denied _ _ _ _ [1, 1] 0 [] fs rep sound isOpen denied found).mpr
    (.inl (by omega))
  exact ⟨fs, head, after, ran, same⟩

/-- A denied write of one byte at the end of the file makes it a byte longer. -/
theorem inodeWriteAt_denied_grows : ∃ (fs : FileSys) (a : Volume) (head : Word) (handle : Handle) (after : FileSys),
    Represents (view fs) a ∧ a.Sound ∧ a.handle head = some handle ∧ 0 < handle.denyWriteCnt ∧
      ((view fs).sectors head).inodeDisk.length.toNat = 1 ∧ inodeWriteAt head [1] 1 fs = some (0, after) ∧
      ((view after).sectors head).inodeDisk.length.toNat = 2 := by
  obtain ⟨w, made, head, f, new⟩ := exists_oneByte
  obtain ⟨fs, a, handle, rep, sound, isOpen, denied, found, -⟩ := new.denied
  have length := new.length
  have size : f.data.length = 1 := by
    rw [sound.count found, length]
    rfl
  have none : f.growth 2 = 0 := by
    rw [File.growth, size]
    rfl
  have enough : f.needs 2 ≤ (freeSectors a.freeMap).length := by
    rw [File.needs, none, growthSectors_fits (zero_le _)]
    exact zero_le _
  have extension : Extends (view fs) head f 2 := by
    intro _ full
    rw [size] at full
    exact absurd full (by decide)
  obtain ⟨after, ran, longer⟩ := @deniedWrite_extends _ _ _ _ [1] 1 fs rep sound isOpen denied found
    ⟨le_of_eq length, by decide⟩ (by decide) enough extension
  exact ⟨fs, a, head, handle, after, rep, sound, isOpen, denied, length ▸ rep.length_toNat sound found, ran, longer⟩

end Pintos.Filesys
