import Pintos.Filesys.Represents

/-! # The functions of `inode.c` on volumes

One theorem for each function: from a disk that represents a volume it can only return what the operation on the volume
returns, and leaves a disk that represents the volume after the operation.
-/

namespace Pintos.Filesys

open Library Function List Volume

variable {safe : Prop} {v w : View} {a : Volume} {head : Word} {f : File}

/-! ## `inode_write_at` -/

/-- What a write needs.  One that starts inside the file must end in the sectors that the file has. -/
structure Fits (v : View) (a : Volume) (head : Word) (f : File) (size offset : Nat) : Prop where
  inside : offset < f.length → offset + size ≤ 512 * f.data.length
  past : offset ≥ f.length → size > 0 → offset + size + 512 < 2 ^ 31 ∧
    f.needs (offset + size) ≤ (freeSectors a.freeMap).length ∧ Extends v head f (offset + size)

/-- The file that the data are written to. -/
def Volume.target (a : Volume) (f : File) (size offset : Nat) : File :=
  if offset ≥ f.length ∧ size > 0 then f.grow (offset + size) (a.next (f.needs (offset + size))) else f

/-- A write of no bytes still looks for the block of its offset. -/
def WriteEnds (v : View) (a : Volume) (head : Word) (f : File) (size offset : Nat) : Prop :=
  if size = 0 then offset / (512 * 123) ≤ f.blocks.length else EndsOnDisk v head (a.target f size offset)

theorem Volume.overwrite_nil (a : Volume) (head : Word) (offset : Nat) : a.overwrite head offset [] = a := by
  unfold overwrite
  split
  next => rfl
  next f found =>
    have same : f.overwrite offset [] = f := by rw [File.overwrite, splice_nil]
    rw [same, put, ← found, update_eq_self]

variable {offset : Nat}

variable {buffer : List UInt8}

/-- A write that is denied, or of no bytes. -/
theorem inodeWriteData_reads {inode : Inode} (rep : Represents v a) (sound : a.Sound)
    (isOpen : inode ∈ v.tables.openInodes) (found : a.files inode.sector = some f)
    (idle : 0 < inode.denyWriteCnt ∨ buffer = []) :
    Yields (offset / (512 * 123) ≤ f.blocks.length) (inodeWriteData inode buffer offset) v fun written w =>
      written = 0 ∧ w = v := by
  have data := rep.cached inode isOpen
  have file := rep.accessible sound found
  rw [← data] at file
  exact (inodeWriteData_idle offset idle).imp (file.chain.walks file.blocks) fun _ _ wrote => ⟨wrote.1, wrote.2.1⟩

theorem Volume.write_past (found : a.files head = some f) (past : offset ≥ f.length ∧ buffer.length > 0) :
    a.write head buffer offset = (a.extend head (offset + buffer.length)).overwrite head offset buffer := by
  rw [write, found]
  exact if_pos past

theorem Volume.write_inside (found : a.files head = some f) (inside : ¬ (offset ≥ f.length ∧ buffer.length > 0)) :
    a.write head buffer offset = a.overwrite head offset buffer := by
  rw [write, found]
  exact if_neg inside

theorem Volume.files_extend {newLength : Nat} (found : a.files head = some f) : (a.extend head newLength).files head =
      some ((a.kept (a.next (f.needs newLength)) head f).grow newLength (a.next (f.needs newLength))) := by
  rw [extend, found]
  exact update_self _ _ _

section

variable (rep : Represents v a)

include rep

/-- A write of data changes neither the last block nor the free sectors. -/
theorem WroteData.spared (sound : a.Sound) (found : a.files head = some f) (wrote : WroteData v w f) :
    Spared v w head f := by
  constructor
  case indirect =>
    rw [wrote.frame]
    exact fun inData => (sound.apart found).2.2 (f.last_mem head) inData
  case free =>
    intro s free
    rw [wrote.tables, rep.freeMap] at free
    apply wrote.frame
    intro inData
    exact not_used_of_free sound.bounded free (sound.used found (File.data_mem inData))

variable {handle : Handle}

theorem findInode_represents (isOpen : a.handle head = some handle) :
    ∃ inode ∈ v.tables.openInodes, inode.sector = head ∧ inode.handle = handle ∧
      Returns safe (findInode head) v inode v := by
  obtain ⟨inode, found, same, sector, -⟩ := rep.exists_inode isOpen
  exact ⟨inode, mem_of_find?_eq_some found, sector, same, findInode_returns found⟩

omit rep in
theorem Volume.handle_extend (a : Volume) (head sector : Word) (newLength : Nat) :
    (a.extend head newLength).handle sector = a.handle sector := by
  unfold extend
  split <;> rfl

omit rep in
theorem Volume.length_extend (a : Volume) (head : Word) (newLength : Nat) :
    (a.extend head newLength).freeMap.length = a.freeMap.length := by
  unfold extend
  split
  next => rfl
  next => exact length_markAll _ _

omit rep in
/-- The data are written once the file has been extended. -/
theorem inodeWriteExtended_represents {program : FsM Bool} {b : Volume} {g : File} {extra : View → Prop}
    (extending : Yields safe program v fun done x => done = true ∧ Represents x b ∧ extra x) (sound : b.Sound)
    (isOpen : b.handle head = some handle) (allowed : handle.denyWriteCnt = 0) (found : b.files head = some g)
    (positive : 0 < buffer.length) (room : offset + buffer.length ≤ 512 * g.data.length)
    (ends : ∀ x, Represents x b → extra x → safe → EndsOnDisk x head g) :
    Yields safe (do
      if ← program then
        let extended ← findInode head
        return ((← inodeWriteData extended buffer offset : Nat) : Int)
      else
        return -1) v fun n w => n = buffer.length ∧ ∃ x, Represents x b ∧ extra x ∧
      Represents w (b.overwrite head offset buffer) ∧ WroteData x w g := by
  apply extending.bind
  intro done x extended
  obtain ⟨rfl, rep, kept⟩ := extended
  obtain ⟨opened, member, sector, same, finds⟩ := findInode_represents rep isOpen
  have undenied : opened.denyWriteCnt = 0 := (congrArg Handle.denyWriteCnt same).trans allowed
  rw [if_pos rfl]
  apply finds.bind
  apply ((inodeWriteData_represents rep sound member sector found undenied positive room).weaken (ends x rep kept)).bind
  intro written w wrote
  obtain ⟨rfl, repWritten, wrote⟩ := wrote
  exact Yields.pure ⟨rfl, x, rep, kept, repWritten, wrote⟩

section

variable (sound : a.Sound) (isOpen : a.handle head = some handle)

include sound isOpen

/-- The write at or past the end: the extension, then the data. -/
theorem inodeWritePast_represents {inode : Inode}
    (allowed : handle.denyWriteCnt = 0) (member : inode ∈ v.tables.openInodes) (named : inode.sector = head)
    (found : a.files head = some f) (fits : Fits v a head f buffer.length offset)
    (past : offset ≥ f.length ∧ buffer.length > 0) :
    Yields (EndsOnDisk v head (a.target f buffer.length offset)) (do
      if ← extendInode inode (offset + buffer.length) then
        let extended ← findInode head
        return ((← inodeWriteData extended buffer offset : Nat) : Int)
      else
        return -1) v fun n w => n = buffer.length ∧ Represents w (a.write head buffer offset) ∧
      Spared v w head (a.target f buffer.length offset) := by
  obtain ⟨small, enough, extension⟩ := fits.past past.1 past.2
  have longer : f.length ≤ offset + buffer.length := Nat.le_trans past.1 (Nat.le_add_right _ _)
  have soundAfter := sound.extend found longer small enough
  have extending : Yields (EndsOnDisk v head (a.target f buffer.length offset))
      (extendInode inode (offset + buffer.length)) v _ :=
    @extendInode_represents _ v a head f inode (offset + buffer.length) rep sound member named found small extension
      enough
  rw [write_past found past]
  -- the check for overflow would be evaluated
  generalize extendInode inode (offset + buffer.length) = program at extending ⊢
  have target : a.target f buffer.length offset =
      f.grow (offset + buffer.length) (a.next (f.needs (offset + buffer.length))) := if_pos past
  rw [← target] at extending
  obtain ⟨g, foundAfter, length, sameBlocks, sameData⟩ :
      ∃ g, (a.extend head (offset + buffer.length)).files head = some g ∧
      g.length = offset + buffer.length ∧ g.blocks = (a.target f buffer.length offset).blocks ∧
      g.data = (a.target f buffer.length offset).data := by
    rw [target]
    exact ⟨_, files_extend found, rfl, by simp [File.grow, File.growth]⟩
  have sameLast : g.last head = (a.target f buffer.length offset).last head := by
    rw [File.last, File.last, sameBlocks]
  have room : offset + buffer.length ≤ 512 * g.data.length := by
    exact length ▸ soundAfter.covered foundAfter
  have isOpenAfter : (a.extend head (offset + buffer.length)).handle head = some handle := by
    rw [handle_extend, isOpen]
  apply (inodeWriteExtended_represents extending soundAfter isOpenAfter allowed foundAfter past.2 room ?_).mono
  · intro n w wrote
    obtain ⟨rfl, x, repAfter, spared, repWritten, wrote⟩ := wrote
    have sparedAfter := wrote.spared repAfter soundAfter foundAfter
    refine ⟨rfl, repWritten, ?_, ?_⟩
    · rw [← spared.indirect, ← sameLast]
      exact sparedAfter.indirect
    · intro s free
      rw [sparedAfter.free s free]
      exact spared.free s (wrote.tables ▸ free)
  · intro x repAfter spared ends full
    have capacity : x.tables.capacity = v.tables.capacity := by
      rw [repAfter.capacity, rep.capacity, length_extend]
    rw [sameLast, spared.indirect, capacity]
    exact ends (sameData ▸ full)

theorem inodeWriteAt_represents
    (allowed : handle.denyWriteCnt = 0) (found : a.files head = some f) (fits : Fits v a head f buffer.length offset) :
    Yields (WriteEnds v a head f buffer.length offset) (inodeWriteAt head buffer offset) v fun n w =>
      n = buffer.length ∧ Represents w (a.write head buffer offset) ∧
      Spared v w head (a.target f buffer.length offset) := by
  obtain ⟨inode, member, named, same, finds⟩ := findInode_represents rep isOpen
  have length := rep.inode_length sound member (named ▸ found)
  unfold inodeWriteAt inodeWriteAtIn
  apply finds.bind
  rw [length]
  by_cases past : offset ≥ f.length ∧ buffer.length > 0
  · have ends : WriteEnds v a head f buffer.length offset → EndsOnDisk v head (a.target f buffer.length offset) := by
      unfold WriteEnds
      rw [if_neg (Nat.ne_of_gt past.2)]
      exact id
    have writes := @inodeWritePast_represents v a head f offset buffer rep handle sound isOpen inode allowed member
      named found fits past
    rw [if_pos past]
    unfold extendInode at writes
    generalize extendInodeIn [] inode (offset + buffer.length) = program at writes ⊢
    exact writes.weaken ends
  · have target : a.target f buffer.length offset = f := if_neg past
    rw [if_neg past, write_inside found past, target]
    unfold WriteEnds
    rw [target]
    by_cases none : buffer.length = 0
    · have empty : buffer = [] := length_eq_zero_iff.mp none
      subst empty
      rw [if_pos length_nil, overwrite_nil]
      apply (inodeWriteData_reads rep sound member (named ▸ found) (.inr rfl)).bind
      intro written w wrote
      obtain ⟨rfl, rfl⟩ := wrote
      exact Yields.pure ⟨rfl, rep, rfl, fun _ _ => rfl⟩
    · have inside : offset < f.length := by
        by_contra outside
        exact past ⟨Nat.not_lt.mp outside, Nat.pos_of_ne_zero none⟩
      rw [if_neg none]
      have allowedHere : inode.denyWriteCnt = 0 := (congrArg Handle.denyWriteCnt same).trans allowed
      apply (inodeWriteData_represents rep sound member named found allowedHere (Nat.pos_of_ne_zero none)
        (fits.inside inside)).bind
      intro written w wrote
      obtain ⟨rfl, repWritten, wrote⟩ := wrote
      exact Yields.pure ⟨rfl, repWritten, wrote.spared rep sound found⟩

/-! ## `inode_read_at` and `inode_length` -/

theorem inodeReadAt_represents (found : a.files head = some f)
    (size offset : Nat) :
    Yields (EndsOnDisk v head f) (inodeReadAt head size offset) v
      fun bytes w => bytes = f.read size offset ∧ w = v := by
  obtain ⟨inode, member, -, -, data⟩ := rep.exists_inode isOpen
  have file := rep.accessible sound found
  have length := rep.length_toNat sound found
  have covered : inode.data.length.toNat ≤ 512 * f.data.length := by
    rw [data, length]
    exact sound.covered found
  rw [← data] at file
  have reads := inodeReadAt_yields rep.unlocked member file.chain file.blocks file.usable covered size offset
  rw [data, Holds.lastDisk, length, (rep.file found).bytes] at reads
  apply (reads.weaken fun ends _ => ends.tail _).mono
  intro bytes w read
  exact ⟨read.1, read.2.1⟩

theorem inodeLength_represents
    (found : a.files head = some f) : Returns safe (inodeLength head) v f.length v := by
  obtain ⟨inode, isMember, -, -, data⟩ := rep.exists_inode isOpen
  apply (findInode_returns isMember).bind
  rw [data, rep.length_toNat sound found]
  exact Returns.pure

end

/-! ## `inode_create` -/

variable {taken data : List Word} {length : Nat}

omit rep in
theorem Grown.holds_new (grown : Grown data v w head 0 (bytesToSectors length) taken)
    (sized : (w.sectors head).inodeDisk.length = BitVec.ofNat 32 length) :
    Holds w.sectors head (File.empty.grow length taken) where
  chain := grown.chain
  named := grown.sector
  length := sized
  bytes := by
    have size : (carve 0 (bytesToSectors length) taken).2.length = bytesToSectors length := (carve_spec grown.count).1
    show bytesOf w.sectors (carve 0 (bytesToSectors length) taken).2 = replicate (512 * bytesToSectors length) 0
    rw [bytesOf_zeros grown.zeroed, size]

/-- A file that is made on a sector that belongs to none. -/
theorem Grown.represents_new {mapped : File} (sound : a.Sound) (isMap : a.files freeMapSector = some mapped)
    (used : Used a.freeMap head) (loose : ¬ a.Owned head)
    (sized : (w.sectors head).inodeDisk.length = BitVec.ofNat 32 length)
    (grown : Grown mapped.data v w head 0 (bytesToSectors length) taken) :
    Represents w ((a.take taken).put head (File.empty.grow length taken)) ∧
      Spared v w head (File.empty.grow length taken) := by
  have tables := grown.takes.tables
  have notFile : ∀ {other g}, a.files other = some g → head ∉ g.sectors other :=
    fun isFile member => loose ⟨_, _, isFile, member⟩
  constructor
  · apply rep.replace sound isMap grown.takes
    case apart =>
      intro s other g different isFile member
      have notHead : s ≠ head := by
        rintro rfl
        exact notFile isFile member
      refine ⟨?_, notHead⟩
      intro touched
      cases mem_cons.mp touched with
      | inl same => exact notHead same
      | inr new => exact rep.not_taken sound grown.takes isFile member new
    case sectors => exact fun _ _ => rfl
    case tables =>
      have unlocked := rep.unlocked
      rw [tables]
      dsimp only
      rw [unlocked]
    case handles => rw [tables]
    case cached =>
      intro inode member
      rw [tables] at member
      refine .inl ⟨?_, member⟩
      rintro rfl
      obtain ⟨g, isFile⟩ := rep.live_inode sound member
      exact notFile isFile mem_cons_self
    case holds => exact grown.holds_new sized
    case tail =>
      rintro rfl
      exact absurd mem_cons_self (notFile isMap)
  · constructor
    case indirect =>
      have spare := grown.spare
      rw [lastDisk_head] at spare
      exact spare
    case free =>
      intro s free
      rw [← rep.freeMap] at used
      have bounded : v.tables.freeMap.length ≤ 2 ^ 28 := rep.freeMap ▸ sound.bounded
      exact grown.free_kept bounded (fun t inMap => rep.used sound isMap (File.data_mem inMap)) used free

theorem inodeCreate_represents {info : Word} (sound : a.Sound) (used : Used a.freeMap head) (loose : ¬ a.Owned head)
    (small : length + 512 < 2 ^ 31) (enough : File.empty.needs length ≤ (freeSectors a.freeMap).length) :
    Yields safe (inodeCreate head length info) v fun done w => done = true ∧ Represents w (a.create head length) ∧
      Spared v w head (File.empty.grow length (a.next (File.empty.needs length))) ∧
      (w.sectors head).inodeDisk.info = info := by
  obtain ⟨mapped, isMap, -⟩ := sound.map
  have map := rep.mapReady sound isMap
  have notBlock : head ∉ mapped.blocks := fun block =>
    loose ⟨_, mapped, isMap, File.block_mem (mem_cons_of_mem _ block)⟩
  have notData : head ∉ mapped.data := fun inData => loose ⟨_, mapped, isMap, File.data_mem inData⟩
  unfold inodeCreate inodeCreateIn
  rw [if_neg (by omega)]
  apply ((allocateInodeDisk_yields rep.unlocked map (rep.freeMap.symm ▸ used) notData
    (extendable_of_notMem notBlock notData _) (by rw [rep.freeMap]; exact enough)).weaken fun _ => trivial).mono
  intro done w made
  obtain ⟨rfl, -, sized, infoSet, taken, grown⟩ := made
  have next : a.next (File.empty.needs length) = taken := by
    have count : taken.length = File.empty.needs length := grown.count
    rw [← count, rep.next_eq grown.takes]
  rw [create, next]
  have new := Grown.represents_new rep sound isMap used loose sized grown
  exact ⟨rfl, new.1, new.2, infoSet⟩

/-! ## `inode_open` and `inode_remove` -/

theorem Represents.withInodes {inodes : List Inode} {handles : List Handle} (same : inodes.map Inode.handle = handles)
    (cached : ∀ inode ∈ inodes, inode.data = (v.sectors inode.sector).inodeDisk) :
    Represents (v.withInodes inodes) { a with handles := handles } :=
  { rep with handles := same, cached := cached }

/-- The inode at a sector is changed, in other fields than those that are checked. -/
theorem Represents.modifyInode {change : Inode → Inode} {change' : Handle → Handle} {sector : Word}
    (same : ∀ inode, (change inode).handle = change' inode.handle)
    (keeps : ∀ inode, (change inode).sector = inode.sector ∧ (change inode).data = inode.data) :
    Represents (v.withInodes (v.tables.openInodes.map fun inode =>
      if inode.sector == sector then change inode else inode)) (a.setHandle sector change') := by
  apply rep.withInodes
  · rw [← rep.handles, map_map, map_map]
    apply map_congr_left
    intro inode _
    show Inode.handle (if inode.sector == sector then change inode else inode) =
      if inode.sector == sector then change' inode.handle else inode.handle
    split
    next => exact same inode
    next => rfl
  · intro inode member
    obtain ⟨before, isOpen, rfl⟩ := mem_map.mp member
    have cached := rep.cached before isOpen
    split
    next =>
      obtain ⟨sameSector, sameData⟩ := keeps before
      rw [sameSector, sameData]
      exact cached
    next => exact cached

theorem inodeOpen_represents (sound : a.Sound) (found : a.files head = some f) :
    Yields safe (inodeOpen head) v fun _ w => Represents w (a.opened head) ∧ w.sectors = v.sectors := by
  apply getTables_returns.bind
  have handle := rep.find_handle head
  unfold opened
  cases isOpen : v.tables.openInodes.find? fun inode => inode.sector == head with
  | some inode =>
    rw [isOpen, Option.map_some] at handle
    rw [handle]
    apply (modifyInode_returns _ _).yields
    exact ⟨rep.modifyInode (fun _ => rfl) fun _ => ⟨rfl, rfl⟩, rfl⟩
  | none =>
    rw [isOpen, Option.map_none] at handle
    rw [handle]
    apply (readInodeDisk_returns (rep.onDisk sound found mem_cons_self)).bind
    apply (modifyTables_returns _).yields
    refine ⟨rep.withInodes ?_ ?_, rfl⟩
    · rw [map_cons, rep.handles]
      rfl
    · intro inode member
      cases mem_cons.mp member with
      | inl new => rw [new]
      | inr old => exact rep.cached inode old

theorem inodeRemove_represents (isOpen : a.handle head = some handle) :
    Yields safe (inodeRemove head) v fun _ w => Represents w (a.remove head) ∧ w.sectors = v.sectors := by
  obtain ⟨inode, -, -, -, finds⟩ := findInode_represents rep isOpen
  apply finds.bind
  apply (modifyInode_returns _ _).yields
  exact ⟨rep.modifyInode (fun _ => rfl) fun _ => ⟨rfl, rfl⟩, rfl⟩

end

end Pintos.Filesys
