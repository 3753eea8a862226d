import Pintos.Filesys.Inode

/-! # What the primitives do to the file system as seen from above

The cache is seen as the array of sectors it stands for.  Every later result is stated about views, so
nothing above this module depends on what is cached.
-/

namespace Pintos.Filesys

open Library Kernel Function

structure View where
  tables : Tables
  sectors : Word → Sector

instance : Viewed FileSys View where
  view fs := { tables := fs.tables, sectors := logical fs.cache }

namespace View

def withLock (v : View) (held : Bool) : View :=
  { v with tables := { v.tables with inodeSysLock := held } }

def withMap (v : View) (freeMap : Bitmap) : View :=
  { v with tables := { v.tables with freeMap := freeMap } }

def withInodes (v : View) (openInodes : List Inode) : View :=
  { v with tables := { v.tables with openInodes := openInodes } }

def withSectors (v : View) (sectors : Word → Sector) : View :=
  { v with sectors := sectors }

theorem withLock_self {v : View} {held : Bool} (same : v.tables.inodeSysLock = held) : v.withLock held = v := by
  subst same
  rfl

@[simp] theorem withLock_withLock (v : View) (held held' : Bool) :
    (v.withLock held).withLock held' = v.withLock held' :=
  rfl

end View

/-- A sector written whole. -/
theorem Sector.store_whole (sector whole : Sector) : sector.store whole.bytes 0 = whole := by
  apply Sector.ext
  exact splice_whole (by rw [whole.length_bytes, sector.length_bytes])

theorem Sector.load_whole (sector : Sector) : sector.load 512 0 = sector.bytes := by
  simp [Sector.load, slice]

variable {safe : Prop} {v : View} {secNo sector : Word} {inode : Inode}

theorem getTables_returns : Returns safe getTables v v.tables v := by
  apply returns_of_eq
  intro fs seen
  exact ⟨fs, by rw [← seen]; rfl, seen⟩

theorem modifyTables_returns (change : Tables → Tables) :
    Returns safe (modifyTables change) v () { v with tables := change v.tables } := by
  apply returns_of_eq
  intro fs seen
  exact ⟨_, rfl, by rw [← seen]; rfl⟩

theorem cacheRead_yields (secNo : Word) (size offset : Nat) :
    Yields (secNo.toNat < v.tables.capacity) (cacheRead secNo size offset) v fun bytes after =>
      bytes = (v.sectors secNo).load size offset ∧ after = v ∧ secNo.toNat < v.tables.capacity := by
  intro fs seen
  subst seen
  obtain ⟨-, kept, bytes⟩ := fs.coherent.read secNo size offset
  by_cases onDisk : secNo.toNat < fs.tables.capacity
  · rw [cacheRead, if_pos onDisk]
    refine ⟨bytes, ?_, onDisk⟩
    simp only [view, kept]
  · rw [cacheRead, if_neg onDisk]
    exact onDisk

section

variable (onDisk : secNo.toNat < v.tables.capacity)

include onDisk

theorem cacheRead_returns (size offset : Nat) :
    Returns safe (cacheRead secNo size offset) v ((v.sectors secNo).load size offset) v :=
  ((cacheRead_yields secNo size offset).weaken fun _ => onDisk).mono fun _ _ read => ⟨read.1, read.2.1⟩

omit onDisk in
theorem cacheWrite_yields (secNo : Word) (buffer : List UInt8) (offset : Nat) :
    Yields (secNo.toNat < v.tables.capacity) (cacheWrite secNo buffer offset) v fun _ after =>
      after = v.withSectors (update v.sectors secNo ((v.sectors secNo).store buffer offset)) ∧
      secNo.toNat < v.tables.capacity := by
  intro fs seen
  subst seen
  by_cases onDisk : secNo.toNat < fs.tables.capacity
  · rw [cacheWrite, if_pos onDisk]
    refine ⟨?_, onDisk⟩
    simp only [view, View.withSectors, (fs.coherent.write secNo buffer offset).2]
  · rw [cacheWrite, if_neg onDisk]
    exact onDisk

theorem cacheWrite_returns (buffer : List UInt8) (offset : Nat) : Returns safe (cacheWrite secNo buffer offset) v ()
      (v.withSectors (update v.sectors secNo ((v.sectors secNo).store buffer offset))) :=
  ((cacheWrite_yields secNo buffer offset).weaken fun _ => onDisk).mono fun _ _ wrote => ⟨rfl, wrote.1⟩

omit onDisk in
theorem cacheRelease_returns (secNo : Word) : Returns safe (cacheRelease secNo) v () v := by
  apply returns_of_eq
  intro fs seen
  subst seen
  refine ⟨_, rfl, ?_⟩
  simp only [view, (fs.coherent.release secNo).2]

omit onDisk in
theorem readInodeDisk_yields (secNo : Word) :
    Yields (secNo.toNat < v.tables.capacity) (readInodeDisk secNo) v fun disk after =>
      disk = (v.sectors secNo).inodeDisk ∧ after = v ∧ secNo.toNat < v.tables.capacity := by
  apply (cacheRead_yields secNo 512 0).bind
  intro bytes after read
  rw [read.1, read.2.1, Sector.load_whole]
  exact Yields.pure ⟨rfl, rfl, read.2.2⟩

theorem readInodeDisk_returns : Returns safe (readInodeDisk secNo) v (v.sectors secNo).inodeDisk v :=
  ((readInodeDisk_yields secNo).weaken fun _ => onDisk).mono fun _ _ read => ⟨read.1, read.2.1⟩

theorem writeInodeDisk_returns (disk : InodeDisk) :
    Returns safe (writeInodeDisk secNo disk) v () (v.withSectors (update v.sectors secNo (.ofInodeDisk disk))) := by
  have written : Returns safe _ v () _ := cacheWrite_returns onDisk (Sector.ofInodeDisk disk).bytes 0
  rwa [Sector.store_whole] at written

theorem writeZeros_returns :
    Returns safe (cacheWrite secNo Sector.zeros.bytes 0) v () (v.withSectors (update v.sectors secNo .zeros)) := by
  have written : Returns safe _ v () _ := cacheWrite_returns onDisk Sector.zeros.bytes 0
  rwa [Sector.store_whole] at written

end

theorem lockAcquire_returns (free : v.tables.inodeSysLock = false) :
    Returns safe lockAcquire v () (v.withLock true) := by
  apply getTables_returns.bind
  rw [free]
  exact modifyTables_returns fun t => { t with inodeSysLock := true }

theorem lockRelease_returns : Returns safe lockRelease v () (v.withLock false) :=
  modifyTables_returns _

theorem findInode_eq {fs : FileSys} (found : fs.tables.openInodes.find? (fun i => i.sector == sector) = some inode) :
    findInode sector fs = some (inode, fs) := by
  simp [findInode, getTables, bind, StateT.bind, found]
  rfl

theorem findInode_returns (found : v.tables.openInodes.find? (fun i => i.sector == sector) = some inode) :
    Returns safe (findInode sector) v inode v := by
  apply getTables_returns.bind
  rw [found]
  exact Returns.pure

theorem modifyInode_returns (sector : Word) (change : Inode → Inode) :
    Returns safe (modifyInode sector change) v () (v.withInodes (v.tables.openInodes.map fun inode =>
      if inode.sector == sector then change inode else inode)) :=
  modifyTables_returns _

end Pintos.Filesys
