import Pintos.Filesys.CreateLaws
import Pintos.Library.Counts

/-! # The table of open inodes (`filesys/inode.c`, `filesys/file.c`, `filesys/directory.c`)

Inodes are opened by sector, and a pointer to one may be handed to a `struct file` or a `struct dir`, which then owns
it. Calls with null pointers change nothing and are left out; a call that allocates memory is told whether it gets it.
`Exact` says that the table counts the handles, and each function is shown to count on. -/

namespace Pintos.Filesys

open Library Kernel List Nat

/-- `struct file`; its lock is free between calls. -/
structure OpenFile where
  inode : Word
  pos : Word
  denyWrite : Bool
  deriving DecidableEq

/-- `inode_open` -/
def inodeOpenIn (allocated : Bool) (sector : Word) : FsM (Option Word) := do
  let known := (← getTables).openInodes.any fun inode => inode.sector == sector
  if known || allocated then
    inodeOpen sector
    return some sector
  else
    return none

def inodeReopen (sector : Word) : FsM Unit := do
  let _ ← findInode sector
  modifyInode sector fun inode => { inode with openCnt := inode.openCnt + 1 }

def inodeDenyWrite (sector : Word) : FsM Unit := do
  modifyInode sector fun inode => { inode with denyWriteCnt := inode.denyWriteCnt + 1 }
  let inode ← findInode sector
  if inode.denyWriteCnt ≤ inode.openCnt then return () else failure

def inodeAllowWrite (sector : Word) : FsM Unit := do
  let inode ← findInode sector
  if 0 < inode.denyWriteCnt ∧ inode.denyWriteCnt ≤ inode.openCnt then
    modifyInode sector fun inode => { inode with denyWriteCnt := inode.denyWriteCnt - 1 }
  else failure

/-- `file_open`, which closes the inode if there is no memory for the `struct file`. -/
def fileOpen (allocated : Bool) (inode : Word) : FsM (Option OpenFile) := do
  if allocated then
    return some { inode := inode, pos := 0, denyWrite := false }
  else
    inodeClose inode
    return none

def fileReopen (allocated : Bool) (file : OpenFile) : FsM (Option OpenFile) := do
  inodeReopen file.inode
  fileOpen allocated file.inode

def fileDenyWrite (file : OpenFile) : FsM OpenFile := do
  if file.denyWrite then
    return file
  else
    inodeDenyWrite file.inode
    return { file with denyWrite := true }

def fileAllowWrite (file : OpenFile) : FsM OpenFile := do
  if file.denyWrite then
    inodeAllowWrite file.inode
    return { file with denyWrite := false }
  else
    return file

def fileClose (file : OpenFile) : FsM Unit := do
  let _ ← fileAllowWrite file
  inodeClose file.inode

/-- `dir_open`; a `struct dir` is known by its inode here. -/
def dirOpen (allocated : Bool) (inode : Word) : FsM (Option Word) := do
  if allocated then
    return some inode
  else
    inodeClose inode
    return none

def dirClose (dir : Word) : FsM Unit :=
  inodeClose dir

/-! ## Counts that are exact -/

/-- Every inode with a handle has one record, whose counters are those of the handles. -/
structure Exact (inodes : List Inode) (refs denied : Word → Nat) : Prop where
  once : (inodes.map Inode.sector).Nodup
  present : ∀ s, 0 < refs s → ∃ inode ∈ inodes, inode.sector = s
  counted : ∀ inode ∈ inodes, inode.openCnt = refs inode.sector
  positive : ∀ inode ∈ inodes, 0 < inode.openCnt
  denies : ∀ inode ∈ inodes, inode.denyWriteCnt = denied inode.sector

/-- `modifyInode` on the table. -/
def changeInode (inodes : List Inode) (sector : Word) (change : Inode → Inode) : List Inode :=
  inodes.map fun inode => if inode.sector == sector then change inode else inode

namespace Exact

variable {inodes : List Inode} {refs refs' denied denied' : Word → Nat} {s : Word} {inode : Inode}

section

variable (exact : Exact inodes refs denied)

include exact

theorem find (held : 0 < refs s) :
    ∃ inode, inodes.find? (fun inode => inode.sector == s) = some inode ∧ inode ∈ inodes ∧ inode.sector = s := by
  obtain ⟨record, member, named⟩ := exact.present s held
  cases found : inodes.find? fun inode => inode.sector == s with
  | none => exact absurd (beq_iff_eq.mpr named) (find?_eq_none.mp found record member)
  | some inode =>
    have matched := find?_some found
    exact ⟨inode, rfl, mem_of_find?_eq_some found, beq_iff_eq.mp matched⟩

/-- No handle, no record. -/
theorem absent (none : refs s = 0) : ∀ inode ∈ inodes, inode.sector ≠ s := by
  intro inode member named
  have positive := exact.positive inode member
  rw [exact.counted inode member, named] at positive
  omega

theorem unique {other : Inode} (member : inode ∈ inodes) (isOther : other ∈ inodes)
    (same : inode.sector = other.sector) : inode = other :=
  inj_on_of_nodup_map exact.once member isOther same

/-- The record of one inode changes with its counts. -/
theorem change (member : inode ∈ inodes) (named : inode.sector = s) (positive : 0 < refs' s)
    (refsElsewhere : SameElsewhere s refs refs') (deniedElsewhere : SameElsewhere s denied denied')
    (change : Inode → Inode) (keeps : ∀ inode, (change inode).sector = inode.sector)
    (openCnt : inode.openCnt = refs s → (change inode).openCnt = refs' s)
    (denyWriteCnt : inode.denyWriteCnt = denied s → (change inode).denyWriteCnt = denied' s) :
    Exact (changeInode inodes s change) refs' denied' := by
  have openCnt := openCnt (named ▸ exact.counted inode member)
  have denyWriteCnt := denyWriteCnt (named ▸ exact.denies inode member)
  have sectors : (changeInode inodes s change).map Inode.sector = inodes.map Inode.sector := by
    unfold changeInode
    rw [map_map]
    apply map_congr_left
    intro record _
    show Inode.sector (if record.sector == s then change record else record) = record.sector
    split
    · exact keeps record
    · rfl
  -- a record of the new table is the changed one, or another one as it was
  have records : ∀ record ∈ changeInode inodes s change,
      record = change inode ∨ record ∈ inodes ∧ record.sector ≠ s := by
    intro record isRecord
    obtain ⟨before, isBefore, rfl⟩ := mem_map.mp isRecord
    by_cases same : before.sector = s
    · have isInode : before = inode := exact.unique isBefore member (same.trans named.symm)
      simp [isInode, named]
    · exact .inr (by simp [same, isBefore])
  constructor
  case once =>
    rw [sectors]
    exact exact.once
  case present =>
    intro t held
    have before : t ∈ inodes.map Inode.sector := by
      by_cases same : t = s
      · exact same ▸ named ▸ mem_map_of_mem member
      · obtain ⟨record, isRecord, isNamed⟩ := exact.present t (refsElsewhere t same ▸ held)
        exact isNamed ▸ mem_map_of_mem isRecord
    rw [← sectors] at before
    exact mem_map.mp before
  case counted =>
    intro record isRecord
    cases records record isRecord with
    | inl changed => rw [changed, keeps, named, openCnt]
    | inr other => rw [exact.counted record other.1, refsElsewhere _ other.2]
  case positive =>
    intro record isRecord
    cases records record isRecord with
    | inl changed => rwa [changed, openCnt]
    | inr other => exact exact.positive record other.1
  case denies =>
    intro record isRecord
    cases records record isRecord with
    | inl changed => rw [changed, keeps, named, denyWriteCnt]
    | inr other => rw [exact.denies record other.1, deniedElsewhere _ other.2]

/-- The first handle of an inode makes its record. -/
theorem push (named : inode.sector = s) (none : refs s = 0) (undenied : denied s = 0) (openCnt : inode.openCnt = 1)
    (denyWriteCnt : inode.denyWriteCnt = 0) (one : refs' s = 1) (elsewhere : SameElsewhere s refs refs') :
    Exact (inode :: inodes) refs' denied := by
  have absent := exact.absent none
  constructor
  case once =>
    rw [map_cons, nodup_cons]
    refine ⟨?_, exact.once⟩
    intro again
    obtain ⟨record, member, same⟩ := mem_map.mp again
    exact absent record member (same.trans named)
  case present =>
    intro t held
    by_cases same : t = s
    · exact ⟨inode, mem_cons_self, named.trans same.symm⟩
    · obtain ⟨record, member, isNamed⟩ := exact.present t (elsewhere t same ▸ held)
      exact ⟨record, mem_cons_of_mem _ member, isNamed⟩
  case counted =>
    intro record isRecord
    cases mem_cons.mp isRecord with
    | inl new => rw [new, openCnt, named, one]
    | inr old => rw [exact.counted record old, elsewhere _ (absent record old)]
  case positive =>
    intro record isRecord
    cases mem_cons.mp isRecord with
    | inl new => rw [new, openCnt]; exact one_pos
    | inr old => exact exact.positive record old
  case denies =>
    intro record isRecord
    cases mem_cons.mp isRecord with
    | inl new => rw [new, denyWriteCnt, named, undenied]
    | inr old => exact exact.denies record old

/-- The last handle of an inode takes its record with it. -/
theorem drop (none : refs' s = 0) (elsewhere : SameElsewhere s refs refs') :
    Exact (inodes.filter fun inode => inode.sector != s) refs' denied := by
  have kept : ∀ {record}, record ∈ inodes.filter (fun inode => inode.sector != s) →
      record ∈ inodes ∧ record.sector ≠ s := by
    intro record isRecord
    simpa using isRecord
  constructor
  case once => exact exact.once.sublist (filter_sublist.map Inode.sector)
  case present =>
    intro t held
    have other : t ≠ s := fun same => ne_of_gt held (same ▸ none)
    obtain ⟨record, member, named⟩ := exact.present t (elsewhere t other ▸ held)
    exact ⟨record, by simpa [named] using ⟨member, other⟩, named⟩
  case counted =>
    intro record isRecord
    obtain ⟨member, other⟩ := kept isRecord
    rw [exact.counted record member, elsewhere _ other]
  case positive => exact fun record isRecord => exact.positive record (kept isRecord).1
  case denies => exact fun record isRecord => exact.denies record (kept isRecord).1

end

end Exact

/-! ## Programs that leave the table alone -/

/-- The program does not touch the table of open inodes, nor which inode is that of the free map. -/
def Keeps {α : Type} (program : FsM α) : Prop :=
  ∀ v : View, Yields False program v fun _ w =>
    w.tables.openInodes = v.tables.openInodes ∧ w.tables.freeMapFile = v.tables.freeMapFile

namespace Keeps

variable {α β : Type}

theorem pure {result : α} : Keeps (pure result : FsM α) :=
  fun _ => Yields.pure ⟨rfl, rfl⟩

theorem failure : Keeps (failure : FsM α) :=
  fun _ _ _ => id

theorem bind {program : FsM α} {rest : α → FsM β} (first : Keeps program) (second : ∀ result, Keeps (rest result)) :
    Keeps (program >>= rest) := by
  intro v
  apply (first v).bind
  intro result w kept
  apply (second result w).mono
  intro _ x keptAfter
  exact ⟨keptAfter.1.trans kept.1, keptAfter.2.trans kept.2⟩

theorem ite {condition : Prop} [Decidable condition] {program other : FsM α} (first : Keeps program)
    (second : Keeps other) : Keeps (if condition then program else other) := by
  split
  · exact first
  · exact second

end Keeps

theorem getTables_keeps : Keeps getTables :=
  fun _ => getTables_returns.yields ⟨rfl, rfl⟩

theorem cacheRead_keeps (secNo : Word) (size offset : Nat) : Keeps (cacheRead secNo size offset) := by
  intro v
  apply ((cacheRead_yields secNo size offset).weaken False.elim).mono
  intro _ w read
  rw [read.2.1]
  exact ⟨rfl, rfl⟩

theorem cacheWrite_keeps (secNo : Word) (buffer : List UInt8) (offset : Nat) :
    Keeps (cacheWrite secNo buffer offset) := by
  intro v
  apply ((cacheWrite_yields secNo buffer offset).weaken False.elim).mono
  intro _ w wrote
  rw [wrote.1]
  exact ⟨rfl, rfl⟩

theorem cacheRelease_keeps (secNo : Word) : Keeps (cacheRelease secNo) :=
  fun _ => (cacheRelease_returns secNo).yields ⟨rfl, rfl⟩

theorem readInodeDisk_keeps (secNo : Word) : Keeps (readInodeDisk secNo) :=
  (cacheRead_keeps secNo 512 0).bind fun _ => Keeps.pure

theorem setMap_keeps (change : Bitmap → Bitmap) :
    Keeps (modifyTables fun t => { t with freeMap := change t.freeMap }) :=
  fun _ => (modifyTables_returns _).yields ⟨rfl, rfl⟩

theorem setLock_keeps (held : Bool) : Keeps (modifyTables fun t => { t with inodeSysLock := held }) :=
  fun _ => (modifyTables_returns _).yields ⟨rfl, rfl⟩

theorem lockAcquire_keeps : Keeps lockAcquire :=
  getTables_keeps.bind fun _ => Keeps.failure.ite (setLock_keeps true)

theorem findInode_keeps (sector : Word) : Keeps (findInode sector) := by
  apply getTables_keeps.bind
  intro tables
  split
  · exact Keeps.pure
  · exact Keeps.failure

theorem referDisk_keeps (disk : InodeDisk) (mok : Nat) : Keeps (referDisk disk mok) := by
  induction mok generalizing disk with
  | zero => exact Keeps.pure
  | succ mok ih => exact (readInodeDisk_keeps _).bind ih

theorem nextSlot_keeps (refer : InodeDisk) (directIdx : Nat) : Keeps (nextSlot refer directIdx) :=
  ((readInodeDisk_keeps _).bind fun _ => Keeps.pure).ite Keeps.pure

theorem writeLoop_keeps (refer : InodeDisk) (directIdx sectorOfs : Nat) (buffer : List UInt8) (bytesWritten : Nat) :
    Keeps (writeLoop refer directIdx sectorOfs buffer bytesWritten) := by
  fun_induction writeLoop refer directIdx sectorOfs buffer bytesWritten with
  | case1 | case2 | case3 => exact Keeps.pure
  | case4 refer directIdx sectorOfs buffer bytesWritten _ _ _ ih =>
    exact (cacheWrite_keeps _ _ _).bind fun _ => (nextSlot_keeps _ _).bind ih

theorem inodeWriteData_keeps (inode : Inode) (buffer : List UInt8) (offset : Nat) :
    Keeps (inodeWriteData inode buffer offset) :=
  (referDisk_keeps _ _).bind fun _ => Keeps.pure.ite (writeLoop_keeps _ _ _ _ _)

theorem bitmapWrite_keeps : Keeps bitmapWrite := by
  apply getTables_keeps.bind
  intro tables
  cases tables.freeMapFile with
  | none => exact Keeps.failure
  | some sector =>
    exact (findInode_keeps sector).bind fun inode => Keeps.failure.ite
      ((inodeWriteData_keeps _ _ _).bind fun _ => Keeps.pure)

theorem freeMapRelease_keeps (sector : Word) (cnt : Nat) : Keeps (freeMapRelease sector cnt) := by
  apply getTables_keeps.bind
  intro tables
  apply Keeps.ite
  · exact (setMap_keeps _).bind fun _ => bitmapWrite_keeps.bind fun _ => Keeps.pure
  · exact Keeps.failure

theorem releaseDirect_keeps (sectors : List Word) : Keeps (releaseDirect sectors) := by
  induction sectors with
  | nil => exact Keeps.pure
  | cons sector sectors ih =>
    exact (freeMapRelease_keeps sector 1).bind fun _ => (cacheRelease_keeps sector).bind fun _ => ih

theorem releaseInodeDisk_keeps (sectors : Nat) (inodeSector : Word) : Keeps (releaseInodeDisk sectors inodeSector) := by
  induction sectors using Nat.strongRecOn generalizing inodeSector with
  | ind sectors ih =>
    rw [releaseInodeDisk]
    apply lockAcquire_keeps.bind
    intro _
    apply (readInodeDisk_keeps _).bind
    intro disk
    split
    next more =>
      apply (setLock_keeps false).bind
      intro _
      apply (ih (sectors - 123) (by omega) disk.indirect).bind
      intro _
      apply lockAcquire_keeps.bind
      intro _
      apply (freeMapRelease_keeps _ 1).bind
      intro _
      apply (cacheRelease_keeps _).bind
      intro _
      exact (releaseDirect_keeps _).bind fun _ => setLock_keeps false
    next => exact (releaseDirect_keeps _).bind fun _ => setLock_keeps false

/-! ## What the functions do to the table -/

/-- The inode is to be deleted when it is closed for the last time. -/
def RemovedAt (inodes : List Inode) (s : Word) : Prop :=
  ∃ inode ∈ inodes, inode.sector = s ∧ inode.removed = true

theorem removedAt_changeInode {inodes : List Inode} {s t : Word} {change : Inode → Inode}
    (keeps : ∀ inode, (change inode).sector = inode.sector ∧ (change inode).removed = inode.removed) :
    RemovedAt (changeInode inodes t change) s ↔ RemovedAt inodes s := by
  have same : ∀ inode : Inode, (if inode.sector == t then change inode else inode).sector = inode.sector ∧
      (if inode.sector == t then change inode else inode).removed = inode.removed := by
    intro inode
    split
    · exact keeps inode
    · exact ⟨rfl, rfl⟩
  constructor
  · intro ⟨record, isRecord, named, removed⟩
    obtain ⟨inode, member, rfl⟩ := mem_map.mp isRecord
    exact ⟨inode, member, (same inode).1 ▸ named, (same inode).2 ▸ removed⟩
  · intro ⟨inode, member, named, removed⟩
    exact ⟨_, mem_map_of_mem member, (same inode).1.trans named, (same inode).2.trans removed⟩

/-- The program returns, and changes the table of open inodes at most: to one with these counts and the same inodes to
    be deleted. -/
def Recounts {α : Type} (program : FsM α) (v : View) (result : α) (refs denied : Word → Nat) : Prop :=
  ∃ inodes, Returns True program v result (v.withInodes inodes) ∧ Exact inodes refs denied ∧
    ∀ s, RemovedAt inodes s ↔ RemovedAt v.tables.openInodes s

/-- What a call does to the table, and that it gives no sector back unless `released`. -/
structure Moves (v w : View) (released : Prop) (refs denied : Word → Nat) : Prop where
  exact : Exact w.tables.openInodes refs denied
  mapFile : w.tables.freeMapFile = v.tables.freeMapFile
  unreleased : ¬ released → w.tables.freeMap = v.tables.freeMap ∧ w.sectors = v.sectors

variable {α : Type}

theorem Recounts.moves {program : FsM α} {v : View} {result : α} {refs denied : Word → Nat}
    (recounts : Recounts program v result refs denied) :
    Yields False program v fun r w => r = result ∧ Moves v w False refs denied := by
  obtain ⟨inodes, returns, exact, -⟩ := recounts
  exact (returns.weaken False.elim).mono fun r w ended => ⟨ended.1, ended.2 ▸ ⟨exact, rfl, fun _ => ⟨rfl, rfl⟩⟩⟩

section Functions

variable {v w : View} {refs denied : Word → Nat} {s : Word} {released : Prop}

section

variable (exact : Exact v.tables.openInodes refs denied)

include exact

/-- One more handle of an inode that has a record. -/
theorem Exact.reopened {inode : Inode} (member : inode ∈ v.tables.openInodes) (named : inode.sector = s) :
    Exact (changeInode v.tables.openInodes s fun inode => { inode with openCnt := inode.openCnt + 1 })
      (oneMore refs s) denied := by
  have positive : 0 < oneMore refs s s := by
    rw [oneMore_self]
    exact succ_pos _
  refine exact.change member named positive (sameElsewhere_oneMore refs s) (.refl s denied) _ (fun _ => rfl)
    (fun counted => ?_) id
  rw [oneMore_self, ← counted]

theorem inodeReopen_recounts (held : 0 < refs s) : Recounts (inodeReopen s) v () (oneMore refs s) denied := by
  obtain ⟨inode, found, member, named⟩ := exact.find held
  exact ⟨_, (findInode_returns found).bind (modifyInode_returns s _), exact.reopened member named,
    fun _ => removedAt_changeInode fun _ => ⟨rfl, rfl⟩⟩

theorem inodeRemove_moves (held : 0 < refs s) :
    Yields False (inodeRemove s) v fun _ w => Moves v w False refs denied := by
  obtain ⟨inode, found, member, named⟩ := exact.find held
  apply (findInode_returns found).bind
  apply (modifyInode_returns s _).yields
  refine ⟨?_, rfl, fun _ => ⟨rfl, rfl⟩⟩
  exact exact.change member named held (.refl s refs) (.refl s denied) _ (fun _ => rfl) id id

theorem inodeDenyWrite_recounts (held : denied s < refs s) :
    Recounts (inodeDenyWrite s) v () refs (oneMore denied s) := by
  have positive : 0 < refs s := lt_of_le_of_lt (zero_le _) held
  obtain ⟨inode, -, member, named⟩ := exact.find positive
  have changed : Exact (changeInode v.tables.openInodes s fun inode =>
      { inode with denyWriteCnt := inode.denyWriteCnt + 1 }) refs (oneMore denied s) := by
    refine exact.change member named positive (.refl s refs) (sameElsewhere_oneMore denied s) _ (fun _ => rfl) id
      fun denies => ?_
    rw [oneMore_self, ← denies]
  obtain ⟨after, found, isAfter, isNamed⟩ := changed.find positive
  refine ⟨_, ?_, changed, fun _ => removedAt_changeInode fun _ => ⟨rfl, rfl⟩⟩
  apply (modifyInode_returns s _).bind
  apply (findInode_returns (v := v.withInodes _) found).bind
  have within : after.denyWriteCnt ≤ after.openCnt := by
    rw [changed.denies after isAfter, changed.counted after isAfter, isNamed, oneMore_self]
    exact held
  rw [if_pos within]
  exact Returns.pure

theorem inodeAllowWrite_returns {safe : Prop} (some : 0 < denied s)
    (within : denied s ≤ refs s) : Returns safe (inodeAllowWrite s) v ()
      (v.withInodes (changeInode v.tables.openInodes s
      fun inode => { inode with denyWriteCnt := inode.denyWriteCnt - 1 })) := by
  obtain ⟨inode, found, member, named⟩ := exact.find (lt_of_lt_of_le some within)
  have asserted : 0 < inode.denyWriteCnt ∧ inode.denyWriteCnt ≤ inode.openCnt := by
    rw [exact.denies inode member, exact.counted inode member, named]
    exact ⟨some, within⟩
  apply (findInode_returns found).bind
  rw [if_pos asserted]
  exact modifyInode_returns s fun inode => { inode with denyWriteCnt := inode.denyWriteCnt - 1 }

theorem inodeAllowWrite_recounts (some : 0 < denied s) (within : denied s ≤ refs s) :
    Recounts (inodeAllowWrite s) v () refs (oneLess denied s) := by
  have positive : 0 < refs s := lt_of_lt_of_le some within
  obtain ⟨inode, -, member, named⟩ := exact.find positive
  refine ⟨_, inodeAllowWrite_returns exact some within, ?_, fun _ => removedAt_changeInode fun _ => ⟨rfl, rfl⟩⟩
  refine exact.change member named positive (.refl s refs) (sameElsewhere_oneLess denied s) _ (fun _ => rfl) id
    fun denies => ?_
  rw [oneLess_self, ← denies]

/-- The read of the inode may fail: the sector is any number. -/
theorem inodeOpen_moves (within : denied s ≤ refs s) :
    Yields False (inodeOpen s) v fun _ w => Moves v w False (oneMore refs s) denied := by
  apply getTables_returns.bind
  cases found : v.tables.openInodes.find? fun inode => inode.sector == s with
  | some inode =>
    have member := mem_of_find?_eq_some found
    have matched := find?_some found
    have named : inode.sector = s := beq_iff_eq.mp matched
    apply (modifyInode_returns s _).yields
    exact ⟨exact.reopened member named, rfl, fun _ => ⟨rfl, rfl⟩⟩
  | none =>
    have unheld : refs s = 0 := by
      by_contra held
      obtain ⟨inode, isFound, -⟩ := exact.find (pos_of_ne_zero held)
      rw [found] at isFound
      cases isFound
    have undenied : denied s = 0 := by omega
    have one : oneMore refs s s = 1 := by rw [oneMore_self, unheld]
    apply ((readInodeDisk_yields s).weaken False.elim).bind
    intro disk w read
    rw [read.2.1]
    apply (modifyTables_returns _).yields
    exact ⟨exact.push rfl unheld undenied rfl rfl one (sameElsewhere_oneMore refs s), rfl, fun _ => ⟨rfl, rfl⟩⟩

theorem inodeClose_moves (held : 0 < refs s) :
    Yields False (inodeClose s) v fun _ w =>
      Moves v w (refs s = 1 ∧ RemovedAt v.tables.openInodes s) (oneLess refs s) denied := by
  obtain ⟨inode, found, member, named⟩ := exact.find held
  have counted := exact.counted inode member
  rw [named] at counted
  apply (findInode_returns found).bind
  by_cases last : inode.openCnt = 1
  · have dropped : Exact (v.tables.openInodes.filter fun inode => inode.sector != s) (oneLess refs s) denied := by
      apply exact.drop _ (sameElsewhere_oneLess refs s)
      rw [oneLess_self]
      omega
    rw [if_pos last]
    apply (modifyTables_returns _).bind
    by_cases gone : inode.removed
    · rw [if_pos gone]
      have keeps : Keeps (do
          releaseInodeDisk (bytesToSectors inode.data.length.toNat) inode.sector
          freeMapRelease inode.sector 1) := (releaseInodeDisk_keeps _ _).bind fun _ => freeMapRelease_keeps _ 1
      apply (keeps _).mono
      intro _ w kept
      refine ⟨kept.1 ▸ dropped, kept.2, ?_⟩
      intro unreleased
      exact absurd ⟨counted ▸ last, inode, member, named, gone⟩ unreleased
    · rw [if_neg gone]
      exact Yields.pure ⟨dropped, rfl, fun _ => ⟨rfl, rfl⟩⟩
  · rw [if_neg last]
    apply (modifyInode_returns s _).yields
    refine ⟨?_, rfl, fun _ => ⟨rfl, rfl⟩⟩
    have positive : 0 < oneLess refs s s := by
      rw [oneLess_self]
      omega
    refine exact.change member named positive (sameElsewhere_oneLess refs s) (.refl s denied) _ (fun _ => rfl)
      (fun counted => ?_) id
    rw [oneLess_self, ← counted]

theorem Exact.stays (released : Prop) : Moves v v released refs denied :=
  ⟨exact, rfl, fun _ => ⟨rfl, rfl⟩⟩

end

theorem Moves.weaken {released' : Prop} (moves : Moves v w released refs denied) (implied : released → released') :
    Moves v w released' refs denied :=
  ⟨moves.exact, moves.mapFile, fun kept => moves.unreleased fun now => kept (implied now)⟩

theorem Moves.trans {x : View} {refs' denied' : Word → Nat} (first : Moves v x False refs denied)
    (second : Moves x w released refs' denied') : Moves v w released refs' denied' := by
  refine ⟨second.exact, second.mapFile.trans first.mapFile, ?_⟩
  intro kept
  obtain ⟨sameMap, sameSectors⟩ := first.unreleased id
  obtain ⟨sameMapAfter, sameSectorsAfter⟩ := second.unreleased kept
  exact ⟨sameMapAfter.trans sameMap, sameSectorsAfter.trans sameSectors⟩

section

variable (exact : Exact v.tables.openInodes refs denied) {file : OpenFile}

include exact

theorem inodeOpenIn_moves (within : denied s ≤ refs s) (allocated : Bool) :
    Yields False (inodeOpenIn allocated s) v fun result w => result = none ∧ Moves v w False refs denied ∨
      result = some s ∧ Moves v w False (oneMore refs s) denied := by
  apply getTables_returns.bind
  dsimp only
  split
  · apply (inodeOpen_moves exact within).bind
    intro _ w moves
    exact Yields.pure (.inr ⟨rfl, moves⟩)
  · exact Yields.pure (.inl ⟨rfl, exact.stays False⟩)

/-- `file_open` and `dir_open`: the new handle owns the pointer, or the pointer is closed. -/
theorem handOver_moves (held : 0 < refs s) (allocated : Bool)
    (made : α) : Yields False (if allocated then pure (some made) else do inodeClose s; pure none) v fun result w =>
      allocated = true ∧ result = some made ∧ w = v ∨ allocated = false ∧ result = none ∧
        Moves v w (refs s = 1 ∧ RemovedAt v.tables.openInodes s) (oneLess refs s) denied := by
  cases allocated with
  | true =>
    rw [if_pos rfl]
    exact Yields.pure (.inl ⟨rfl, rfl, rfl⟩)
  | false =>
    rw [if_neg Bool.false_ne_true]
    apply (inodeClose_moves exact held).bind
    intro _ w moves
    exact Yields.pure (.inr ⟨rfl, rfl, moves⟩)

theorem fileReopen_moves (held : 0 < refs file.inode)
    (allocated : Bool) : Yields False (fileReopen allocated file) v fun result w =>
      result = some { inode := file.inode, pos := 0, denyWrite := false } ∧
        Moves v w False (oneMore refs file.inode) denied ∨ result = none ∧ Moves v w False refs denied := by
  apply (inodeReopen_recounts exact held).moves.bind
  intro _ x reopened
  have positive : 0 < oneMore refs file.inode file.inode := by
    rw [oneMore_self]
    exact succ_pos _
  apply (handOver_moves reopened.2.exact positive allocated
    ({ inode := file.inode, pos := 0, denyWrite := false } : OpenFile)).mono
  intro result w opened
  cases opened with
  | inl made =>
    obtain ⟨-, made, rfl⟩ := made
    exact .inl ⟨made, reopened.2⟩
  | inr closed =>
    obtain ⟨-, none, moves⟩ := closed
    rw [oneLess_oneMore] at moves
    -- the handle that is reopened is still there
    have kept : ¬ (oneMore refs file.inode file.inode = 1 ∧ RemovedAt x.tables.openInodes file.inode) := by
      rw [oneMore_self]
      exact fun last => ne_of_gt held (succ.inj last.1)
    exact .inr ⟨none, reopened.2.trans ⟨moves.exact, moves.mapFile, fun _ => moves.unreleased kept⟩⟩

theorem fileDenyWrite_recounts (room : file.denyWrite = false → denied file.inode < refs file.inode) :
    Recounts (fileDenyWrite file) v { file with denyWrite := true } refs
      (if file.denyWrite then denied else oneMore denied file.inode) := by
  unfold fileDenyWrite
  cases flag : file.denyWrite with
  | true =>
    have same : { file with denyWrite := true } = file := by rw [← flag]
    rw [same]
    exact ⟨v.tables.openInodes, Returns.pure, exact, fun _ => Iff.rfl⟩
  | false =>
    obtain ⟨inodes, returns, recounted, removed⟩ := inodeDenyWrite_recounts exact (room flag)
    exact ⟨inodes, returns.bind Returns.pure, recounted, removed⟩

theorem fileAllowWrite_recounts (counted : file.denyWrite = true → 0 < denied file.inode)
    (within : denied file.inode ≤ refs file.inode) :
    Recounts (fileAllowWrite file) v { file with denyWrite := false } refs
      (if file.denyWrite then oneLess denied file.inode else denied) := by
  unfold fileAllowWrite
  cases flag : file.denyWrite with
  | true =>
    obtain ⟨inodes, returns, recounted, removed⟩ := inodeAllowWrite_recounts exact (counted flag) within
    exact ⟨inodes, returns.bind Returns.pure, recounted, removed⟩
  | false =>
    have same : { file with denyWrite := false } = file := by rw [← flag]
    rw [same]
    exact ⟨v.tables.openInodes, Returns.pure, exact, fun _ => Iff.rfl⟩

theorem fileClose_moves (held : 0 < refs file.inode) (counted : file.denyWrite = true → 0 < denied file.inode)
    (within : denied file.inode ≤ refs file.inode) :
    Yields False (fileClose file) v fun _ w =>
      Moves v w (refs file.inode = 1 ∧ RemovedAt v.tables.openInodes file.inode) (oneLess refs file.inode)
        (if file.denyWrite then oneLess denied file.inode else denied) := by
  obtain ⟨inodes, returns, recounted, removed⟩ := fileAllowWrite_recounts exact counted within
  apply Returns.bind (returns.weaken False.elim)
  apply (inodeClose_moves (v := v.withInodes inodes) recounted held).mono
  intro _ w moves
  refine ⟨moves.exact, moves.mapFile, ?_⟩
  intro kept
  apply moves.unreleased
  intro ⟨last, isRemoved⟩
  exact kept ⟨last, (removed _).mp isRemoved⟩

end

end Functions

end Pintos.Filesys
