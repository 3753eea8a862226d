import Pintos.Filesys.FileCalls

/-! # The inode layer and its callers

A world is a file system together with the inodes that exist and the pointers that callers hold.  The conditions on a
call are stated about the blocks on the disk, as a reader of `inode.c` sees them.
-/

namespace Pintos.Filesys

open Library List Option Volume

structure World where
  fs : FileSys
  live : List Word
  -- one entry for every `inode_open` that no `inode_close` has undone
  held : List Word

/-- The block that the `k`-th `indirect` from `head` names. -/
def blockAt (sectors : Word → Sector) (head : Word) : Nat → Word
  | 0 => head
  | k + 1 => blockAt sectors (sectors head).inodeDisk.indirect k

/-- The last block of a file of `n` data sectors. -/
def lastBlock (sectors : Word → Sector) (head : Word) (n : Nat) : Word :=
  blockAt sectors head ((n - 1) / 123)

/-- The slots in use in the last block of a file of `n` data sectors. -/
def lastSlots (n : Nat) : Nat :=
  n - 123 * ((n - 1) / 123)

/-- What `inode_write_at` needs to do what it is for, if the file has `length` bytes. -/
structure WriteFits (v : View) (head : Word) (length size offset : Nat) : Prop where
  -- a write that starts inside the file ends in the sectors the file has
  inside : offset < length → offset + size ≤ 512 * bytesToSectors length
  small : offset ≥ length → size > 0 → offset + size + 512 < 2 ^ 31
  enough : offset ≥ length → size > 0 → growthSectors (lastSlots (bytesToSectors length))
    (bytesToSectors (offset + size) - bytesToSectors length) ≤ (freeSectors v.tables.freeMap).length
  -- an extension of a file whose last block is full adds a sector, and finds `indirect` unset
  adds : offset ≥ length → size > 0 → 0 < bytesToSectors length → 123 ∣ bytesToSectors length →
    bytesToSectors length < bytesToSectors (offset + size)
  unset : offset ≥ length → size > 0 → 0 < bytesToSectors length → 123 ∣ bytesToSectors length →
    (v.sectors (lastBlock v.sectors head (bytesToSectors length))).inodeDisk.indirect = 0

namespace World

/-- The callers pass pointers they hold, and open inodes that exist. -/
def Legal (w : World) : FileCall → Prop
  | .create _ _ => True
  | .open sector => sector ∈ w.live
  | .write sector _ _ => sector ∈ w.held
  | .read sector _ _ => sector ∈ w.held
  | .length sector => sector ∈ w.held
  | .remove sector => sector ∈ w.held
  | .close sector => sector ∈ w.held

def lengthOf (w : World) (sector : Word) : Nat :=
  ((view w.fs).sectors sector).inodeDisk.length.toNat

def Calm (w : World) : FileCall → Prop
  | .create length _ => length + 512 < 2 ^ 31 ∧
    1 + growthSectors 0 (bytesToSectors length) ≤ (freeSectors w.fs.tables.freeMap).length
  | .write sector buffer offset => WriteFits (view w.fs) sector (w.lengthOf sector) buffer.length offset
  | _ => True

/-- `inode_close` would give the sectors of the file back. -/
def deletes (w : World) (sector : Word) : Bool :=
  (w.fs.tables.openInodes.find? fun inode => inode.sector == sector).any
    fun inode => inode.openCnt == 1 && inode.removed

def settle (w : World) (fs : FileSys) : FileCall → Reply → World
  | .create _ _, .made sector => { fs := fs, live := sector :: w.live, held := w.held }
  | .open sector, _ => { fs := fs, live := w.live, held := sector :: w.held }
  | .close sector, _ =>
    { fs := fs, live := if w.deletes sector then w.live.erase sector else w.live, held := w.held.erase sector }
  | _, _ => { w with fs := fs }

theorem fs_settle (w : World) (fs : FileSys) (call : FileCall) (reply : Reply) : (w.settle fs call reply).fs = fs := by
  unfold settle
  split <;> rfl

def perform (call : FileCall) (w : World) : Option (Reply × World) :=
  (call.perform w.fs).map fun ended => (ended.1, w.settle ended.2 call ended.1)

end World

/-! ## Worlds that represent a volume -/

structure Linked (w : World) (a : Volume) : Prop where
  live : ∀ s, s ∈ w.live ↔ a.Live s
  once : w.live.Nodup
  -- the inode layer itself holds the free map file
  counted : ∀ s, w.held.count s + (if s = freeMapSector then 1 else 0) = ((a.handle s).map (·.openCnt)).getD 0

structure Models (w : World) (a : Volume) : Prop where
  represents : Represents (view w.fs) a
  sound : a.Sound
  undenied : a.Undenied
  linked : Linked w a

variable {sectors : Word → Sector} {head : Word} {f : File}

theorem Chain.blockAt {rest data : List Word} (chain : Chain sectors (sectors head).inodeDisk rest data) :
    blockAt sectors head rest.length = rest.getLastD head := by
  induction rest generalizing head data with
  | nil => rfl
  | cons next rest ih =>
    obtain ⟨later, -, -, linked, -, follows⟩ := chain
    rw [getLastD_cons, ← ih follows, length_cons, Filesys.blockAt, linked]

theorem Holds.lastBlock (holds : Holds sectors head f) : lastBlock sectors head f.data.length = f.last head := by
  rw [Filesys.lastBlock, ← holds.chain.length_rest, holds.chain.blockAt, File.last]

theorem Holds.lastSlots (holds : Holds sectors head f) : lastSlots f.data.length = usedSlots f.blocks f.data := by
  rw [Filesys.lastSlots, usedSlots, holds.chain.length_rest]

variable {w : World} {a : Volume} {call : FileCall} {handle : Handle}

namespace Models

variable {sector : Word}

section

variable (models : Models w a)

include models

theorem lengthOf (found : a.files sector = some f) : w.lengthOf sector = f.length :=
  models.represents.length_toNat models.sound found

theorem writeFits {size offset : Nat} (found : a.files sector = some f)
    (fits : WriteFits (view w.fs) sector f.length size offset) : Fits (view w.fs) a sector f size offset := by
  have holds := models.represents.file found
  have count := models.sound.count found
  obtain ⟨inside, small, enough, adds, unset⟩ := fits
  rw [← count] at inside enough adds unset
  rw [holds.lastSlots, models.represents.freeMap] at enough
  rw [holds.lastBlock] at unset
  refine ⟨inside, fun past positive => ⟨small past positive, enough past positive, ?_⟩⟩
  intro some full
  have nonempty := length_pos_iff.mpr some
  exact ⟨unset past positive nonempty full, adds past positive nonempty full⟩

theorem fits (calm : w.Calm call) : a.Fits (view w.fs) call := by
  cases call with
  | create length info =>
    obtain ⟨small, enough⟩ := calm
    have same : w.fs.tables.freeMap = a.freeMap := models.represents.freeMap
    rw [same] at enough
    exact ⟨small, enough⟩
  | write sector buffer offset =>
    intro f found
    have fits : WriteFits _ _ _ _ _ := calm
    rw [models.lengthOf found] at fits
    exact models.writeFits found fits
  | «open» _ | read _ _ _ | length _ | remove _ | close _ => trivial

theorem isOpen (held : sector ∈ w.held) : ∃ handle, a.handle sector = some handle := by
  have counted := models.linked.counted sector
  have positive := count_pos_iff.mpr held
  cases found : a.handle sector with
  | none =>
    rw [found, map_none, getD_none] at counted
    omega
  | some handle => exact ⟨handle, rfl⟩

theorem allows (legal : w.Legal call) : a.Allows call := by
  cases call with
  | create length info => trivial
  | «open» sector => exact (models.linked.live sector).mp legal
  | write sector buffer offset =>
    obtain ⟨handle, found⟩ := models.isOpen legal
    exact ⟨handle, found, models.undenied handle (handle_eq_some found).1⟩
  | read | length | remove => exact models.isOpen legal
  | close sector =>
    obtain ⟨handle, found⟩ := models.isOpen legal
    refine ⟨handle, found, ?_⟩
    rintro rfl
    -- one of the handles is the inode layer's own
    have counted := models.linked.counted freeMapSector
    have positive := count_pos_iff.mpr (show freeMapSector ∈ w.held from legal)
    rw [found, if_pos rfl, map_some, getD_some] at counted
    omega

theorem deletes_eq (found : a.handle sector = some handle) :
    w.deletes sector = (handle.openCnt == 1 && handle.removed) := by
  obtain ⟨inode, isOpen, rfl, -⟩ := models.represents.exists_inode found
  have isFound : w.fs.tables.openInodes.find? (fun inode => inode.sector == sector) = some inode := isOpen
  rw [World.deletes, isFound]
  rfl

end

end Models

namespace Linked

variable {fs : FileSys}

theorem create {length : Nat} {info : Word} (linked : Linked w a) (sound : a.Sound)
    (fits : a.Fits (view w.fs) (.create length info)) :
    Linked (w.settle fs (.create length info) (a.reply (.create length info))) (a.after (.create length info)) := by
  unfold Volume.reply Volume.after
  rcases free : freeSectors a.freeMap with _ | ⟨sector, left⟩
  · have enough := fits.2
    rw [free, length_nil] at enough
    omega
  have fresh : sector ∉ w.live := by
    intro member
    obtain ⟨f, found⟩ := (linked.live sector).mp member
    exact not_used_of_free sound.bounded (free ▸ mem_cons_self) (sound.used found mem_cons_self)
  constructor
  case live =>
    intro s
    show s ∈ sector :: w.live ↔ ((a.take [sector]).create sector length).Live s
    rw [mem_cons, live_create, live_take, linked.live]
  case once => exact nodup_cons.mpr ⟨fresh, linked.once⟩
  case counted => exact linked.counted

/-- A call after which the same inodes exist. -/
theorem stay {b : Volume} (linked : Linked w a) {next : World} (live : next.live = w.live) (files : b.files = a.files)
    (counted : ∀ s, next.held.count s + (if s = freeMapSector then 1 else 0) = ((b.handle s).map (·.openCnt)).getD 0) :
    Linked next b := by
  refine ⟨fun s => ?_, live ▸ linked.once, counted⟩
  rw [live, linked.live, Live, Live, files]

theorem opened (linked : Linked w a) (sector : Word) :
    Linked { fs := fs, live := w.live, held := sector :: w.held } (a.opened sector) := by
  refine linked.stay rfl (files_opened a sector) fun s => ?_
  have counted := linked.counted s
  rw [handle_opened]
  by_cases same : s = sector
  · subst same
    rw [if_pos rfl, count_cons_self, getD_some, ← counted]
    omega
  · rw [if_neg same, count_cons_of_ne (Ne.symm same), counted]

theorem close {sector : Word} (linked : Linked w a) (held : sector ∈ w.held) (found : a.handle sector = some handle)
    (own : sector = freeMapSector → handle.openCnt ≠ 1)
    (deletes : w.deletes sector = (handle.openCnt == 1 && handle.removed)) :
    Linked (w.settle fs (.close sector) .done) (a.close sector) := by
  have positive := count_pos_iff.mpr held
  have counted := linked.counted sector
  rw [found, map_some, getD_some] at counted
  have others : ∀ s, s ≠ sector → (w.held.erase sector).count s = w.held.count s :=
    fun s other => count_erase_of_ne other
  have live : (w.settle fs (.close sector) .done).live = if w.deletes sector then w.live.erase sector else w.live := rfl
  rw [deletes] at live
  unfold Volume.close
  rw [found]
  dsimp only
  split
  next last =>
    have notMap : sector ≠ freeMapSector := fun isMap => own isMap last
    rw [if_neg notMap] at counted
    have handles : ∀ s, (w.held.erase sector).count s + (if s = freeMapSector then 1 else 0) =
        (((if s = sector then none else a.handle s) : Option Handle).map (·.openCnt)).getD 0 := by
      intro s
      by_cases same : s = sector
      · subst same
        rw [if_pos rfl, if_neg notMap, count_erase_self]
        show _ = 0
        omega
      · rw [if_neg same, others s same, linked.counted s]
    split
    next removed =>
      rw [last, removed] at live
      constructor
      case live =>
        intro s
        rw [live, live_delete]
        exact linked.once.mem_erase_iff.trans (and_congr_right' (linked.live s))
      case once => exact live ▸ linked.once.erase sector
      case counted =>
        intro s
        rw [handle_delete, handle_filter]
        exact handles s
    next kept =>
      refine linked.stay (live.trans (if_neg (by simp [kept]))) rfl fun s => ?_
      rw [handle_filter]
      exact handles s
  next more =>
    refine linked.stay (live.trans (if_neg (by simp [more]))) rfl fun s => ?_
    rw [handle_setHandle]
    · by_cases same : s = sector
      · subst same
        rw [if_pos rfl, found]
        show (w.held.erase s).count s + _ = handle.openCnt - 1
        rw [count_erase_self]
        omega
      · rw [if_neg same]
        show (w.held.erase sector).count s + _ = _
        rw [others s same, linked.counted s]
    · exact fun _ => rfl

end Linked

section

variable (models : Models w a) (legal : w.Legal call) (calm : w.Calm call)

include models legal calm

theorem Models.linked_after {fs : FileSys} :
    Linked (w.settle fs call (a.reply call)) (a.after call) := by
  have linked := models.linked
  have allowed := models.allows legal
  cases call with
  | create length info => exact linked.create models.sound (models.fits calm)
  | «open» sector => exact linked.opened sector
  | write sector buffer offset =>
    refine ⟨fun s => (linked.live s).trans (live_write a sector buffer offset).symm, linked.once, fun s => ?_⟩
    show _ = (((a.write sector buffer offset).handle s).map (·.openCnt)).getD 0
    rw [handle_write]
    exact linked.counted s
  | read | length => exact { linked with }
  | remove sector =>
    refine linked.stay rfl rfl fun s => ?_
    have same : ((a.remove sector).handle s).map (·.openCnt) = (a.handle s).map (·.openCnt) := by
      rw [remove, handle_setHandle]
      · split
        next => rw [Option.map_map]; rfl
        next => rfl
      · exact fun _ => rfl
    show _ = (((a.remove sector).handle s).map (·.openCnt)).getD 0
    rw [same]
    exact linked.counted s
  | close sector =>
    obtain ⟨handle, found, own⟩ := allowed
    exact linked.close legal found own (models.deletes_eq found)

/-- A legal call does to the world what the operation does to the volume. -/
theorem Models.after {reply : Reply} {next : World}
    (ran : w.perform call = some (reply, next)) : reply = a.reply call ∧ Models next (a.after call) := by
  obtain ⟨ended, performed, same⟩ := map_eq_some_iff.mp ran
  cases same
  have fits := models.fits calm
  have allowed := models.allows legal
  obtain ⟨answer, represents⟩ := (perform_represents models.represents models.sound allowed fits).ended performed
  rw [answer]
  refine ⟨rfl, ?_, models.sound.after allowed fits, models.undenied.after call, models.linked_after legal calm⟩
  rw [World.fs_settle]
  exact represents

/-- A legal call that does not read past the end of the disk returns. -/
theorem Models.runs (ends : a.Ends (view w.fs) call) :
    ∃ next, w.perform call = some (a.reply call, next) ∧ Models next (a.after call) := by
  have performs := perform_represents models.represents models.sound (models.allows legal) (models.fits calm)
  obtain ⟨reply, fs, ran, -⟩ := performs.ends ends
  have performed : w.perform call = some (reply, w.settle fs call reply) := by rw [World.perform, ran]; rfl
  obtain ⟨rfl, after⟩ := models.after legal calm performed
  exact ⟨_, performed, after⟩

end

end Pintos.Filesys
