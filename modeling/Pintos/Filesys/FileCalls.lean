import Pintos.Filesys.Release
import Pintos.Library.Transition

/-! # Sequences of calls of the inode layer

A world is a file system, the inodes that exist, and the pointers to open inodes that callers hold.  A call is legal if
its caller holds the pointer it passes; then the reply and the next state are those of the operation on the volume.
-/

namespace Pintos.Filesys

open Library Function List Volume

inductive FileCall
  | create (length : Nat) (info : Word)
  | open (sector : Word)
  | write (sector : Word) (buffer : List UInt8) (offset : Nat)
  | read (sector : Word) (size offset : Nat)
  | length (sector : Word)
  | remove (sector : Word)
  | close (sector : Word)
  deriving DecidableEq, Repr

inductive Reply
  | done
  | failed
  | made (sector : Word)
  | count (n : Int)
  | bytes (buffer : List UInt8)
  deriving DecidableEq, Repr

/-- A file is made on a sector that `free_map_allocate` gives. -/
def FileCall.performIn (memory : List Activation) : FileCall → FsM Reply
  | create size info => do
    match ← freeMapAllocate 1 with
    | none => return .failed
    | some sector =>
      if ← inodeCreateIn memory sector size info then
        return .made sector
      else
        return .failed
  | .open sector => do
    inodeOpen sector
    return .done
  | write sector buffer offset => return .count (← inodeWriteAtIn memory sector buffer offset)
  | read sector size offset => return .bytes (← inodeReadAt sector size offset)
  | length sector => return .count (← inodeLength sector)
  | remove sector => do
    inodeRemove sector
    return .done
  | close sector => do
    inodeCloseIn memory sector
    return .done

abbrev FileCall.perform (call : FileCall) : FsM Reply :=
  call.performIn []

namespace Volume

/-- What a call returns. -/
def reply (a : Volume) : FileCall → Reply
  | .create _ _ =>
    match freeSectors a.freeMap with
    | [] => .failed
    | sector :: _ => .made sector
  | .write _ buffer _ => .count buffer.length
  | .read sector size offset =>
    match a.files sector with
    | none => .failed
    | some f => .bytes (f.read size offset)
  | .length sector =>
    match a.files sector with
    | none => .failed
    | some f => .count f.length
  | _ => .done

/-- The volume after a call. -/
def after (a : Volume) : FileCall → Volume
  | .create length _ =>
    match freeSectors a.freeMap with
    | [] => a
    | sector :: _ => (a.take [sector]).create sector length
  | .open sector => a.opened sector
  | .write sector buffer offset => a.write sector buffer offset
  | .read _ _ _ => a
  | .length _ => a
  | .remove sector => a.remove sector
  | .close sector => a.close sector

/-- The inode layer keeps the free map file open for itself. -/
def Allows (a : Volume) : FileCall → Prop
  | .create _ _ => True
  | .open sector => ∃ f, a.files sector = some f
  | .write sector _ _ => ∃ handle, a.handle sector = some handle ∧ handle.denyWriteCnt = 0
  | .read sector _ _ => ∃ handle, a.handle sector = some handle
  | .length sector => ∃ handle, a.handle sector = some handle
  | .remove sector => ∃ handle, a.handle sector = some handle
  | .close sector => ∃ handle, a.handle sector = some handle ∧ (sector = freeMapSector → handle.openCnt ≠ 1)

/-- What a call needs to do what it is for. -/
def Fits (v : View) (a : Volume) : FileCall → Prop
  | .create length _ => length + 512 < 2 ^ 31 ∧ 1 + File.empty.needs length ≤ (freeSectors a.freeMap).length
  | .write sector buffer offset => ∀ f, a.files sector = some f → Filesys.Fits v a sector f buffer.length offset
  | _ => True

/-- What a call needs in order not to read a block past the end of the disk. -/
def Ends (v : View) (a : Volume) : FileCall → Prop
  | .write sector buffer offset => ∀ f, a.files sector = some f → WriteEnds v a sector f buffer.length offset
  | .read sector _ _ => ∀ f, a.files sector = some f → EndsOnDisk v sector f
  | _ => True

end Volume

variable {safe : Prop} {v w : View} {a : Volume} {call : FileCall} {sector : Word}

theorem Volume.Sound.live_handle {handle : Handle} (sound : a.Sound) (isOpen : a.handle sector = some handle) :
    ∃ f, a.files sector = some f := by
  obtain ⟨member, rfl⟩ := handle_eq_some isOpen
  exact sound.live handle member

/-- The sector for a new inode belongs to no file. -/
theorem Volume.Sound.fresh {left : List Word} (sound : a.Sound) (free : freeSectors a.freeMap = sector :: left) :
    (a.take [sector]).Sound ∧ Used (a.take [sector]).freeMap sector ∧ ¬ (a.take [sector]).Owned sector ∧
      freeSectors (a.take [sector]).freeMap = left := by
  have member : sector ∈ freeSectors a.freeMap := free ▸ mem_cons_self
  have taken : [sector] ⊆ freeSectors a.freeMap := by simp [free]
  refine ⟨sound.take taken, (used_take sound.bounded taken).mpr (.inl mem_cons_self), ?_,
    (scan_freeSectors sound.bounded free).2⟩
  intro ⟨head, f, found, owned⟩
  obtain ⟨f', before, rfl⟩ := files_take.mp found
  rw [kept_sectors] at owned
  exact not_used_of_free sound.bounded member (sound.used before owned)

theorem create_represents {length : Nat} {info : Word} (rep : Represents v a) (sound : a.Sound)
    (fits : a.Fits v (.create length info)) :
    Yields safe (FileCall.create length info).perform v fun reply w =>
      reply = a.reply (.create length info) ∧ Represents w (a.after (.create length info)) ∧
      ∀ {sector left}, freeSectors a.freeMap = sector :: left →
        Spared v w sector (File.empty.grow length ((a.take [sector]).next (File.empty.needs length))) ∧
        (w.sectors sector).inodeDisk.info = info ∧
        (File.empty.grow length ((a.take [sector]).next (File.empty.needs length))).last
          sector ∈ freeSectors a.freeMap ∧
        ∀ s ∈ freeSectors w.tables.freeMap, s ∈ freeSectors a.freeMap := by
  obtain ⟨small, enough⟩ := fits
  unfold Volume.reply Volume.after
  rcases free : freeSectors a.freeMap with _ | ⟨sector, left⟩
  · rw [free, length_nil] at enough
    omega
  obtain ⟨soundAfter, used, loose, freeAfter⟩ := sound.fresh free
  rw [free, length_cons] at enough
  apply (freeMapAllocate_represents rep sound free).bind
  intro found x allocated
  obtain ⟨rfl, repAfter, kept⟩ := allocated
  have creates : Yields safe (inodeCreateIn [] sector length info) x _ :=
    @inodeCreate_represents _ x (a.take [sector]) sector repAfter length info soundAfter used loose small
      (by rw [freeAfter]; omega)
  dsimp only
  -- the check for overflow would be evaluated
  generalize inodeCreateIn [] sector length info = program at creates ⊢
  apply creates.bind
  intro done y made
  obtain ⟨rfl, repMade, spared, infoSet⟩ := made
  refine Yields.pure ⟨rfl, repMade, ?_⟩
  intro sector' left' same
  cases same
  have mine : [sector] ⊆ freeSectors a.freeMap := by simp [free]
  have wereFree : ∀ s ∈ freeSectors (a.take [sector]).freeMap, s ∈ freeSectors a.freeMap :=
    fun s later => free_of_markAll sound.bounded mine later
  have stillFree : ∀ s ∈ freeSectors y.tables.freeMap, s ∈ freeSectors a.freeMap := by
    intro s later
    rw [repMade.freeMap] at later
    exact wereFree s (free_of_markAll soundAfter.bounded (next_subset _ _) later)
  have fits : File.empty.needs length ≤ (freeSectors (a.take [sector]).freeMap).length := by
    rw [freeAfter]
    omega
  have perm := perm_grow sector (length_next fits)
  have last : (File.empty.grow length ((a.take [sector]).next (File.empty.needs length))).last sector ∈
      freeSectors a.freeMap := by
    cases mem_cons.mp (perm.mem_iff.mp (File.block_mem (File.last_mem sector _))) with
    | inl same => rw [same]; exact mine mem_cons_self
    | inr later => exact wereFree _ (next_subset _ _ later)
  refine ⟨⟨?_, ?_⟩, infoSet, free ▸ last, fun s later => free ▸ stillFree s later⟩
  · rw [spared.indirect, kept _ last]
  · intro s later
    rw [spared.free s later, kept s (stillFree s later)]

/-- Every call implements the operation on the volume. -/
theorem perform_represents (rep : Represents v a) (sound : a.Sound) (allowed : a.Allows call) (fits : a.Fits v call) :
    Yields (a.Ends v call) call.perform v fun reply w => reply = a.reply call ∧ Represents w (a.after call) := by
  cases call with
  | create length info =>
    apply (create_represents rep sound fits).mono
    intro reply w created
    exact ⟨created.1, created.2.1⟩
  | «open» sector =>
    obtain ⟨f, found⟩ := allowed
    apply (inodeOpen_represents rep sound found).bind
    intro _ x opened
    exact Yields.pure ⟨rfl, opened.1⟩
  | write sector buffer offset =>
    obtain ⟨handle, isOpen, undenied⟩ := allowed
    obtain ⟨f, found⟩ := sound.live_handle isOpen
    have writes := (inodeWriteAt_represents rep sound isOpen undenied found (fits f found)).weaken
      fun ends : a.Ends v (.write sector buffer offset) => ends f found
    apply writes.bind
    intro n x wrote
    obtain ⟨rfl, repAfter, -⟩ := wrote
    exact Yields.pure ⟨rfl, repAfter⟩
  | read sector size offset =>
    obtain ⟨handle, isOpen⟩ := allowed
    obtain ⟨f, found⟩ := sound.live_handle isOpen
    have reads := (inodeReadAt_represents rep sound isOpen found size offset).weaken
      fun ends : a.Ends v (.read sector size offset) => ends f found
    apply reads.bind
    intro bytes x read
    obtain ⟨rfl, rfl⟩ := read
    exact Yields.pure ⟨by simp [reply, found], rep⟩
  | length sector =>
    obtain ⟨handle, isOpen⟩ := allowed
    obtain ⟨f, found⟩ := sound.live_handle isOpen
    apply (inodeLength_represents rep sound isOpen found).bind
    exact Yields.pure ⟨by simp [reply, found], rep⟩
  | remove sector =>
    obtain ⟨handle, isOpen⟩ := allowed
    apply (inodeRemove_represents rep isOpen).bind
    intro _ x removed
    exact Yields.pure ⟨rfl, removed.1⟩
  | close sector =>
    obtain ⟨handle, isOpen, own⟩ := allowed
    apply (inodeClose_represents rep sound isOpen own).bind
    intro _ x closed
    exact Yields.pure ⟨rfl, closed⟩

theorem Volume.Sound.after (sound : a.Sound) (allowed : a.Allows call) (fits : a.Fits v call) :
    (a.after call).Sound := by
  cases call with
  | create length info =>
    obtain ⟨small, enough⟩ := fits
    unfold after
    cases free : freeSectors a.freeMap with
    | nil => exact sound
    | cons sector left =>
      obtain ⟨soundAfter, used, loose, freeAfter⟩ := sound.fresh free
      rw [free, length_cons] at enough
      exact soundAfter.create used loose small (by rw [freeAfter]; omega)
  | «open» sector =>
    obtain ⟨f, found⟩ := allowed
    exact sound.opened found
  | write sector buffer offset =>
    obtain ⟨handle, isOpen, -⟩ := allowed
    obtain ⟨f, found⟩ := sound.live_handle isOpen
    apply sound.write found
    intro past positive
    obtain ⟨small, enough, -⟩ := (fits f found).past past positive
    exact ⟨small, enough⟩
  | read | length => exact sound
  | remove sector => exact sound.remove sector
  | close sector =>
    obtain ⟨handle, isOpen, own⟩ := allowed
    exact sound.close isOpen own

/-! ## Which files there are, and which are open -/

namespace Volume

def Live (a : Volume) (s : Word) : Prop :=
  ∃ f, a.files s = some f

variable {head s : Word} {change : Handle → Handle}

theorem live_take (a : Volume) (taken : List Word) : (a.take taken).Live s ↔ a.Live s := by
  unfold Live
  constructor
  · intro ⟨g, found⟩
    obtain ⟨f, before, -⟩ := files_take.mp found
    exact ⟨f, before⟩
  · intro ⟨f, found⟩
    exact ⟨_, files_take.mpr ⟨f, found, rfl⟩⟩

theorem live_put (a : Volume) (f : File) : (a.put head f).Live s ↔ s = head ∨ a.Live s := by
  unfold Live
  by_cases same : s = head
  · subst same
    rw [files_put_self]
    exact ⟨fun _ => .inl rfl, fun _ => ⟨f, rfl⟩⟩
  · rw [files_put_other a f same, or_iff_right same]

theorem live_create (a : Volume) (length : Nat) : (a.create head length).Live s ↔ s = head ∨ a.Live s := by
  rw [create, live_put, live_take]

theorem live_extend (a : Volume) (head : Word) (newLength : Nat) : (a.extend head newLength).Live s ↔ a.Live s := by
  unfold extend
  split
  next => rfl
  next f found =>
    rw [live_put, live_take, or_iff_right_iff_imp]
    rintro rfl
    exact ⟨f, found⟩

theorem live_overwrite (a : Volume) (head : Word) (offset : Nat) (buffer : List UInt8) :
    (a.overwrite head offset buffer).Live s ↔ a.Live s := by
  unfold overwrite
  split
  next => rfl
  next f found =>
    rw [live_put, or_iff_right_iff_imp]
    rintro rfl
    exact ⟨f, found⟩

theorem live_write (a : Volume) (head : Word) (buffer : List UInt8) (offset : Nat) :
    (a.write head buffer offset).Live s ↔ a.Live s := by
  unfold write
  split
  next => rfl
  next =>
    split
    next => rw [live_overwrite, live_extend]
    next => rw [live_overwrite]

theorem live_delete (a : Volume) (head : Word) : (a.delete head).Live s ↔ s ≠ head ∧ a.Live s := by
  unfold delete
  split
  next none =>
    rw [iff_and_self]
    rintro ⟨f, found⟩ rfl
    rw [none] at found
    cases found
  next =>
    constructor
    · intro ⟨g, found⟩
      obtain ⟨f, before, -⟩ := files_setMap.mp found
      obtain ⟨other, before⟩ := files_erase before
      exact ⟨other, f, before⟩
    · intro ⟨other, f, found⟩
      exact ⟨_, files_setMap.mpr ⟨f, (update_of_ne other _ _).trans found, rfl⟩⟩

theorem handle_setHandle (keeps : ∀ handle : Handle, (change handle).sector = handle.sector) :
    (a.setHandle sector change).handle s = if s = sector then (a.handle s).map change else a.handle s := by
  have moved : (a.setHandle sector change).handle s = (a.handle s).map fun handle =>
      if handle.sector == sector then change handle else handle := by
    unfold handle setHandle
    rw [find?_map]
    congr 1
    congr 1
    funext handle
    dsimp only [Function.comp]
    split
    next => rw [keeps]
    next => rfl
  rw [moved]
  cases found : a.handle s with
  | none => simp
  | some handle =>
    obtain ⟨-, named⟩ := handle_eq_some found
    by_cases same : s = sector
    · simp [same ▸ named, same]
    · simp [named, same]

theorem handle_opened (a : Volume) (sector : Word) :
    ((a.opened sector).handle s).map (·.openCnt) = if s = sector then some (((a.handle s).map (·.openCnt)).getD 0 + 1)
      else (a.handle s).map (·.openCnt) := by
  unfold opened
  split
  next handle found =>
    rw [handle_setHandle]
    · by_cases same : s = sector
      · subst same
        rw [if_pos rfl, if_pos rfl, found]
        rfl
      · rw [if_neg same, if_neg same]
    · exact fun _ => rfl
  next none =>
    by_cases same : s = sector
    · subst same
      rw [if_pos rfl, none]
      simp [handle]
    · rw [if_neg same]
      simp [handle, beq_eq_false_iff_ne.mpr (Ne.symm same)]

theorem handle_delete (a : Volume) (head : Word) : (a.delete head).handle s = a.handle s := by
  unfold delete
  split <;> rfl

/-- Nobody has called `inode_deny_write`. -/
def Undenied (a : Volume) : Prop :=
  ∀ handle ∈ a.handles, handle.denyWriteCnt = 0

theorem handles_write (a : Volume) (head : Word) (buffer : List UInt8) (offset : Nat) :
    (a.write head buffer offset).handles = a.handles := by
  have overwritten : ∀ b : Volume, (b.overwrite head offset buffer).handles = b.handles := by
    intro b
    unfold overwrite
    split <;> rfl
  unfold write extend
  split
  next => rfl
  next =>
    split
    next =>
      rw [overwritten]
      rfl
    next => rw [overwritten]

theorem handle_write (a : Volume) (head : Word) (buffer : List UInt8) (offset : Nat) :
    (a.write head buffer offset).handle s = a.handle s := by
  rw [handle, handles_write]
  rfl

theorem Undenied.setHandle (undenied : a.Undenied)
    (keeps : ∀ handle : Handle, (change handle).denyWriteCnt = handle.denyWriteCnt) :
    (a.setHandle sector change).Undenied := by
  intro handle member
  obtain ⟨before, isOpen, rfl⟩ := mem_map.mp member
  split
  next => rw [keeps, undenied before isOpen]
  next => exact undenied before isOpen

theorem Undenied.after (undenied : a.Undenied) (call : FileCall) : (a.after call).Undenied := by
  cases call with
  | create length info =>
    unfold Volume.after
    cases freeSectors a.freeMap with
    | nil | cons => exact undenied
  | «open» sector =>
    show (a.opened sector).Undenied
    unfold opened
    split
    next => exact undenied.setHandle fun _ => rfl
    next =>
      intro handle member
      cases mem_cons.mp member with
      | inl new => rw [new]
      | inr old => exact undenied handle old
  | write sector buffer offset =>
    intro handle member
    exact undenied handle (handles_write a sector buffer offset ▸ member)
  | read | length => exact undenied
  | remove sector => exact undenied.setHandle fun _ => rfl
  | close sector =>
    show (a.close sector).Undenied
    unfold close
    split
    · exact undenied
    have left : ∀ handle ∈ a.handles.filter fun handle => handle.sector != sector, handle.denyWriteCnt = 0 :=
      fun handle member => undenied handle (mem_filter.mp member).1
    split
    next =>
      dsimp only
      split
      next =>
        unfold delete
        split
        next => exact left
        next => exact left
      next => exact left
    next => exact undenied.setHandle fun _ => rfl

theorem handle_filter (a : Volume) (sector : Word) :
    ({ a with handles := a.handles.filter fun handle => handle.sector != sector } : Volume).handle s =
      if s = sector then none else a.handle s := by
  unfold handle
  rw [find?_filter]
  by_cases same : s = sector
  · rw [if_pos same, find?_eq_none]
    intro handle _
    simp [same]
  · rw [if_neg same]
    congr 1
    funext handle
    by_cases named : handle.sector = s
    · simp [named, same]
    · simp [named]

end Volume

end Pintos.Filesys
