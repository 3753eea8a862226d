import Pintos.Filesys.Format

/-! # What making and deleting files does to the free map

A file that is made takes the sectors its length needs, and gives the same ones back when it is deleted.
-/

namespace Pintos.Filesys

open Library Kernel List Volume

variable {v w : View} {a : Volume} {head : Word} {f : File} {taken : List Word} {freeMap : Bitmap} {handle : Handle}
  {length : Nat}

/-- Two free maps of one disk in which the same sectors are in use. -/
theorem bitmap_ext {freeMap' : Bitmap} (bounded : freeMap.length ≤ 2 ^ 28) (size : freeMap'.length = freeMap.length)
    (same : ∀ s, Used freeMap' s ↔ Used freeMap s) : freeMap' = freeMap := by
  apply ext_getElem size
  intro i inside' inside
  have number : (BitVec.ofNat 32 i).toNat = i := by
    rw [BitVec.toNat_ofNat]
    omega
  have bit := same (BitVec.ofNat 32 i)
  unfold Used at bit
  rw [number, getElem?_eq_getElem inside', getElem?_eq_getElem inside, Option.some.injEq, Option.some.injEq] at bit
  exact Bool.eq_iff_iff.mpr bit

/-- What was taken is given back, in any order. -/
theorem clearAll_markAll {freed : List Word} (bounded : freeMap.length ≤ 2 ^ 28) (free : taken ⊆ freeSectors freeMap)
    (perm : freed.Perm taken) : clearAll (markAll freeMap taken) freed = freeMap := by
  apply bitmap_ext bounded
  · rw [length_clearAll, length_markAll]
  · intro s
    rw [used_clearAll, used_markAll fun t member => free_lt bounded (free member), perm.mem_iff]
    constructor
    · rintro ⟨new | old, notFreed⟩
      · exact absurd new notFreed
      · exact old
    · intro old
      exact ⟨.inr old, fun new => not_used_of_free bounded (free new) old⟩

/-- The sectors of a file of so many bytes: its blocks and its data. -/
def fileSectors (length : Nat) : Nat :=
  let sectors := (length + 511) / 512
  1 + sectors + ((sectors + 122) / 123 - 1)

theorem fileSectors_eq (length : Nat) : fileSectors length = 1 + growthSectors 0 (bytesToSectors length) := by
  unfold fileSectors growthSectors bytesToSectors
  dsimp only
  omega

/-- The last pointer to a removed file is given up. -/
theorem freeMap_close (found : a.files head = some f) (isOpen : a.handle head = some handle) (last : handle.openCnt = 1)
    (removed : handle.removed = true) : (a.close head).freeMap = clearAll a.freeMap (f.sectors head) := by
  unfold close
  rw [isOpen]
  dsimp only
  rw [if_pos last, if_pos removed]
  unfold delete
  dsimp only
  rw [found]
  rfl

theorem Volume.Sound.closed_of_free (sound : a.Sound) (free : head ∈ freeSectors a.freeMap) : a.handle head = none := by
  cases isOpen : a.handle head with
  | none => rfl
  | some handle =>
    obtain ⟨g, found⟩ := sound.live_handle isOpen
    exact absurd (sound.used found mem_cons_self) (not_used_of_free sound.bounded free)

theorem handle_opened_closed (closed : a.handle head = none) :
    (a.opened head).handle head = some { sector := head, openCnt := 1, removed := false, denyWriteCnt := 0 } := by
  rw [opened, closed]
  simp [handle]

theorem handle_remove (isOpen : a.handle head = some handle) :
    (a.remove head).handle head = some { handle with removed := true } := by
  rw [remove, handle_setHandle, if_pos rfl, isOpen]
  · rfl
  · exact fun _ => rfl

/-- What a file takes when it is made on a sector that was free. -/
structure Made (a : Volume) (head : Word) (length : Nat) (taken : List Word) : Prop where
  next : (a.take [head]).next (File.empty.needs length) = taken
  free : head :: taken ⊆ freeSectors a.freeMap
  perm : ((File.empty.grow length taken).sectors head).Perm (head :: taken)
  once : (head :: taken).Nodup
  count : (head :: taken).length = fileSectors length
  freeMap : ((a.take [head]).create head length).freeMap = markAll a.freeMap (head :: taken)

theorem exists_made {others : List Word} (sound : a.Sound) (free : freeSectors a.freeMap = head :: others)
    (enough : File.empty.needs length ≤ others.length) : ∃ taken, Made a head length taken := by
  obtain ⟨soundTaken, used, loose, freeAfter⟩ := sound.fresh free
  have room : File.empty.needs length ≤ (freeSectors (a.take [head]).freeMap).length := freeAfter.symm ▸ enough
  have count := length_next room
  have inOthers : (a.take [head]).next (File.empty.needs length) = others.take (File.empty.needs length) := by
    rw [Volume.next, freeAfter]
  have distinct := nodup_freeSectors sound.bounded
  rw [free, nodup_cons] at distinct
  refine ⟨_, rfl, ?_, perm_grow head count, ?_, ?_, ?_⟩
  · rw [free, inOthers]
    exact cons_subset_cons _ (take_subset _ _)
  · rw [inOthers, nodup_cons]
    exact ⟨fun member => distinct.1 (mem_of_mem_take member), distinct.2.sublist (take_sublist _ _)⟩
  · rw [length_cons, count, fileSectors_eq, Nat.add_comm]
    rfl
  · rfl

/-- A file that is made, opened, removed and closed leaves no trace in the free map. -/
theorem freeMap_deleted (sound : a.Sound) (made : Made a head length taken) :
    (((((a.take [head]).create head length).opened head).remove head).close head).freeMap = a.freeMap := by
  have closed : ((a.take [head]).create head length).handle head = none :=
    sound.closed_of_free (made.free mem_cons_self)
  have found : ((((a.take [head]).create head length).opened head).remove head).files head =
      some (File.empty.grow length taken) := by
    show (((a.take [head]).create head length).opened head).files head = _
    rw [files_opened, ← made.next]
    exact files_put_self _ _ _
  rw [freeMap_close found (handle_remove (handle_opened_closed closed)) rfl rfl]
  show clearAll (((a.take [head]).create head length).opened head).freeMap _ = _
  rw [freeMap_opened, made.freeMap]
  exact clearAll_markAll sound.bounded made.free made.perm

/-- The inode is open once and removed: it is closed if `release_inode_disk` gets what it needs. -/
theorem inodeCloseIn_releases {fs : FileSys} {memory : List Activation} {inode : Inode}
    (found : fs.tables.openInodes.find? (fun i => i.sector == head) = some inode) (last : inode.openCnt = 1)
    (removed : inode.removed) : inodeCloseIn memory head fs =
      if AllRun memory (activations (bytesToSectors inode.data.length.toNat) 0) then inodeClose head fs else none := by
  simp only [inodeClose, inodeCloseIn, bind, StateT.bind, findInode_eq found, Option.bind_some,
    releaseInodeDiskIn, last,
    removed, if_true, if_pos (allRun_nil _)]
  split_ifs
  · rfl
  · rfl

section Restores

variable {fs : FileSys} {length : Nat} {info : Word} (rep : Represents (view fs) a) (sound : a.Sound)
  (enough : fileSectors length ≤ (freeSectors fs.tables.freeMap).length)

include rep sound enough

/-- Making a file takes as many sectors as its length needs, and deleting it gives them back. -/
theorem created_restores (small : length + 512 < 2 ^ 31) :
    ∃ head allocated made opened removed closed, ∃ added : List Word, ∃ inode,
      freeMapAllocate 1 fs = some (some head, allocated) ∧ inodeCreate head length info allocated = some (true, made) ∧
      inodeOpen head made = some ((), opened) ∧ inodeRemove head opened = some ((), removed) ∧
      inodeClose head removed = some ((), closed) ∧
      removed.tables.openInodes.find? (fun i => i.sector == head) = some inode ∧ inode.openCnt = 1 ∧ inode.removed ∧
      inode.data.length.toNat = length ∧
      added.Nodup ∧ added.length = fileSectors length ∧ (∀ s ∈ added, ¬ Used fs.tables.freeMap s) ∧
      (∀ s, Used made.tables.freeMap s ↔ s ∈ added ∨ Used fs.tables.freeMap s) ∧
      removed.tables.freeMap = made.tables.freeMap ∧ closed.tables.freeMap = fs.tables.freeMap := by
  have sameMap : fs.tables.freeMap = a.freeMap := rep.freeMap
  rw [sameMap, fileSectors_eq] at enough
  rw [sameMap]
  rcases free : freeSectors a.freeMap with _ | ⟨head, others⟩
  · rw [free, length_nil] at enough
    omega
  obtain ⟨soundTaken, used, loose, freeAfter⟩ := sound.fresh free
  rw [free, length_cons] at enough
  have needs : File.empty.needs length ≤ others.length := by
    show growthSectors 0 (bytesToSectors length) ≤ _
    omega
  have room : File.empty.needs length ≤ (freeSectors (a.take [head]).freeMap).length := freeAfter.symm ▸ needs
  have allocates : Yields True (freeMapAllocate 1) (view fs) _ := freeMapAllocate_represents rep sound free
  obtain ⟨_, allocated, ranAllocate, rfl, repAllocated, -⟩ := allocates.ends trivial
  have creates : Yields True (inodeCreate head length info) (view allocated) _ :=
    @inodeCreate_represents _ (view allocated) (a.take [head]) head repAllocated length info soundTaken used loose small
      room
  obtain ⟨_, made, ranCreate, rfl, repMade, -⟩ := creates.ends trivial
  have soundMade := soundTaken.create used loose small room
  have foundMade : ((a.take [head]).create head length).files head = some _ := files_put_self _ _ _
  have opens : Yields True (inodeOpen head) (view made) _ := inodeOpen_represents repMade soundMade foundMade
  obtain ⟨_, opened, ranOpen, repOpened, -⟩ := opens.ends trivial
  obtain ⟨taken, isMade⟩ := exists_made sound free needs
  have closed : ((a.take [head]).create head length).handle head = none :=
    sound.closed_of_free (isMade.free mem_cons_self)
  have isOpen := handle_opened_closed closed
  have removes : Yields True (inodeRemove head) (view opened) _ := inodeRemove_represents repOpened isOpen
  obtain ⟨_, removed, ranRemove, repRemoved, -⟩ := removes.ends trivial
  have notMap : head ≠ freeMapSector := by
    rintro rfl
    obtain ⟨g, found, -⟩ := sound.map
    exact not_used_of_free sound.bounded (isMade.free mem_cons_self) (sound.used found mem_cons_self)
  have closes : Yields True (inodeClose head) (view removed) _ :=
    inodeClose_represents repRemoved ((soundMade.opened foundMade).remove head) (handle_remove isOpen)
      fun isMap => absurd isMap notMap
  obtain ⟨_, done, ranClose, repDone⟩ := closes.ends trivial
  have soundRemoved := (soundMade.opened foundMade).remove head
  obtain ⟨inode, isFound, sameHandle, -, data⟩ := repRemoved.exists_inode (handle_remove isOpen)
  have foundRemoved : ((((a.take [head]).create head length).opened head).remove head).files head = some _ :=
    (files_opened _ _ ▸ foundMade :)
  have isLength : inode.data.length.toNat = length := by
    rw [data]
    exact repRemoved.length_toNat soundRemoved foundRemoved
  refine ⟨head, allocated, made, opened, removed, done, head :: taken, inode, ranAllocate, ranCreate,
    ranOpen, ranRemove,
    ranClose, isFound, congrArg Handle.openCnt sameHandle, congrArg Handle.removed sameHandle, isLength, isMade.once,
    isMade.count, ?_, ?_, ?_, ?_⟩
  · exact fun s member => not_used_of_free sound.bounded (isMade.free member)
  · intro s
    have map : made.tables.freeMap = _ := repMade.freeMap
    rw [map, isMade.freeMap]
    exact used_markAll fun t member => free_lt sound.bounded (isMade.free member)
  · have before : made.tables.freeMap = _ := repMade.freeMap
    have after : removed.tables.freeMap = _ := repRemoved.freeMap
    rw [before, after]
    exact freeMap_opened _ _
  · have after : done.tables.freeMap = _ := repDone.freeMap
    rw [after, freeMap_deleted sound isMade]

/-- Making and deleting a file returns, takes as many sectors as its length needs and gives them back, exactly where its
    number of sectors can be computed and every activation gets what it needs. -/
theorem create_delete_restores {creating closing : List Activation} :
    (∃ head allocated made opened removed closed, ∃ added : List Word,
      freeMapAllocate 1 fs = some (some head, allocated) ∧
      inodeCreateIn creating head length info allocated = some (true, made) ∧
      inodeOpen head made = some ((), opened) ∧ inodeRemove head opened = some ((), removed) ∧
      inodeCloseIn closing head removed = some ((), closed) ∧
      added.Nodup ∧ added.length = fileSectors length ∧ (∀ s ∈ added, ¬ Used fs.tables.freeMap s) ∧
      (∀ s, Used made.tables.freeMap s ↔ s ∈ added ∨ Used fs.tables.freeMap s) ∧
      removed.tables.freeMap = made.tables.freeMap ∧ closed.tables.freeMap = fs.tables.freeMap) ↔
    length + 512 < 2 ^ 31 ∧ AllRun creating (activations (bytesToSectors length) 0) ∧
      AllRun closing (activations (bytesToSectors length) 0) := by
  constructor
  · rintro ⟨head, allocated, made, opened, removed, closed, -, ranAllocate, ranCreate, ranOpen, ranRemove, ranClose, -⟩
    obtain ⟨small, run, -⟩ := inodeCreateIn_returned ranCreate
    have runs := run.mp rfl
    rw [inodeCreateIn_run runs] at ranCreate
    obtain ⟨head', _, _, _, _, _, -, inode, allocates, creates, opens, removes, -, found, last, gone, isLength, -⟩ :=
      @created_restores a fs length info rep sound enough small
    rw [ranAllocate] at allocates
    cases allocates
    rw [ranCreate] at creates
    cases creates
    rw [ranOpen] at opens
    cases opens
    rw [ranRemove] at removes
    cases removes
    refine ⟨small, runs, ?_⟩
    rw [inodeCloseIn_releases found last gone, isLength] at ranClose
    by_contra stops
    rw [if_neg stops] at ranClose
    cases ranClose
  · rintro ⟨small, creates, closes⟩
    obtain ⟨head, allocated, made, opened, removed, closed, added, inode, ranAllocate, ranCreate, ranOpen, ranRemove,
      ranClose, found, last, gone, isLength, rest⟩ := @created_restores a fs length info rep sound enough small
    refine ⟨head, allocated, made, opened, removed, closed, added, ranAllocate, ?_, ranOpen, ranRemove, ?_, rest⟩
    · rw [inodeCreateIn_run creates]
      exact ranCreate
    · rw [inodeCloseIn_releases found last gone, isLength, if_pos closes]
      exact ranClose

end Restores

theorem create_delete_restores_example : ∃ fs head allocated made opened removed closed,
    freeMapAllocate 1 fs = some (some head, allocated) ∧ inodeCreate head 700 0 allocated = some (true, made) ∧
    inodeOpen head made = some ((), opened) ∧ inodeRemove head opened = some ((), removed) ∧
    inodeClose head removed = some ((), closed) ∧ closed.tables.freeMap = fs.tables.freeMap := by
  obtain ⟨fs, a, -, formatted⟩ := @blankFileSys_formats 64 (by decide) (by decide) (by decide)
  have room : mapSectors 64 + 1 + (freeSectors a.freeMap).length = 64 - 2 := formatted.room
  have sameMap : fs.tables.freeMap = a.freeMap := formatted.represents.freeMap
  have enough : fileSectors 700 ≤ (freeSectors fs.tables.freeMap).length := by
    rw [sameMap]
    have taken : mapSectors 64 = 1 := by decide
    have needed : fileSectors 700 = 3 := by decide
    omega
  obtain ⟨head, allocated, made, opened, removed, closed, added, ranAllocate, ranCreate, ranOpen, ranRemove, ranClose,
    -, -, -, -, -, same⟩ := (@create_delete_restores a fs 700 0 formatted.represents formatted.sound enough [] []).mpr
    (by decide)
  exact ⟨fs, head, allocated, made, opened, removed, closed, ranAllocate, ranCreate, ranOpen, ranRemove, ranClose, same⟩

/-- A file of 16 MB has room on a disk of 32 MB.  A kernel stack of 4096 bytes has room for 128 activations at most, as
    each takes at least the 32 bytes of its arguments and its return address, and the kernel stops. -/
theorem create_overflows : ∃ fs a, Represents (view fs) a ∧ a.Sound ∧
    fileSectors (2 ^ 24) ≤ (freeSectors fs.tables.freeMap).length ∧
    ∃ head allocated, freeMapAllocate 1 fs = some (some head, allocated) ∧ ∀ room ≤ 128, ∀ info,
      inodeCreateIn (replicate room .runs ++ [.noStack]) head (2 ^ 24) info allocated = none := by
  obtain ⟨fs, a, -, formatted⟩ := @blankFileSys_formats (2 ^ 16) (by decide) (by decide) (by decide)
  have room : mapSectors (2 ^ 16) + 1 + (freeSectors a.freeMap).length = 2 ^ 16 - 2 := formatted.room
  have sameMap : fs.tables.freeMap = a.freeMap := formatted.represents.freeMap
  have taken : mapSectors (2 ^ 16) = 16 := by decide
  have needed : fileSectors (2 ^ 24) = 33035 := by decide
  have enough : fileSectors (2 ^ 24) ≤ (freeSectors fs.tables.freeMap).length := by
    rw [sameMap]
    omega
  refine ⟨fs, a, formatted.represents, formatted.sound, enough, ?_⟩
  rw [sameMap, needed] at enough
  cases free : freeSectors a.freeMap with
  | nil =>
    rw [free, length_nil] at enough
    omega
  | cons head others =>
    have allocates : Yields True (freeMapAllocate 1) (view fs) _ :=
      freeMapAllocate_represents formatted.represents formatted.sound free
    obtain ⟨_, allocated, ran, rfl, -⟩ := allocates.ends trivial
    refine ⟨head, allocated, ran, fun room few info => ?_⟩
    have stops : ¬ AllRun (replicate room .runs ++ [.noStack]) (activations (bytesToSectors (2 ^ 24)) 0) := by
      have nested : activations (bytesToSectors (2 ^ 24)) 0 = 267 := by decide
      rw [nested, AllRun, take_of_length_le (by simp; omega)]
      simp
    by_contra ends
    obtain ⟨⟨done, _⟩, returns⟩ := Option.ne_none_iff_exists'.mp ends
    obtain ⟨-, made, refused⟩ := inodeCreateIn_returned returns
    cases done with
    | true => exact absurd (made.mp rfl) stops
    | false => exact absurd (refused rfl) (by simp)

end Pintos.Filesys
