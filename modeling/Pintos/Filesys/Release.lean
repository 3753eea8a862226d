import Pintos.Filesys.Operations

/-! # Giving the sectors of a file back

`release_inode_disk` gives back the later blocks of a file first, then the sectors the first block names; `inode_close`
gives back the first block.  Each sector is marked free and the free map is written to its file; nothing else changes.
-/

namespace Pintos.Filesys

open Library Kernel Function List Volume

variable {safe : Prop} {v w : View} {a : Volume} {head : Word} {f : File} {mapRest mapData other : List Word}
  {freeMap : Bitmap}

/-- Some sectors are given back, one by one, or none. -/
def View.freed (v : View) (mapData freed : List Word) : View :=
  if freed = [] then v else (v.withMap (clearAll v.tables.freeMap freed)).synced mapData

@[simp] theorem View.freed_nil (v : View) (mapData : List Word) : v.freed mapData [] = v := rfl

/-- The free map is written over the one that was written before. -/
theorem synced_synced (distinct : mapData.Nodup) {freeMap' : Bitmap} (size : freeMap.length = freeMap'.length) :
    (((v.withMap freeMap).synced mapData).withMap freeMap').synced mapData = (v.withMap freeMap').synced mapData := by
  have bytes : (bitmapBytes freeMap).length = (bitmapBytes freeMap').length := by
    rw [length_bitmapBytes, length_bitmapBytes, size]
  have sectors : storeAcross (storeAcross v.sectors mapData 0 (bitmapBytes freeMap)) mapData 0 (bitmapBytes freeMap') =
      storeAcross v.sectors mapData 0 (bitmapBytes freeMap') := by
    funext s
    by_cases member : s ∈ mapData
    · exact storeAcross_storeAcross distinct v.sectors 0 bytes member
    · rw [storeAcross_other _ member, storeAcross_other _ member, storeAcross_other _ member]
  show View.mk _ (storeAcross (storeAcross v.sectors mapData 0 (bitmapBytes freeMap)) mapData 0
    (bitmapBytes freeMap')) = _
  rw [sectors]
  rfl

theorem View.freed_freed (distinct : mapData.Nodup) (freed more : List Word) :
    (v.freed mapData freed).freed mapData more = v.freed mapData (freed ++ more) := by
  by_cases none : freed = []
  · rw [none, View.freed_nil, nil_append]
  · by_cases none' : more = []
    · rw [none', View.freed_nil, append_nil]
    · have both : freed ++ more ≠ [] := append_ne_nil_of_left_ne_nil none more
      have size : (clearAll v.tables.freeMap freed).length = (clearAll v.tables.freeMap (freed ++ more)).length := by
        rw [length_clearAll, length_clearAll]
      rw [View.freed, View.freed, View.freed, if_neg none, if_neg none', if_neg both, ← synced_synced distinct size,
        clearAll, clearAll, clearAll, foldl_append]
      rfl

theorem View.freed_withLock (v : View) (mapData freed : List Word) (held : Bool) :
    (v.withLock held).freed mapData freed = (v.freed mapData freed).withLock held := by
  unfold View.freed
  split <;> rfl

@[simp] theorem View.freed_lock (v : View) (mapData freed : List Word) :
    (v.freed mapData freed).tables.inodeSysLock = v.tables.inodeSysLock := by
  unfold View.freed
  split <;> rfl

theorem View.freed_freeMap (v : View) (mapData freed : List Word) :
    (v.freed mapData freed).tables.freeMap = clearAll v.tables.freeMap freed := by
  unfold View.freed
  split
  next none => rw [none]; rfl
  next => rfl

/-- The sectors given back are in use, all different, and not those of the free map. -/
structure Releasable (v : View) (mapRest mapData freed : List Word) : Prop where
  used : ∀ s ∈ freed, Used v.tables.freeMap s
  distinct : freed.Nodup
  notBlock : ∀ s ∈ freed, s ∉ mapRest
  notData : ∀ s ∈ freed, s ∉ mapData

theorem Releasable.subset {freed fewer : List Word} (releasable : Releasable v mapRest mapData freed)
    (sublist : fewer.Sublist freed) : Releasable v mapRest mapData fewer where
  used s member := releasable.used s (sublist.subset member)
  distinct := releasable.distinct.sublist sublist
  notBlock s member := releasable.notBlock s (sublist.subset member)
  notData s member := releasable.notData s (sublist.subset member)

theorem Releasable.perm {freed : List Word} (releasable : Releasable v mapRest mapData freed)
    (perm : freed.Perm other) : Releasable v mapRest mapData other where
  used s member := releasable.used s (perm.mem_iff.mpr member)
  distinct := perm.nodup_iff.mp releasable.distinct
  notBlock s member := releasable.notBlock s (perm.mem_iff.mpr member)
  notData s member := releasable.notData s (perm.mem_iff.mpr member)

/-- What is left to give back after some of it has been. -/
theorem Releasable.rest {freed more : List Word} (releasable : Releasable v mapRest mapData (freed ++ more)) :
    Releasable (v.freed mapData freed) mapRest mapData more := by
  obtain ⟨-, distinct, apart⟩ := nodup_append.mp releasable.distinct
  refine ⟨?_, distinct, ?_, ?_⟩
  · intro s member
    rw [View.freed_freeMap, used_clearAll]
    exact ⟨releasable.used s (mem_append_right _ member), fun before => apart s before s member rfl⟩
  · exact fun s member => releasable.notBlock s (mem_append_right _ member)
  · exact fun s member => releasable.notData s (mem_append_right _ member)

theorem MapReady.freed {freed : List Word} (map : MapReady safe v mapRest mapData)
    (releasable : Releasable v mapRest mapData freed) : MapReady safe (v.freed mapData freed) mapRest mapData := by
  by_cases none : freed = []
  · rw [none]
    exact map
  have unfolded : v.freed mapData freed = (v.withMap (clearAll v.tables.freeMap freed)).synced mapData := if_neg none
  have size : (clearAll v.tables.freeMap freed).length = v.tables.freeMap.length := length_clearAll _ _
  have apart : ∀ s ∈ mapRest, s ∉ mapData := by
    cases map.file with
    | absent => exact fun s member => nomatch member
    | present set found allowed nonempty file => exact fun s block member => file.apart s member block
  rw [unfolded]
  constructor
  case file =>
    exact map.file.congr (w := (v.withMap _).synced mapData)
      (fun s member => storeAcross_other _ (apart s member) _ _) rfl size rfl rfl
  case size => exact size.trans map.size
  case bounded => exact map.bounded
  case used =>
    intro s member
    apply used_clearAll.mpr
    refine ⟨map.used s member, ?_⟩
    intro given
    cases member with
    | inl block => exact releasable.notBlock s given block
    | inr inData => exact releasable.notData s given inData
  case distinct => exact map.distinct

theorem freeMapRelease_freed {s : Word} (set : v.tables.freeMapFile = some freeMapSector)
    (map : MapReady safe v mapRest mapData) (used : Used v.tables.freeMap s) :
    Returns safe (freeMapRelease s 1) v () (v.freed mapData [s]) :=
  freeMapRelease_returns set map used

theorem View.freed_mapFile (v : View) (mapData freed : List Word) :
    (v.freed mapData freed).tables.freeMapFile = v.tables.freeMapFile := by
  unfold View.freed
  split <;> rfl

theorem releaseDirect_returns {freed : List Word} (set : v.tables.freeMapFile = some freeMapSector)
    (map : MapReady safe v mapRest mapData) (releasable : Releasable v mapRest mapData freed) :
    Returns safe (releaseDirect freed) v () (v.freed mapData freed) := by
  induction freed generalizing v with
  | nil => exact Returns.pure
  | cons s freed ih =>
    have first := releasable.subset (List.Sublist.cons_cons s (nil_sublist freed))
    have whole : Releasable v mapRest mapData ([s] ++ freed) := releasable
    rw [releaseDirect]
    apply (freeMapRelease_freed set map (releasable.used s mem_cons_self)).bind
    apply (cacheRelease_returns s).bind
    have again := ih (v := v.freed mapData [s]) (by rw [View.freed_mapFile, set]) (map.freed first) whole.rest
    rw [View.freed_freed map.distinct] at again
    exact again

/-- The sectors of a file after its first block, in some order, are given back. -/
theorem releaseInodeDisk_returns {b : Word} {rest data : List Word} (unlocked : v.tables.inodeSysLock = false)
    (set : v.tables.freeMapFile = some freeMapSector) (map : MapReady safe v mapRest mapData)
    (chain : Chain v.sectors (v.sectors b).inodeDisk rest data) (inUse : Used v.tables.freeMap b)
    (releasable : Releasable v mapRest mapData (rest ++ data)) :
    ∃ freed, freed.Perm (rest ++ data) ∧
      Returns safe (releaseInodeDisk data.length b) v () (v.freed mapData freed) := by
  induction rest generalizing v b data with
  | nil =>
    have onDisk : b.toNat < v.tables.capacity := map.size ▸ used_lt inUse
    have bound := chain.length_le
    have slots : (v.sectors b).inodeDisk.direct.toList.take data.length = data := (prefix_iff_eq_take.mp chain).symm
    refine ⟨data, List.Perm.refl _, ?_⟩
    rw [releaseInodeDisk]
    apply (lockAcquire_returns unlocked).bind
    apply (readInodeDisk_returns (v := v.withLock true) onDisk).bind
    rw [dif_neg (Nat.not_lt.mpr bound)]
    change Yields safe (releaseDirect ((v.sectors b).inodeDisk.direct.toList.take data.length) >>= _) _ _
    rw [slots]
    have releases : Returns safe (releaseDirect data) (v.withLock true) () _ :=
      releaseDirect_returns set (map.withLock true)
        ⟨releasable.used, releasable.distinct, releasable.notBlock, releasable.notData⟩
    apply releases.bind
    rw [View.freed_withLock]
    apply lockRelease_returns.yields
    rw [View.withLock_withLock, View.withLock_self (by rw [View.freed_lock, unlocked])]
    exact ⟨rfl, rfl⟩
  | cons next rest ih =>
    have onDisk : b.toNat < v.tables.capacity := map.size ▸ used_lt inUse
    have reads : Returns safe (readInodeDisk b) (v.withLock true) (v.sectors b).inodeDisk (v.withLock true) :=
      readInodeDisk_returns onDisk
    generalize (v.sectors b).inodeDisk = disk at chain reads
    obtain ⟨later, nonempty, all, linked, -, follows⟩ := chain
    have positive := length_pos_iff.mpr nonempty
    have size : data.length = 123 + later.length := by rw [all, length_append, InodeDisk.length_direct]
    have count : data.length - 123 = later.length := by omega
    have slots : disk.direct.toList.take 123 = disk.direct.toList :=
      take_of_length_le (Nat.le_of_eq disk.length_direct)
    -- in the order in which they are given back
    have perm : (next :: rest ++ data).Perm ((rest ++ later) ++ (next :: disk.direct.toList)) := by
      rw [all]
      refine ((perm_append_comm_assoc _ _ _).cons next).trans ?_
      rw [← cons_append]
      exact perm_append_comm
    have ordered := releasable.perm perm
    obtain ⟨before, beforePerm, releases⟩ := ih unlocked set map follows
      (ordered.used next (mem_append_right _ mem_cons_self)) (ordered.subset (sublist_append_left _ _))
    have whole := ordered.perm (beforePerm.symm.append_right _)
    have ready := (map.freed (whole.subset (sublist_append_left _ _))).withLock true
    have left := whole.rest
    have first : Releasable ((v.freed mapData before).withLock true) mapRest mapData ([next] ++ disk.direct.toList) :=
      ⟨left.used, left.distinct, left.notBlock, left.notData⟩
    have setAfter : (v.freed mapData before).tables.freeMapFile = some freeMapSector := by rw [View.freed_mapFile, set]
    refine ⟨before ++ next :: disk.direct.toList, (beforePerm.append_right _).trans perm.symm, ?_⟩
    rw [releaseInodeDisk]
    apply (lockAcquire_returns unlocked).bind
    apply reads.bind
    rw [dif_pos (by omega), linked, slots]
    apply lockRelease_returns.bind
    rw [View.withLock_withLock, View.withLock_self unlocked, count]
    apply releases.bind
    apply (lockAcquire_returns (by rw [View.freed_lock, unlocked])).bind
    apply (freeMapRelease_freed (v := (v.freed mapData before).withLock true) setAfter ready
      (first.used next mem_cons_self)).bind
    apply (cacheRelease_returns next).bind
    have last := releaseDirect_returns (by rw [View.freed_mapFile]; exact setAfter)
      (ready.freed (first.subset (sublist_append_left _ _))) first.rest
    apply last.bind
    rw [View.freed_freed map.distinct, View.freed_withLock, View.freed_freed map.distinct]
    apply lockRelease_returns.yields
    rw [View.withLock_withLock, View.withLock_self (by rw [View.freed_lock, unlocked])]
    exact ⟨rfl, rfl⟩

/-! ## `inode_close` -/

/-- The free map is changed and written to its file. -/
theorem Represents.setMap {mapped : File} (rep : Represents v a) (sound : a.Sound)
    (isMap : a.files freeMapSector = some mapped) (size : freeMap.length = a.freeMap.length) :
    Represents ((v.withMap freeMap).synced mapped.data) (a.setMap freeMap) := by
  have blocks : ∀ {head f s}, a.files head = some f → s ∈ head :: f.blocks →
      storeAcross v.sectors mapped.data 0 (bitmapBytes freeMap) s = v.sectors s :=
    fun found member => storeAcross_other _ (sound.block_notMem isMap found member) _ _
  constructor
  case freeMap => rfl
  case capacity => exact rep.capacity.trans size.symm
  case mapFile => exact rep.mapFile
  case unlocked => exact rep.unlocked
  case handles => exact rep.handles
  case cached =>
    intro inode member
    obtain ⟨f, found⟩ := rep.live_inode sound member
    show inode.data = (storeAcross v.sectors mapped.data 0 (bitmapBytes freeMap) inode.sector).inodeDisk
    rw [blocks found mem_cons_self]
    exact rep.cached inode member
  case file =>
    intro head f found
    obtain ⟨f, before, rfl⟩ := files_setMap.mp found
    have holds := rep.file before
    have sameHead := blocks before mem_cons_self
    by_cases map : head = freeMapSector
    · subst map
      rw [isMap] at before
      cases before
      constructor
      case chain =>
        show Chain (storeAcross v.sectors mapped.data 0 (bitmapBytes freeMap))
          (storeAcross v.sectors mapped.data 0 (bitmapBytes freeMap) freeMapSector).inodeDisk _ _
        rw [sameHead, File.mapStored_blocks, File.mapStored_data]
        exact holds.chain.congr fun s member => blocks isMap (mem_cons_of_mem _ member)
      case named =>
        show (storeAcross v.sectors mapped.data 0 (bitmapBytes freeMap) freeMapSector).inodeDisk.sector = _
        rw [sameHead, holds.named]
      case length =>
        show (storeAcross v.sectors mapped.data 0 (bitmapBytes freeMap) freeMapSector).inodeDisk.length = _
        rw [sameHead, holds.length, File.mapStored_length]
      case bytes =>
        have distinct := (rep.mapReady sound isMap).distinct
        show bytesOf (storeAcross v.sectors mapped.data 0 (bitmapBytes freeMap)) _ = _
        rw [File.mapStored_data, bytesOf_storeAcross distinct, holds.bytes]
        rfl
    · rw [File.mapStored_other _ _ _ map]
      apply holds.congr
      intro s member
      apply storeAcross_other
      intro inMap
      exact map (sound.disjoint before isMap member (File.data_mem inMap))
  case tail =>
    intro f found
    obtain ⟨f, before, rfl⟩ := files_setMap.mp found
    show TailOnDisk _ (storeAcross v.sectors mapped.data 0 (bitmapBytes freeMap) _).inodeDisk _ _ _
    rw [File.last, File.mapStored_blocks, File.mapStored_data, ← File.last, blocks before (f.last_mem _)]
    exact rep.tail before

/-- A file is forgotten. -/
theorem Represents.erase (rep : Represents v a) (head : Word) :
    Represents v { a with files := update a.files head none } :=
  { rep with
    file := fun found => rep.file (files_erase found).2
    tail := fun found => rep.tail (files_erase found).2 }

theorem clearAll_perm {freed : List Word} (freeMap : Bitmap) (perm : freed.Perm other) :
    clearAll freeMap freed = clearAll freeMap other := by
  apply perm.foldl_eq'
  intro s _ t _ map
  by_cases same : s.toNat = t.toNat
  · rw [same]
  · exact set_comm _ _ same

theorem releaseFile_represents (rep : Represents v a) (sound : a.Sound) (found : a.files head = some f)
    (notMap : head ≠ freeMapSector) (closed : head ∉ a.handles.map (·.sector)) :
    Yields safe (do
      releaseInodeDisk f.data.length head
      freeMapRelease head 1) v fun _ w => Represents w (a.delete head) := by
  obtain ⟨mapped, isMap, -⟩ := sound.map
  have map := rep.mapReady sound isMap
  have releasable : Releasable v mapped.blocks mapped.data (f.sectors head) := by
    constructor
    case used =>
      exact fun s member => rep.used sound found member
    case distinct => exact sound.distinct found
    case notBlock =>
      intro s member block
      exact notMap (sound.disjoint found isMap member (File.block_mem (mem_cons_of_mem _ block)))
    case notData =>
      intro s member inMap
      exact notMap (sound.disjoint found isMap member (File.data_mem inMap))
  obtain ⟨freed, perm, releases⟩ := releaseInodeDisk_returns rep.unlocked rep.mapFile map (rep.file found).chain
    (releasable.used head mem_cons_self) (releasable.subset (sublist_cons_self _ _))
  have whole : (freed ++ [head]).Perm (f.sectors head) :=
    (perm.append_right [head]).trans (perm_append_singleton head _)
  have ordered := releasable.perm whole.symm
  apply releases.of_true.bind
  have last := freeMapRelease_freed (by rw [View.freed_mapFile]; exact rep.mapFile)
    (map.freed (ordered.subset (sublist_append_left _ _))) (ordered.rest.used head mem_cons_self)
  rw [View.freed_freed map.distinct] at last
  apply last.of_true.yields
  have cleared := clearAll_perm v.tables.freeMap whole
  have unfolded : a.delete head = ({ a with files := update a.files head none } : Volume).setMap
      (clearAll a.freeMap (f.sectors head)) := by
    rw [delete, found]
  rw [unfolded, View.freed, if_neg (by simp), cleared, rep.freeMap]
  exact (rep.erase head).setMap (sound.erase notMap closed)
    ((update_of_ne (Ne.symm notMap) _ _).trans isMap) (length_clearAll _ _)

theorem inodeClose_represents {handle : Handle} (rep : Represents v a) (sound : a.Sound)
    (isOpen : a.handle head = some handle) (own : head = freeMapSector → handle.openCnt ≠ 1) :
    Yields safe (inodeClose head) v fun _ w => Represents w (a.close head) := by
  obtain ⟨inode, member, named, same, finds⟩ := findInode_represents rep isOpen
  obtain ⟨f, found⟩ := rep.live_inode sound member
  have openCnt : inode.openCnt = handle.openCnt := congrArg Handle.openCnt same
  have removed : inode.removed = handle.removed := congrArg Handle.removed same
  have length : bytesToSectors inode.data.length.toNat = f.data.length := by
    rw [rep.cached inode member, rep.length_toNat sound found, sound.count found]
  rw [named] at found
  apply finds.bind
  unfold close
  rw [isOpen]
  dsimp only
  rw [openCnt]
  by_cases last : handle.openCnt = 1
  · have notMap : head ≠ freeMapSector := fun isMap => own isMap last
    obtain ⟨soundAfter, absent⟩ := sound.filterHandles notMap
    have closes : Represents (v.withInodes (v.tables.openInodes.filter fun inode => inode.sector != head))
        { a with handles := a.handles.filter fun handle => handle.sector != head } := by
      apply rep.withInodes
      · rw [← rep.handles, filter_map]
        rfl
      · intro inode isOpen
        exact rep.cached inode (mem_filter.mp isOpen).1
    rw [if_pos last, if_pos last]
    apply (modifyTables_returns _).bind
    rw [removed]
    by_cases gone : handle.removed
    · rw [if_pos gone, if_pos gone, length, named]
      exact releaseFile_represents closes soundAfter found notMap absent
    · rw [if_neg gone, if_neg gone]
      exact Yields.pure closes
  · rw [if_neg last, if_neg last]
    apply (modifyInode_returns _ _).yields
    exact rep.modifyInode (fun _ => rfl) fun _ => ⟨rfl, rfl⟩

end Pintos.Filesys
