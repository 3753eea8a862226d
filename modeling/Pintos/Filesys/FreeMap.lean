import Pintos.Filesys.ReadWrite

/-! # Taking and giving back sectors

Every change of the free map is written to `free_map_file` before `free_map_allocate` or `free_map_release`
returns, through `inode_write_at`; so each of them also changes the data sectors of that file.
`MapReady` is what this writing needs.  `Takes` says what a piece of code did that took some sectors, wrote
to some, and left everything else alone; pieces compose.
-/

namespace Pintos.Filesys

open Library Kernel Function List

/-- The free sectors, in the order in which `free_map_allocate` hands them out. -/
def freeSectors (freeMap : Bitmap) : List Word :=
  (clearBits freeMap).map (BitVec.ofNat 32)

def Used (freeMap : Bitmap) (s : Word) : Prop :=
  freeMap[s.toNat]? = some true

/-- The free map with some sectors taken. -/
def markAll (freeMap : Bitmap) (taken : List Word) : Bitmap :=
  taken.foldl (fun freeMap s => bitmapMark freeMap s.toNat) freeMap

@[simp] theorem markAll_nil (freeMap : Bitmap) : markAll freeMap [] = freeMap := rfl

@[simp] theorem markAll_cons (freeMap : Bitmap) (s : Word) (taken : List Word) :
    markAll freeMap (s :: taken) = markAll (bitmapMark freeMap s.toNat) taken := rfl

@[simp] theorem length_markAll (freeMap : Bitmap) (taken : List Word) :
    (markAll freeMap taken).length = freeMap.length := by
  induction taken generalizing freeMap with
  | nil => rfl
  | cons s taken ih => rw [markAll_cons, ih, bitmapMark, length_set]

variable {s t : Word} {freeMap : Bitmap} {left : List Word}

theorem used_bitmapMark (inside : t.toNat < freeMap.length) :
    Used (bitmapMark freeMap t.toNat) s ↔ s = t ∨ Used freeMap s := by
  unfold Used bitmapMark
  rw [getElem?_set]
  split
  next same => simp [BitVec.eq_of_toNat_eq same]
  next other =>
    rw [or_iff_right]
    exact fun same => other (same ▸ rfl)

theorem used_lt (used : Used freeMap s) : s.toNat < freeMap.length :=
  (List.getElem?_eq_some_iff.mp used).1

section Bounded

variable {freeMap : Bitmap} (bounded : freeMap.length ≤ 2 ^ 28)
include bounded

theorem toNat_of_clear {i : Nat} (clear : i ∈ clearBits freeMap) : (BitVec.ofNat 32 i).toNat = i := by
  have inside := (List.getElem?_eq_some_iff.mp (mem_clearBits.mp clear)).1
  rw [BitVec.toNat_ofNat]
  omega

variable {s : Word}

theorem mem_freeSectors : s ∈ freeSectors freeMap ↔ freeMap[s.toNat]? = some false := by
  rw [← mem_clearBits, freeSectors, mem_map]
  constructor
  · intro ⟨i, clear, named⟩
    rw [← named, toNat_of_clear bounded clear]
    exact clear
  · intro clear
    exact ⟨s.toNat, clear, BitVec.ofNat_toNat 32 s⟩

theorem free_lt (free : s ∈ freeSectors freeMap) : s.toNat < freeMap.length :=
  (List.getElem?_eq_some_iff.mp ((mem_freeSectors bounded).mp free)).1

theorem not_used_of_free (free : s ∈ freeSectors freeMap) : ¬ Used freeMap s := by
  rw [mem_freeSectors bounded] at free
  simp [Used, free]

theorem nodup_freeSectors : (freeSectors freeMap).Nodup := by
  apply List.Nodup.map_on _ (nodup_clearBits freeMap)
  intro i clear j clear' same
  rw [← toNat_of_clear bounded clear, same, toNat_of_clear bounded clear']

/-- The first free sector is the one `bitmap_scan_and_flip` finds. -/
theorem scan_freeSectors (free : freeSectors freeMap = s :: left) :
    bitmapScanAndFlip freeMap 0 1 false = some (s.toNat, bitmapMark freeMap s.toNat) ∧
      freeSectors (bitmapMark freeMap s.toNat) = left := by
  cases clear : clearBits freeMap with
  | nil => simp [freeSectors, clear] at free
  | cons i rest =>
    rw [freeSectors, clear, map_cons, cons.injEq] at free
    have number : s.toNat = i := by
      rw [← free.1]
      exact toNat_of_clear bounded (clear ▸ mem_cons_self)
    rw [number]
    exact ⟨bitmapScanAndFlip_cons clear, by rw [freeSectors, clearBits_mark clear, free.2]⟩

/-- Sectors are taken in the order in which they are free. -/
theorem freeSectors_markAll (count : Nat) :
    freeSectors (markAll freeMap ((freeSectors freeMap).take count)) = (freeSectors freeMap).drop count := by
  induction count generalizing freeMap with
  | zero => rfl
  | succ count ih =>
    cases free : freeSectors freeMap with
    | nil => rw [take_nil, drop_nil, markAll_nil, free]
    | cons s left =>
      have after := (scan_freeSectors bounded free).2
      have size : (bitmapMark freeMap s.toNat).length ≤ 2 ^ 28 := by rwa [bitmapMark, length_set]
      have again := ih size
      rw [after] at again
      rw [take_succ_cons, markAll_cons, again, drop_succ_cons]

end Bounded

/-! ## Writing the free map to its file -/

/-- The sectors of `free_map_file`: the blocks after its first one, and its data.  Before the file exists there
    are none, and nothing is written. -/
inductive MapFile (safe : Prop) (v : View) : List Word → List Word → Prop
  | absent (unset : v.tables.freeMapFile = none) : MapFile safe v [] []
  | present {sector : Word} {inode : Inode} {rest data : List Word}
      (set : v.tables.freeMapFile = some sector)
      (found : v.tables.openInodes.find? (fun i => i.sector == sector) = some inode)
      (allowed : inode.denyWriteCnt = 0) (nonempty : 0 < inode.data.length.toNat)
      (file : Accessible v inode.data rest data)
      (covered : byteCnt v.tables.freeMap.length ≤ 512 * data.length)
      (tail : safe → TailOnDisk v.tables.capacity (lastDisk v.sectors inode.data rest) 0 data.length
        (bytesToSectors (byteCnt v.tables.freeMap.length))) : MapFile safe v rest data

/-- The free map can be written back: the sectors this touches are in use, and are not needed to find them. -/
structure MapReady (safe : Prop) (v : View) (rest data : List Word) : Prop where
  file : MapFile safe v rest data
  size : v.tables.freeMap.length = v.tables.capacity
  bounded : v.tables.capacity ≤ 2 ^ 28
  used : ∀ s, s ∈ rest ∨ s ∈ data → Used v.tables.freeMap s
  distinct : data.Nodup

def View.synced (v : View) (data : List Word) : View :=
  v.withSectors (storeAcross v.sectors data 0 (bitmapBytes v.tables.freeMap))

variable {safe : Prop} {v w : View} {rest data : List Word}

theorem MapReady.boundedMap (map : MapReady safe v rest data) : v.tables.freeMap.length ≤ 2 ^ 28 :=
  map.size ▸ map.bounded

/-- The tables may change in other places, and the sectors anywhere but in the later blocks of the file. -/
theorem MapFile.congr (file : MapFile safe v rest data) (blocks : ∀ s ∈ rest, w.sectors s = v.sectors s)
    (capacity : w.tables.capacity = v.tables.capacity) (size : w.tables.freeMap.length = v.tables.freeMap.length)
    (mapFile : w.tables.freeMapFile = v.tables.freeMapFile) (inodes : w.tables.openInodes = v.tables.openInodes) :
    MapFile safe w rest data := by
  cases file with
  | absent unset => exact .absent (mapFile.trans unset)
  | present set found allowed nonempty file covered tail =>
    refine .present (mapFile.trans set) (inodes ▸ found) allowed nonempty
      ⟨file.chain.congr blocks, capacity ▸ file.blocks, capacity ▸ file.usable, file.apart⟩ (size ▸ covered) ?_
    rw [capacity, size, lastDisk_congr blocks]
    exact tail

variable {sector : Word} {taken more : List Word} {old new : List UInt8}

theorem bitmapWrite_yields {inode : Inode} (set : v.tables.freeMapFile = some sector)
    (found : v.tables.openInodes.find? (fun i => i.sector == sector) = some inode) (allowed : inode.denyWriteCnt = 0)
    (written : 0 < inode.data.length.toNat) (file : Accessible v inode.data rest data)
    (covered : byteCnt v.tables.freeMap.length ≤ 512 * data.length) (nonempty : 0 < v.tables.freeMap.length) :
    let tail := TailOnDisk v.tables.capacity (lastDisk v.sectors inode.data rest) 0 data.length
      (bytesToSectors (byteCnt v.tables.freeMap.length))
    Yields tail bitmapWrite v fun success after => success = true ∧ after = v.synced data ∧ tail := by
  intro tail
  have some : 0 < (bitmapBytes v.tables.freeMap).length := by
    rw [length_bitmapBytes, byteCnt]
    omega
  have fits : 0 + (bitmapBytes v.tables.freeMap).length ≤ 512 * data.length := by
    rw [length_bitmapBytes]
    omega
  apply getTables_returns.bind
  rw [set]
  apply (findInode_returns found).bind
  rw [if_neg (by omega)]
  have yields := inodeWriteData_yields file allowed some fits
  rw [length_bitmapBytes, Nat.zero_add] at yields
  apply yields.bind
  intro count after wrote
  rw [wrote.1, wrote.2.1, length_bitmapBytes, beq_self_eq_true]
  exact Yields.pure ⟨rfl, rfl, wrote.2.2⟩

theorem bitmapWrite_returns (set : v.tables.freeMapFile = some sector) (file : MapFile safe v rest data)
    (nonempty : 0 < v.tables.freeMap.length) : Returns safe bitmapWrite v true (v.synced data) := by
  cases file with
  | absent unset => rw [unset] at set; cases set
  | present set found allowed written file covered tail =>
    apply ((bitmapWrite_yields set found allowed written file covered nonempty).weaken tail).mono
    intro success after wrote
    exact ⟨wrote.1, wrote.2.1⟩

theorem MapFile.withMap (file : MapFile safe v rest data) (size : freeMap.length = v.tables.freeMap.length) :
    MapFile safe (v.withMap freeMap) rest data :=
  file.congr (fun _ _ => rfl) rfl size rfl rfl

theorem freeMapAllocate_returns (map : MapReady safe v rest data) (free : freeSectors v.tables.freeMap = s :: left) :
    Returns safe (freeMapAllocate 1) v (some s) ((v.withMap (bitmapMark v.tables.freeMap s.toNat)).synced data) := by
  have bounded := map.boundedMap
  have inside : s.toNat < v.tables.freeMap.length := free_lt bounded (free ▸ mem_cons_self)
  have marked : (bitmapMark v.tables.freeMap s.toNat).length = v.tables.freeMap.length := length_set
  have name : BitVec.ofNat 32 s.toNat = s := BitVec.ofNat_toNat 32 s
  have marks : Returns safe (modifyTables fun t => { t with freeMap := bitmapMark v.tables.freeMap s.toNat }) v ()
      (v.withMap (bitmapMark v.tables.freeMap s.toNat)) := modifyTables_returns _
  apply getTables_returns.bind
  rw [(scan_freeSectors bounded free).1]
  apply marks.bind
  rw [name]
  cases set : v.tables.freeMapFile with
  | none =>
    cases map.file with
    | absent unset => exact Returns.pure
    | present set' => rw [set] at set'; cases set'
  | some sector =>
    have nonempty : 0 < (bitmapMark v.tables.freeMap s.toNat).length := by omega
    have writes := bitmapWrite_returns (v := v.withMap (bitmapMark v.tables.freeMap s.toNat)) set
      (map.file.withMap marked) nonempty
    apply writes.bind
    exact Returns.pure

theorem freeMapRelease_returns (set : v.tables.freeMapFile = some sector) (map : MapReady safe v rest data)
    (used : Used v.tables.freeMap s) :
    Returns safe (freeMapRelease s 1) v () ((v.withMap (v.tables.freeMap.set s.toNat false)).synced data) := by
  have inside := used_lt used
  have cleared : (v.tables.freeMap.set s.toNat false).length = v.tables.freeMap.length := length_set
  have bit : v.tables.freeMap[s.toNat] = true := by
    have value : v.tables.freeMap[s.toNat]? = some true := used
    rwa [getElem?_eq_getElem inside, Option.some.injEq] at value
  have all : bitmapAll v.tables.freeMap s.toNat 1 = true := by
    rw [bitmapAll, bitmapContains_one _ inside, bit]
    rfl
  have clears : Returns safe (modifyTables fun t => { t with freeMap := bitmapSetMultiple t.freeMap s.toNat 1 false }) v
      () (v.withMap (v.tables.freeMap.set s.toNat false)) := by
    rw [← bitmapSetMultiple_one]
    exact modifyTables_returns _
  have nonempty : 0 < (v.tables.freeMap.set s.toNat false).length := by omega
  have writes := bitmapWrite_returns (v := v.withMap (v.tables.freeMap.set s.toNat false)) set
    (map.file.withMap cleared) nonempty
  apply getTables_returns.bind
  rw [if_pos ⟨inside, all⟩]
  apply clears.bind
  apply writes.bind
  exact Returns.pure

/-! ## What code that takes sectors may do -/

theorem storeAcross_head (first : s ∉ more) (sectors : Word → Sector) (offset : Nat) (buffer : List UInt8) :
    storeAcross sectors (s :: more) offset buffer s = (sectors s).store (buffer.take (512 - offset)) offset := by
  rw [storeAcross, storeAcross_other _ first, update_self]

theorem storeAcross_tail (first : s ∉ more) (later : t ∈ more) (sectors : Word → Sector) (offset : Nat)
    (buffer : List UInt8) :
    storeAcross sectors (s :: more) offset buffer t =
      storeAcross sectors more (offset - 512) (buffer.drop (512 - offset)) t := by
  rw [storeAcross]
  apply storeAcross_congr _ _ _ later
  intro u member
  have other : u ≠ s := fun same => first (same ▸ member)
  exact update_of_ne other _ _

/-- A second write to the same place hides the first. -/
theorem storeAcross_storeAcross {m : List Word} (distinct : m.Nodup) (sectors : Word → Sector) (offset : Nat)
    (same : old.length = new.length) (member : s ∈ m) :
    storeAcross (storeAcross sectors m offset old) m offset new s = storeAcross sectors m offset new s := by
  induction m generalizing sectors offset old new with
  | nil => cases member
  | cons t m ih =>
    rw [nodup_cons] at distinct
    by_cases first : s = t
    · subst first
      rw [storeAcross_head distinct.1, storeAcross_head distinct.1, storeAcross_head distinct.1]
      refine Sector.ext (splice_splice _ _ (Nat.le_of_eq ?_))
      rw [length_take, length_take, same]
    · have later : s ∈ m := (mem_cons.mp member).resolve_left first
      have sameLater : (old.drop (512 - offset)).length = (new.drop (512 - offset)).length := by
        rw [length_drop, length_drop, same]
      rw [storeAcross_tail distinct.1 later, storeAcross_tail distinct.1 later,
        ← ih distinct.2 sectors _ sameLater later]
      apply storeAcross_congr _ _ _ later
      intro u memberU
      exact storeAcross_tail distinct.1 memberU _ _ _

theorem used_markAll (inside : ∀ t ∈ taken, t.toNat < freeMap.length) :
    Used (markAll freeMap taken) s ↔ s ∈ taken ∨ Used freeMap s := by
  induction taken generalizing freeMap with
  | nil => simp
  | cons t taken ih =>
    have marked : (bitmapMark freeMap t.toNat).length = freeMap.length := length_set
    rw [markAll_cons, ih fun u member => marked ▸ inside u (mem_cons_of_mem _ member),
      used_bitmapMark (inside t mem_cons_self), mem_cons]
    tauto

/-- A sector that is free after some were taken was free before. -/
theorem free_of_markAll (bounded : freeMap.length ≤ 2 ^ 28) (wereFree : taken ⊆ freeSectors freeMap)
    (free : s ∈ freeSectors (markAll freeMap taken)) : s ∈ freeSectors freeMap := by
  have boundedAfter : (markAll freeMap taken).length ≤ 2 ^ 28 := by rwa [length_markAll]
  have inside := free_lt boundedAfter free
  have unused := not_used_of_free boundedAfter free
  rw [used_markAll fun t member => free_lt bounded (wereFree member), not_or] at unused
  rw [length_markAll] at inside
  rw [mem_freeSectors bounded]
  have bit := getElem?_eq_getElem inside
  cases value : freeMap[s.toNat] with
  | true => exact absurd (bit.trans (congrArg some value)) unused.2
  | false => rw [bit, value]

/-- Code that took the sectors `taken`, in this order, and wrote to no sector but those in `touched` and, if it
    took any, to those that hold the free map. -/
structure Takes (mapData : List Word) (v w : View) (taken touched : List Word) : Prop where
  tables : w.tables = { v.tables with freeMap := markAll v.tables.freeMap taken }
  free : taken ++ freeSectors w.tables.freeMap = freeSectors v.tables.freeMap
  synced : ∀ s ∈ mapData, w.sectors s =
    if taken = [] then v.sectors s else storeAcross v.sectors mapData 0 (bitmapBytes w.tables.freeMap) s
  frame : ∀ s, s ∉ mapData → s ∉ touched → w.sectors s = v.sectors s

namespace Takes

variable {mapData taken touched taken' touched' : List Word} {w x : View}

theorem freeMap_eq (takes : Takes mapData v w taken touched) : w.tables.freeMap = markAll v.tables.freeMap taken := by
  rw [takes.tables]

theorem refl (mapData : List Word) (v : View) : Takes mapData v v [] [] where
  tables := rfl
  free := rfl
  synced _ _ := (if_pos rfl).symm
  frame _ _ _ := rfl

theorem widen (takes : Takes mapData v w taken touched) (more : touched ⊆ touched') :
    Takes mapData v w taken touched' :=
  { takes with frame := fun s outside apart => takes.frame s outside fun member => apart (more member) }

theorem write (outside : s ∉ mapData) (sector : Sector) :
    Takes mapData v (v.withSectors (update v.sectors s sector)) [] [s] where
  tables := rfl
  free := rfl
  synced t member := by
    have other : t ≠ s := fun same => outside (same ▸ member)
    rw [if_pos rfl]
    exact update_of_ne other _ _
  frame t _ apart := update_of_ne (fun same => apart (mem_singleton.mpr same)) _ _

variable {s : Word}

theorem allocate (map : MapReady safe v rest mapData) (free : freeSectors v.tables.freeMap = s :: left) :
    Takes mapData v ((v.withMap (bitmapMark v.tables.freeMap s.toNat)).synced mapData) [s] [] where
  tables := rfl
  free := by
    have bounded := map.boundedMap
    rw [free]
    exact congrArg _ (scan_freeSectors bounded free).2
  synced _ _ := (if_neg (cons_ne_nil _ _)).symm
  frame t outside _ := storeAcross_other _ outside _ _

theorem trans (distinct : mapData.Nodup) (first : Takes mapData v w taken touched)
    (second : Takes mapData w x taken' touched') : Takes mapData v x (taken ++ taken') (touched ++ touched') where
  tables := by rw [second.tables, first.tables, markAll, markAll, markAll, foldl_append]
  free := by rw [append_assoc, second.free, first.free]
  synced s member := by
    rw [second.synced s member]
    by_cases none : taken' = []
    · rw [if_pos none, first.synced s member, second.freeMap_eq, none, append_nil, markAll_nil]
    · rw [if_neg none, if_neg (append_ne_nil_of_right_ne_nil _ none)]
      by_cases none' : taken = []
      · apply storeAcross_congr _ _ _ member
        intro t memberT
        rw [first.synced t memberT, if_pos none']
      · have size : (bitmapBytes w.tables.freeMap).length = (bitmapBytes x.tables.freeMap).length := by
          rw [length_bitmapBytes, length_bitmapBytes, second.freeMap_eq, length_markAll]
        rw [← storeAcross_storeAcross distinct v.sectors 0 size member]
        apply storeAcross_congr _ _ _ member
        intro t memberT
        rw [first.synced t memberT, if_neg none']
  frame s outside apart := by
    rw [mem_append, not_or] at apart
    rw [second.frame s outside apart.2, first.frame s outside apart.1]

section

variable (takes : Takes mapData v w taken touched)

include takes

theorem withLock (held : Bool) : Takes mapData (v.withLock held) (w.withLock held) taken touched :=
  { takes with tables := by simp only [View.withLock, takes.tables] }

/-- What was taken was free, and is in use now. -/
theorem used_iff (bounded : v.tables.freeMap.length ≤ 2 ^ 28) :
    Used w.tables.freeMap s ↔ s ∈ taken ∨ Used v.tables.freeMap s := by
  rw [takes.freeMap_eq]
  apply used_markAll
  intro t member
  apply free_lt bounded
  rw [← takes.free]
  exact mem_append_left _ member

theorem mem_free (member : s ∈ taken) : s ∈ freeSectors v.tables.freeMap := by
  rw [← takes.free]
  exact mem_append_left _ member

/-- A sector that is still free holds what it held. -/
theorem free_kept (bounded : v.tables.freeMap.length ≤ 2 ^ 28) (mapUsed : ∀ s ∈ mapData, Used v.tables.freeMap s)
    (touchedUsed : ∀ s ∈ touched, s ∈ taken ∨ Used v.tables.freeMap s) (free : s ∈ freeSectors w.tables.freeMap) :
    w.sectors s = v.sectors s := by
  have boundedAfter : w.tables.freeMap.length ≤ 2 ^ 28 := by
    rw [takes.freeMap_eq, length_markAll]
    exact bounded
  have unused := not_used_of_free boundedAfter free
  rw [takes.used_iff bounded] at unused
  apply takes.frame s
  · exact fun inMap => unused (.inr (mapUsed s inMap))
  · exact fun touched => unused (touchedUsed s touched)

end

end Takes

theorem freeMapAllocate_yields (map : MapReady safe v rest data) (free : freeSectors v.tables.freeMap = s :: left) :
    Yields safe (freeMapAllocate 1) v fun sector w => sector = some s ∧ Takes data v w [s] [] ∧
      freeSectors w.tables.freeMap = left := by
  apply (freeMapAllocate_returns map free).yields
  exact ⟨rfl, Takes.allocate map free, (scan_freeSectors (map.size ▸ map.bounded) free).2⟩

theorem MapReady.takes {touched : List Word} (map : MapReady safe v rest data) (takes : Takes data v w taken touched)
    (apart : ∀ s ∈ rest, s ∉ touched) : MapReady safe w rest data := by
  have bounded := map.boundedMap
  have size : w.tables.freeMap.length = v.tables.freeMap.length := by rw [takes.freeMap_eq, length_markAll]
  have disjoint : ∀ s ∈ rest, s ∉ data := by
    cases map.file with
    | absent => exact fun s member => nomatch member
    | present set found allowed nonempty file => exact fun s block member => file.apart s member block
  constructor
  case file =>
    apply map.file.congr _ (by rw [takes.tables]) size (by rw [takes.tables]) (by rw [takes.tables])
    intro s member
    exact takes.frame s (disjoint s member) (apart s member)
  case size => rw [size, map.size, takes.tables]
  case bounded =>
    rw [takes.tables]
    exact map.bounded
  case used => exact fun s member => (takes.used_iff bounded).mpr (.inr (map.used s member))
  case distinct => exact map.distinct

end Pintos.Filesys
