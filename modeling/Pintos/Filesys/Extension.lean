import Pintos.Filesys.Allocation

/-! # Writing at or past the end of a file

`inode_write_at` looks for the last block of the file, adds a block to it if it is full, lets
`allocate_inode_disk` add the data sectors, and then sets the length.  The search follows every `indirect`
that is not zero, the one of a full last block too; and the block is added before it is known whether any
data sector will be.  What follows is about the extensions where neither matters.
-/

namespace Pintos.Filesys

open Library Function List

variable {safe : Prop} {v : View} {rest data : List Word}

/-- The search ends at the last block, unless that is full and names a next one. -/
theorem findPrevious_returns {disk : InodeDisk} {previous : Word} (chain : Chain v.sectors disk rest data)
    (blocks : ∀ s ∈ rest, s.toNat < v.tables.capacity) (nonzero : 0 ∉ rest)
    (unset : data ≠ [] → 123 ∣ data.length → (lastDisk v.sectors disk rest).indirect = 0) :
    Returns safe (findPrevious data.length disk previous) v
      (Fin.ofNat 123 data.length, lastDisk v.sectors disk rest, rest.getLastD previous) v := by
  induction rest generalizing disk previous data with
  | nil =>
    have bound := chain.length_le
    rw [findPrevious]
    by_cases full : data.length ≥ 123
    · have size : data.length = 123 := Nat.le_antisymm bound full
      have some : data ≠ [] := ne_nil_of_length_pos (by omega)
      have zero : disk.indirect = 0 := unset some (size ▸ Nat.dvd_refl _)
      rw [dif_pos full, zero, if_neg (not_not_intro rfl), size, findPrevious, dif_neg (by decide)]
      exact Returns.pure
    · rw [dif_neg full]
      have slot : (⟨data.length, Nat.not_le.mp full⟩ : Fin 123) = Fin.ofNat 123 data.length :=
        Fin.ext (Nat.mod_eq_of_lt (Nat.not_le.mp full)).symm
      rw [slot]
      exact Returns.pure
  | cons next rest ih =>
    obtain ⟨later, some, all, linked, -, follows⟩ := chain
    have size : data.length = 123 + later.length := by rw [all, length_append, disk.length_direct]
    have set : disk.indirect ≠ 0 := by
      intro zero
      exact nonzero (mem_cons.mpr (.inl (zero.symm.trans linked)))
    have slot : Fin.ofNat 123 data.length = Fin.ofNat 123 later.length := by
      apply Fin.ext
      show data.length % 123 = later.length % 123
      omega
    have left : data.length - 123 = later.length := by omega
    rw [findPrevious, dif_pos (by omega), if_pos set, linked, left, slot, getLastD_cons]
    apply (readInodeDisk_returns (blocks next mem_cons_self)).bind
    apply ih follows (fun s member => blocks s (mem_cons_of_mem _ member))
      (fun member => nonzero (mem_cons_of_mem _ member))
    intro _ aligned
    exact unset (by rw [all]; simp [some]) (by omega)

/-! ## The chain of a file that has grown -/

theorem lastDisk_append (sectors : Word → Sector) (head : Word) (blocks : List Word) :
    lastDisk sectors (sectors head).inodeDisk (rest ++ blocks) =
      lastDisk sectors (sectors (rest.getLastD head)).inodeDisk blocks := by
  induction rest generalizing head with
  | nil => rfl
  | cons next rest ih => rw [cons_append, lastDisk, ih, getLastD_cons]

/-- The slots of the last block that are in use. -/
def usedSlots (rest data : List Word) : Nat :=
  data.length - 123 * rest.length

variable {k : Nat} {mapData taken : List Word} {head : Word}

variable {w : View}

theorem Chain.extend (chain : Chain v.sectors (v.sectors head).inodeDisk rest data) (distinct : (head :: rest).Nodup)
    (outside : ∀ s ∈ head :: rest, s ∉ mapData ∧ s ∉ taken)
    (grown : Grown mapData v w (rest.getLastD head) (usedSlots rest data) k taken) :
    Chain w.sectors (w.sectors head).inodeDisk (rest ++ (carve (usedSlots rest data) k taken).1)
      (data ++ (carve (usedSlots rest data) k taken).2) := by
  induction rest generalizing head data with
  | nil =>
    have used : usedSlots [] data = data.length := rfl
    have grownChain := grown.chain
    rw [used, getLastD_nil, ← prefix_iff_eq_take.mp chain] at grownChain
    exact grownChain
  | cons next rest ih =>
    obtain ⟨later, some, all, linked, named, follows⟩ := chain
    have used : usedSlots (next :: rest) data = usedSlots rest later := by
      rw [usedSlots, usedSlots, all, length_append, InodeDisk.length_direct, length_cons]
      omega
    rw [getLastD_cons, used] at grown
    rw [nodup_cons] at distinct
    have notLast : head ≠ rest.getLastD next := by
      intro same
      exact distinct.1 (same ▸ getLastD_mem_cons)
    obtain ⟨notMap, notTaken⟩ := outside head mem_cons_self
    have kept : w.sectors head = v.sectors head := by
      apply grown.takes.frame head notMap
      intro member
      cases mem_cons.mp member with
      | inl last => exact notLast last
      | inr member => exact notTaken member
    have rest_chain := ih follows distinct.2 (fun s member => outside s (mem_cons_of_mem _ member)) grown
    rw [used, kept, cons_append, all, append_assoc]
    refine ⟨later ++ (carve (usedSlots rest later) k taken).2, ?_, rfl, linked, ?_, rest_chain⟩
    · simp [some]
    · by_cases last : next = rest.getLastD next
      · rw [last]
        exact grown.sector
      · obtain ⟨nextNotMap, nextNotTaken⟩ := outside next (mem_cons_of_mem _ mem_cons_self)
        rw [grown.takes.frame next nextNotMap]
        · exact named
        · intro member
          cases mem_cons.mp member with
          | inl same => exact last same
          | inr member => exact nextNotTaken member

variable {sectors : Word → Sector} {disk : InodeDisk}

/-- Only the slots of a block and its `indirect` count. -/
theorem Chain.congr_disk {disk' : InodeDisk} (chain : Chain sectors disk rest data)
    (direct : disk'.direct = disk.direct) (indirect : disk'.indirect = disk.indirect) :
    Chain sectors disk' rest data := by
  cases rest with
  | nil =>
    show data <+: disk'.direct.toList
    rw [direct]
    exact chain
  | cons next rest =>
    obtain ⟨later, some, all, linked, follows⟩ := chain
    exact ⟨later, some, direct ▸ all, indirect.trans linked, follows⟩

/-! ## The last block of the free map file -/

variable {b : Word} {used : Nat}

theorem Chain.rewrite_last {new : InodeDisk}
    (chain : Chain sectors disk (rest ++ [b]) data) (distinct : b ∉ rest) (sector : new.sector = b)
    (slots : new.direct.toList.take (usedSlots (rest ++ [b]) data) =
      (sectors b).inodeDisk.direct.toList.take (usedSlots (rest ++ [b]) data)) :
    Chain (update sectors b (.ofInodeDisk new)) disk (rest ++ [b]) data := by
  induction rest generalizing disk data with
  | nil =>
    obtain ⟨later, some, all, linked, named, follows⟩ := chain
    have used : usedSlots [b] data = later.length := by
      rw [usedSlots, all, length_append, disk.length_direct, length_singleton]
      omega
    rw [nil_append, used] at slots
    refine ⟨later, some, all, linked, ?_⟩
    rw [update_self, inodeDisk_ofInodeDisk]
    refine ⟨sector, ?_⟩
    have kept := prefix_iff_eq_take.mp follows
    rw [← slots] at kept
    exact prefix_iff_eq_take.mpr kept
  | cons next rest ih =>
    obtain ⟨later, some, all, linked, named, follows⟩ := chain
    rw [mem_cons, not_or] at distinct
    have used : usedSlots (next :: rest ++ [b]) data = usedSlots (rest ++ [b]) later := by
      rw [usedSlots, usedSlots, all, cons_append, length_append, disk.length_direct, length_cons]
      omega
    rw [used] at slots
    refine ⟨later, some, all, linked, ?_⟩
    rw [update_of_ne (Ne.symm distinct.1)]
    exact ⟨named, ih follows distinct.2 slots⟩

theorem lastDisk_concat (sectors : Word → Sector) (disk : InodeDisk) (b : Word) :
    lastDisk sectors disk (rest ++ [b]) = (sectors b).inodeDisk := by
  induction rest generalizing disk with
  | nil => rfl
  | cons next rest ih => exact ih _

theorem extendable_last (distinct : b ∉ rest) (notData : b ∉ data) :
    Extendable safe v (rest ++ [b]) data b (usedSlots (rest ++ [b]) data) := by
  intro x disk map same sector slots tail
  refine { map with file := ?_ }
  have file := map.file
  generalize whole : rest ++ [b] = blocks at file ⊢
  cases file with
  | absent => simp at whole
  | present set found allowed nonempty file covered onDisk =>
    subst whole
    rw [← same] at slots
    have chain := file.chain.rewrite_last distinct sector slots
    refine .present set found allowed nonempty { file with chain := chain } covered ?_
    intro _ _ full
    have size := file.chain.length_rest
    rw [length_append, length_singleton] at size
    rw [lastDisk_concat]
    show (update x.sectors b (.ofInodeDisk disk) b).inodeDisk.indirect.toNat < x.tables.capacity
    rw [update_self, inodeDisk_ofInodeDisk]
    apply tail
    rw [usedSlots, length_append, length_singleton]
    omega

/-! ## The extension as a whole -/

/-- The length of the file at `head` is set, in the inode in memory and on the disk. -/
def View.lengthened (v : View) (head : Word) (newLength : Nat) : View :=
  let disk := { (v.sectors head).inodeDisk with length := BitVec.ofNat 32 newLength }
  { sectors := update v.sectors head (.ofInodeDisk disk)
    tables := { v.tables with
      openInodes := v.tables.openInodes.map fun i => if i.sector == head then { i with data := disk } else i
      inodeSysLock := false } }

theorem inodeDisk_update (sectors : Word → Sector) (b s : Word) (disk : InodeDisk) :
    (update sectors b (.ofInodeDisk disk) s).inodeDisk = if s = b then disk else (sectors s).inodeDisk := by
  rw [update_apply]
  split
  · exact inodeDisk_ofInodeDisk disk
  · rfl

theorem View.lengthened_disk (v : View) (head s : Word) (newLength : Nat) :
    ((v.lengthened head newLength).sectors s).inodeDisk =
      if s = head then { (v.sectors head).inodeDisk with length := BitVec.ofNat 32 newLength }
      else (v.sectors s).inodeDisk :=
  inodeDisk_update ..

theorem finish_returns {inode : Inode} {newLength : Nat}
    (named : (v.sectors inode.sector).inodeDisk.sector = inode.sector) (same : inode.data.sector = inode.sector)
    (onDisk : inode.sector.toNat < v.tables.capacity) :
    Returns safe (extendFromIn.finish inode newLength) v true (v.lengthened inode.sector newLength) := by
  unfold extendFromIn.finish View.lengthened
  rw [same]
  apply (readInodeDisk_returns onDisk).bind
  generalize set : ({ (v.sectors inode.sector).inodeDisk with length := BitVec.ofNat 32 newLength } : InodeDisk) = disk
  have sector : disk.sector = inode.sector := by
    rw [← set]
    exact named
  apply (modifyInode_returns _ _).bind
  rw [sector]
  refine Returns.bind (writeInodeDisk_returns (v := v.withInodes _) ?_ disk) ?_
  · exact onDisk
  apply lockRelease_returns.bind
  exact Returns.pure

theorem View.lengthened_withLock (v : View) (head : Word) (newLength : Nat) (held : Bool) :
    (v.withLock held).lengthened head newLength = v.lengthened head newLength := rfl

/-- Nothing is added where the new length ends in the last sector. -/
theorem grown_nothing (named : (v.sectors b).inodeDisk.sector = b) :
    Grown mapData v v b used 0 [] where
  count := (growthSectors_fits (Nat.zero_le _)).symm
  takes := (Takes.refl mapData v).widen (nil_subset _)
  chain := by
    rw [carve_fits (Nat.zero_le _)]
    show _ ++ [] <+: _
    rw [append_nil]
    exact List.take_prefix _ _
  sector := named
  zeroed := by
    rw [carve_fits (Nat.zero_le _)]
    exact fun _ member => nomatch member
  spare := by rw [carve_fits (Nat.zero_le _)]; rfl

/-- A block that named itself still does. -/
theorem Grown.sector_of_used {s : Word} (grown : Grown mapData v w b used k taken)
    (bounded : v.tables.freeMap.length ≤ 2 ^ 28) (named : (v.sectors s).inodeDisk.sector = s)
    (inUse : Used v.tables.freeMap s) (notMap : s ∉ mapData) : (w.sectors s).inodeDisk.sector = s := by
  by_cases same : s = b
  · rw [same]
    exact grown.sector
  · rw [grown.takes.frame s notMap]
    · exact named
    · intro member
      cases mem_cons.mp member with
      | inl equal => exact same equal
      | inr taken => exact not_used_of_free bounded (grown.takes.mem_free taken) inUse

variable {mapRest mapData : List Word} {inode : Inode} {newLength : Nat}

theorem extendFrom_yields {start : Fin 123}
    (adds : bytesToSectors newLength - bytesToSectors inode.data.length.toNat = k)
    (map : MapReady safe v mapRest mapData) (inUse : Used v.tables.freeMap b) (notData : b ∉ mapData)
    (extendable : Extendable safe v mapRest mapData b start)
    (enough : growthSectors start k ≤ (freeSectors v.tables.freeMap).length)
    (blockNamed : k = 0 → (v.sectors b).inodeDisk.sector = b)
    (named : (v.sectors inode.sector).inodeDisk.sector = inode.sector) (same : inode.data.sector = inode.sector)
    (headUsed : Used v.tables.freeMap inode.sector) (headNotData : inode.sector ∉ mapData) :
    Yields safe (extendFrom inode newLength start b) v fun done x => done = true ∧ ∃ taken w,
      Grown mapData (v.withLock false) w b start k taken ∧ x = w.lengthened inode.sector newLength := by
  have bounded := map.boundedMap
  have onDisk : inode.sector.toNat < v.tables.capacity := map.size ▸ used_lt headUsed
  unfold extendFrom extendFromIn
  dsimp only
  rw [adds]
  by_cases more : k > 0
  · rw [if_pos more]
    apply lockRelease_returns.bind
    apply (allocateInodeDisk_yields (v := v.withLock false) rfl (map.withLock false) inUse notData extendable
      enough).bind
    intro done w grown
    obtain ⟨rfl, -, -, -, taken, grown⟩ := grown
    have head := grown.sector_of_used bounded named headUsed headNotData
    have tables := grown.takes.tables
    rw [if_pos rfl]
    apply (lockAcquire_returns (by rw [tables]; rfl)).bind
    apply (finish_returns (v := w.withLock true) head same (by rw [View.withLock, tables]; exact onDisk)).yields
    exact ⟨rfl, taken, w, grown, View.lengthened_withLock w inode.sector newLength true⟩
  · have none : k = 0 := Nat.eq_zero_of_not_pos more
    subst none
    rw [if_neg more]
    apply (finish_returns named same onDisk).yields
    exact ⟨rfl, [], v.withLock false, grown_nothing (blockNamed rfl), rfl⟩

theorem lastDisk_head (sectors : Word → Sector) (head : Word) (rest : List Word) :
    lastDisk sectors (sectors head).inodeDisk rest = (sectors (rest.getLastD head)).inodeDisk := by
  have last : lastDisk sectors (sectors head).inodeDisk (rest ++ []) = _ := lastDisk_append sectors head []
  rwa [append_nil] at last

theorem Chain.named_last (chain : Chain sectors (sectors head).inodeDisk rest data)
    (named : (sectors head).inodeDisk.sector = head) :
    (sectors (rest.getLastD head)).inodeDisk.sector = rest.getLastD head := by
  induction rest generalizing head data with
  | nil => exact named
  | cons next rest ih =>
    obtain ⟨later, -, -, -, nextNamed, follows⟩ := chain
    rw [getLastD_cons]
    exact ih follows nextNamed

/-- The blocks of a file: each names itself, is in use, and is not the sector of the free map. -/
structure Blocks (v : View) (head : Word) (rest data : List Word) : Prop where
  chain : Chain v.sectors (v.sectors head).inodeDisk rest data
  named : (v.sectors head).inodeDisk.sector = head
  nonzero : 0 ∉ rest
  used : ∀ s ∈ head :: rest, Used v.tables.freeMap s

theorem usedSlots_mod (chain : Chain sectors disk rest data) (notFull : data ≠ [] → ¬ 123 ∣ data.length) :
    usedSlots rest data = data.length % 123 := by
  have count := chain.length_rest
  rw [usedSlots, count]
  by_cases empty : data = []
  · rw [empty]
    rfl
  · have partly := notFull empty
    have positive := length_pos_iff.mpr empty
    omega

theorem usedSlots_full (chain : Chain sectors disk rest data) (some : data ≠ []) (full : 123 ∣ data.length) :
    usedSlots rest data = 123 := by
  have count := chain.length_rest
  have positive := length_pos_iff.mpr some
  rw [usedSlots, count]
  omega

/-- Where the last block of a file is full, the extension links it to a new one and goes on there. -/
def linkBlock (memory : List Activation) (inode : Inode) (newLength : Nat) (last : InodeDisk) : FsM Bool := do
  match ← freeMapAllocate 1 with
  | none => return false
  | some next =>
    writeInodeDisk last.sector { last with indirect := next }
    extendFromIn memory inode newLength 0 next

/-- An extension starts: the lock is free, and the inode in memory is the one on the disk. -/
structure Extending (v : View) (inode : Inode) (newLength : Nat) (rest data : List Word) : Prop where
  free : v.tables.inodeSysLock = false
  size : v.tables.freeMap.length = v.tables.capacity
  blocks : Blocks v inode.sector rest data
  fresh : inode.data = (v.sectors inode.sector).inodeDisk
  count : data.length = bytesToSectors inode.data.length.toNat
  small : newLength + 512 < 2 ^ 31

/-- The search for the last block, from which the extension goes on. -/
theorem extendInodeIn_searches {memory : List Activation} {post : Bool → View → Prop}
    (start : Extending v inode newLength rest data)
    (unset : data ≠ [] → 123 ∣ data.length → (v.sectors (rest.getLastD inode.sector)).inodeDisk.indirect = 0)
    (links : data ≠ [] → 123 ∣ data.length → Yields safe
      (linkBlock memory inode newLength (v.sectors (rest.getLastD inode.sector)).inodeDisk) (v.withLock true) post)
    (fills : (data ≠ [] → ¬ 123 ∣ data.length) → Yields safe (extendFromIn memory inode newLength
      (Fin.ofNat 123 data.length) (rest.getLastD inode.sector)) (v.withLock true) post) :
    Yields safe (extendInodeIn memory inode newLength) v post := by
  obtain ⟨free, size, blocks, fresh, count, small⟩ := start
  have same : inode.data.sector = inode.sector := by rw [fresh, blocks.named]
  have onDisk : ∀ s ∈ rest, s.toNat < v.tables.capacity := by
    intro s member
    rw [← size]
    exact used_lt (blocks.used s (mem_cons_of_mem _ member))
  have chain := blocks.chain
  rw [← fresh] at chain
  rw [← lastDisk_head, ← fresh] at unset links
  have empty_iff : 0 < inode.data.length.toNat ↔ data ≠ [] := by
    rw [← length_pos_iff, count, bytesToSectors]
    omega
  unfold extendInodeIn
  rw [if_neg (by omega)]
  apply (lockAcquire_returns free).bind
  dsimp only
  rw [← count]
  apply (findPrevious_returns (v := v.withLock true) chain onDisk blocks.nonzero unset).bind
  dsimp only [View.withLock]
  rw [same]
  by_cases full : data ≠ [] ∧ 123 ∣ data.length
  · have slot : Fin.ofNat 123 data.length = 0 := Fin.ext (Nat.mod_eq_zero_of_dvd full.2)
    rw [if_pos ⟨slot, empty_iff.mpr full.1⟩, slot]
    exact links full.1 full.2
  · have notFull : data ≠ [] → ¬ 123 ∣ data.length := fun some divides => full ⟨some, divides⟩
    have noBlock : ¬ (Fin.ofNat 123 data.length = 0 ∧ 0 < inode.data.length.toNat) := by
      intro ⟨zero, nonempty⟩
      apply notFull (empty_iff.mp nonempty)
      exact Nat.dvd_of_mod_eq_zero (congrArg Fin.val zero)
    rw [if_neg noBlock]
    exact fills notFull

/-- A full last block is linked to a new one, which is then filled. -/
theorem extendFull_yields (free : v.tables.inodeSysLock = false)
    (adds : bytesToSectors newLength - bytesToSectors inode.data.length.toNat = k) (positive : 0 < k)
    (map : MapReady safe v mapRest mapData) (inUse : Used v.tables.freeMap b) (notData : b ∉ mapData)
    (extendable : Extendable safe v mapRest mapData b 123) (blockNamed : (v.sectors b).inodeDisk.sector = b)
    (enough : growthSectors 123 k ≤ (freeSectors v.tables.freeMap).length)
    (named : (v.sectors inode.sector).inodeDisk.sector = inode.sector) (same : inode.data.sector = inode.sector)
    (headUsed : Used v.tables.freeMap inode.sector) (headNotData : inode.sector ∉ mapData) :
    Yields safe (linkBlock [] inode newLength (v.sectors b).inodeDisk) (v.withLock true) fun done x => done = true ∧
      ∃ taken w, Grown mapData v w b 123 k taken ∧ x = w.lengthened inode.sector newLength := by
  have bounded := map.boundedMap
  have more : 123 - 123 < k := by omega
  rw [growthSectors_more more] at enough
  rcases nextFree : freeSectors v.tables.freeMap with _ | ⟨next, left⟩
  · rw [nextFree, length_nil] at enough
    omega
  have member : next ∈ freeSectors v.tables.freeMap := nextFree ▸ mem_cons_self
  obtain ⟨nextNotBlock, nextNotData⟩ := map.not_free member
  have nextOnDisk : next.toNat < v.tables.capacity := map.size ▸ free_lt bounded member
  apply (freeMapAllocate_yields (map.withLock true) nextFree).bind
  intro sector x allocated
  obtain ⟨rfl, taking, freeAfter⟩ := allocated
  have mapAfter := (map.withLock true).takes taking fun _ _ => not_mem_nil
  have capacity : x.tables.capacity = v.tables.capacity := by rw [taking.tables]; rfl
  have onDisk : b.toNat < x.tables.capacity := by
    rw [capacity, ← map.size]
    exact used_lt inUse
  dsimp only
  generalize linked : ({ (v.sectors b).inodeDisk with indirect := next } : InodeDisk) = filled
  have sector : filled.sector = b := by rw [← linked]; exact blockNamed
  have indirect : filled.indirect = next := by rw [← linked]
  have slots : filled.direct = (v.sectors b).inodeDisk.direct := by rw [← linked]
  rw [blockNamed]
  apply (writeInodeDisk_returns onDisk filled).bind
  have ready := extendable x filled mapAfter (taking.frame b notData not_mem_nil) sector (by rw [slots])
    (fun _ => by rw [indirect, capacity]; exact nextOnDisk)
  have both : Takes mapData _ _ ([] ++ [next]) ([] ++ [b]) :=
    (taking.trans map.distinct (Takes.write notData (.ofInodeDisk filled))).withLock false
  rw [View.withLock_withLock, View.withLock_self free] at both
  have usedAfter := fun {s : Word} => both.used_iff bounded (s := s)
  have written : update x.sectors b (.ofInodeDisk filled) b = .ofInodeDisk filled := update_self _ _ _
  have headNamed : (update x.sectors b (.ofInodeDisk filled) inode.sector).inodeDisk.sector = inode.sector := by
    by_cases last : inode.sector = b
    · rw [last, written, inodeDisk_ofInodeDisk, sector]
    · rw [update_of_ne last, taking.frame _ headNotData not_mem_nil]
      exact named
  have room : growthSectors (0 : Fin 123).val k ≤ (freeSectors x.tables.freeMap).length := by
    rw [nextFree, length_cons, Nat.sub_self, Nat.sub_zero] at enough
    rw [freeAfter, Fin.val_zero]
    omega
  apply (extendFrom_yields (v := x.withSectors _) adds ready (usedAfter.mpr (.inl mem_cons_self)) nextNotData
    (extendable_of_notMem nextNotBlock nextNotData _) room (fun none => absurd none (Nat.ne_of_gt positive)) headNamed
    same (usedAfter.mpr (.inr headUsed)) headNotData).mono
  intro done y grown
  obtain ⟨rfl, later, w, grown, ended⟩ := grown
  have all : filled.direct.toList = (v.sectors b).inodeDisk.direct.toList.take 123 ++ [] := by
    rw [slots, append_nil, take_of_length_le (Nat.le_of_eq (InodeDisk.length_direct _))]
  obtain ⟨result, -⟩ := grown_more map both written notData inUse more rfl sector indirect all
    (fun _ none => nomatch none) grown
  exact ⟨rfl, next :: later, w, result, ended⟩

/-- The file gets the sectors that the new length needs, and the length.  If all slots of its last block are in
    use, the extension must add a sector, and `indirect` must be unset. -/
theorem extendInode_yields (start : Extending v inode newLength rest data) (map : MapReady safe v mapRest mapData)
    (notData : ∀ s ∈ inode.sector :: rest, s ∉ mapData)
    (extendable : Extendable safe v mapRest mapData (rest.getLastD inode.sector) (usedSlots rest data))
    (unset : data ≠ [] → 123 ∣ data.length →
      (lastDisk v.sectors inode.data rest).indirect = 0 ∧ data.length < bytesToSectors newLength)
    (enough : growthSectors (usedSlots rest data) (bytesToSectors newLength - data.length) ≤
      (freeSectors v.tables.freeMap).length) :
    Yields safe (extendInode inode newLength) v fun done x => done = true ∧ ∃ taken w,
      Grown mapData v w (rest.getLastD inode.sector) (usedSlots rest data)
        (bytesToSectors newLength - data.length) taken ∧ x = w.lengthened inode.sector newLength := by
  obtain ⟨free, -, blocks, fresh, count, -⟩ := id start
  have last : rest.getLastD inode.sector ∈ inode.sector :: rest := getLastD_mem_cons
  have lastNamed := blocks.chain.named_last blocks.named
  have same : inode.data.sector = inode.sector := by rw [fresh, blocks.named]
  have adds : bytesToSectors newLength - bytesToSectors inode.data.length.toNat =
      bytesToSectors newLength - data.length := by rw [count]
  rw [fresh, lastDisk_head] at unset
  refine @extendInodeIn_searches safe v rest data inode newLength [] _ start
    (fun some full => (unset some full).1) ?_ ?_
  · intro some full
    have positive : 0 < bytesToSectors newLength - data.length := Nat.sub_pos_of_lt (unset some full).2
    rw [usedSlots_full blocks.chain some full] at extendable enough ⊢
    exact extendFull_yields free adds positive map (blocks.used _ last) (notData _ last) extendable lastNamed enough
      blocks.named same (blocks.used _ mem_cons_self) (notData _ mem_cons_self)
  · intro notFull
    have slot : (Fin.ofNat 123 data.length).val = usedSlots rest data := (usedSlots_mod blocks.chain notFull).symm
    rw [← slot] at extendable enough ⊢
    apply (extendFrom_yields (v := v.withLock true) adds (map.withLock true) (blocks.used _ last) (notData _ last)
      extendable enough (fun _ => lastNamed) blocks.named same (blocks.used _ mem_cons_self)
      (notData _ mem_cons_self)).mono
    intro done x grown
    rwa [View.withLock_withLock, View.withLock_self free] at grown

end Pintos.Filesys
