import Pintos.Filesys.FreeMap

/-! # Adding sectors to a file

`allocate_inode_disk` fills the slots of one block, takes a sector for the next block when there is more to
allocate, and goes on there.  So of the sectors it takes, in the order it takes them, the first fill up the
block it starts from and every 124th after that is a block: `carve` divides them up.
-/

namespace Pintos.Filesys

open Library Function List Nat

/-- The sectors needed to add `k` data sectors where the last block has `used` slots in use. -/
def growthSectors (used k : Nat) : Nat :=
  k + (k - (123 - used) + 122) / 123

/-- Which of the sectors taken become blocks, and which hold data. -/
def carve (used k : Nat) (taken : List Word) : List Word × List Word :=
  if k ≤ 123 - used then ([], taken.take k)
  else
    match taken.drop (123 - used) with
    | [] => ([], [])
    | next :: more =>
      (next :: (carve 0 (k - (123 - used)) more).1, taken.take (123 - used) ++ (carve 0 (k - (123 - used)) more).2)
termination_by (k, used)
decreasing_by all_goals (simp only [Prod.lex_def]; omega)

variable {used k : Nat} {filling later : List Word}

theorem growthSectors_fits (fits : k ≤ 123 - used) : growthSectors used k = k := by
  unfold growthSectors
  omega

theorem growthSectors_more (more : 123 - used < k) :
    growthSectors used k = (123 - used) + (1 + growthSectors 0 (k - (123 - used))) := by
  unfold growthSectors
  omega

theorem carve_fits (fits : k ≤ 123 - used) (taken : List Word) : carve used k taken = ([], taken.take k) := by
  rw [carve, if_pos fits]

theorem carve_more (more : 123 - used < k) (next : Word) (fills : filling.length = 123 - used) :
    carve used k (filling ++ next :: later) =
      (next :: (carve 0 (k - (123 - used)) later).1, filling ++ (carve 0 (k - (123 - used)) later).2) := by
  rw [carve, if_neg (not_le.mpr more), drop_left' fills, take_left' fills]

variable {taken : List Word}

theorem carve_spec (count : taken.length = growthSectors used k) :
    (carve used k taken).2.length = k ∧ ((carve used k taken).1 ++ (carve used k taken).2).Perm taken := by
  fun_induction carve used k taken with
  | case1 used k taken fits =>
    rw [growthSectors_fits fits] at count
    rw [take_of_length_le (le_of_eq count)]
    exact ⟨count, List.Perm.refl _⟩
  | case2 used k taken more none =>
    rw [growthSectors_more (not_le.mp more)] at count
    have short := drop_eq_nil_iff.mp none
    omega
  | case3 used k taken more next later found ih =>
    rw [growthSectors_more (not_le.mp more)] at count
    have cut := congrArg length found
    rw [length_drop, length_cons] at cut
    obtain ⟨size, perm⟩ := ih (by omega)
    have parts : taken = taken.take (123 - used) ++ next :: later := by rw [← found, take_append_drop]
    constructor
    · rw [length_append, length_take, size]
      omega
    · have later := (perm.cons next).append_left (taken.take (123 - used))
      rw [← parts] at later
      -- A block is taken after the sectors that fill the block before it.
      exact (((perm_append_comm_assoc _ _ _).cons next).trans perm_middle.symm).trans later

/-! ## The loop over the slots of one block -/

variable {safe : Prop} {v : View} {rest data : List Word}

variable {s : Word}

theorem MapReady.not_free (map : MapReady safe v rest data) (free : s ∈ freeSectors v.tables.freeMap) :
    s ∉ rest ∧ s ∉ data := by
  have unused := not_used_of_free (map.size ▸ map.bounded) free
  exact ⟨fun member => unused (map.used s (.inl member)), fun member => unused (map.used s (.inr member))⟩

variable {i : Nat}

theorem slot_setIfInBounds (disk : InodeDisk) (inBlock : i < 123) (s : Word) :
    ({ disk with direct := disk.direct.setIfInBounds i s } : InodeDisk).slot i = s := by
  simp [InodeDisk.slot, inBlock]

theorem take_setIfInBounds (disk : InodeDisk) (inBlock : i < 123) (s : Word) :
    (disk.direct.setIfInBounds i s).toList.take (i + 1) = disk.direct.toList.take i ++ [s] := by
  have inside : i < disk.direct.toList.length := by simpa using inBlock
  rw [Vector.toList_setIfInBounds, take_set, take_succ_eq_append_getElem inside]
  simp [inBlock, le_of_lt]

theorem allocateDirect_yields {count : Nat} {disk : InodeDisk} (map : MapReady safe v rest data)
    (inBlock : i + count ≤ 123) (enough : count ≤ (freeSectors v.tables.freeMap).length) :
    Yields safe (allocateDirect i disk count) v fun filled w => ∃ taken, taken.length = count ∧
      filled = { disk with direct := filled.direct } ∧
      filled.direct.toList.take (i + count) = disk.direct.toList.take i ++ taken ∧
      Takes data v w taken taken ∧ ∀ s ∈ taken, w.sectors s = .zeros := by
  induction count generalizing i disk v with
  | zero => exact Yields.pure ⟨[], rfl, rfl, by simp, .refl data v, fun _ member => nomatch member⟩
  | succ count ih =>
    rcases free : freeSectors v.tables.freeMap with _ | ⟨s, left⟩
    · simp [free] at enough
    have member : s ∈ freeSectors v.tables.freeMap := free ▸ mem_cons_self
    have bounded := map.boundedMap
    have onDisk : s.toNat < v.tables.capacity := map.size ▸ free_lt bounded member
    obtain ⟨notBlock, notData⟩ := map.not_free member
    rw [allocateDirect]
    apply (freeMapAllocate_yields map free).bind
    intro sector marked allocated
    obtain ⟨rfl, taking, freeAfter⟩ := allocated
    dsimp only
    rw [slot_setIfInBounds disk (by omega)]
    have capacity : marked.tables.capacity = v.tables.capacity := by rw [taking.tables]
    apply (writeZeros_returns (v := marked) (capacity ▸ onDisk)).bind
    have both : Takes data v (marked.withSectors (update marked.sectors s .zeros)) [s] [s] :=
      taking.trans map.distinct (Takes.write notData .zeros)
    have mapAfter := map.takes both fun t block same => notBlock (mem_singleton.mp same ▸ block)
    have zeroed : (marked.withSectors (update marked.sectors s .zeros)).sectors s = .zeros :=
      update_self _ _ _
    have others : s ∉ left := by
      have distinct := nodup_freeSectors bounded
      rw [free, nodup_cons] at distinct
      exact distinct.1
    rw [free, length_cons, ← freeAfter] at enough
    apply (ih mapAfter (by omega) (le_of_succ_le_succ enough)).mono
    intro filled x grown
    obtain ⟨taken, size, sameFields, slots, takes, zeros⟩ := grown
    have later : s ∉ taken := fun again => others (freeAfter ▸ takes.mem_free again)
    refine ⟨s :: taken, by rw [length_cons, size], sameFields, ?_, both.trans map.distinct takes, ?_⟩
    · rw [← add_assoc, add_right_comm, slots, take_setIfInBounds disk (by omega), append_assoc, singleton_append]
    · intro t member
      cases mem_cons.mp member with
      | inl same => rw [same, takes.frame s notData later, zeroed]
      | inr member => exact zeros t member

/-! ## `allocate_inode_disk` -/

theorem memory_available {activation : Activation} : ¬ ([] : List Activation).head? = some activation :=
  nofun

/-- The block at `b` may be written anew, with the slots in use as they are and, if it is full, with a next block,
    without making the free map file unreadable.  Only the last block of that file itself could be in question. -/
def Extendable (safe : Prop) (v : View) (rest data : List Word) (b : Word) (used : Nat) : Prop :=
  ∀ x disk, MapReady safe x rest data → x.sectors b = v.sectors b → disk.sector = b →
    disk.direct.toList.take used = (v.sectors b).inodeDisk.direct.toList.take used →
    (used = 123 → disk.indirect.toNat < x.tables.capacity) →
      MapReady safe (x.withSectors (update x.sectors b (.ofInodeDisk disk))) rest data

variable {b : Word}

/-- A write to a sector that is not part of the free map file's later blocks leaves the file writable. -/
theorem extendable_of_notMem (notBlock : b ∉ rest) (notData : b ∉ data) (used : Nat) :
    Extendable safe v rest data b used := by
  intro _ _ map _ _ _ _
  apply map.takes (Takes.write notData _)
  intro t member same
  exact notBlock (mem_singleton.mp same ▸ member)

/-- What `allocate_inode_disk` does to the block at `b`, with `used` slots in use, and to the sectors it takes. -/
structure Grown (mapData : List Word) (v w : View) (b : Word) (used k : Nat) (taken : List Word) : Prop where
  count : taken.length = growthSectors used k
  takes : Takes mapData v w taken (b :: taken)
  chain : Chain w.sectors (w.sectors b).inodeDisk (carve used k taken).1
    ((v.sectors b).inodeDisk.direct.toList.take used ++ (carve used k taken).2)
  sector : (w.sectors b).inodeDisk.sector = b
  zeroed : ∀ s ∈ (carve used k taken).2, w.sectors s = .zeros
  -- the last block keeps the `indirect` its sector held before
  spare : (lastDisk w.sectors (w.sectors b).inodeDisk (carve used k taken).1).indirect =
    (v.sectors ((carve used k taken).1.getLastD b)).inodeDisk.indirect

variable {w : View}

theorem Grown.free_kept {mapData : List Word} (grown : Grown mapData v w b used k taken)
    (bounded : v.tables.freeMap.length ≤ 2 ^ 28) (mapUsed : ∀ s ∈ mapData, Used v.tables.freeMap s)
    (inUse : Used v.tables.freeMap b) (free : s ∈ freeSectors w.tables.freeMap) : w.sectors s = v.sectors s := by
  apply grown.takes.free_kept bounded mapUsed _ free
  intro t touched
  cases mem_cons.mp touched with
  | inl same => exact .inr (same ▸ inUse)
  | inr new => exact .inl new

theorem MapReady.withLock (map : MapReady safe v rest data) (held : Bool) : MapReady safe (v.withLock held) rest data :=
  { map with file := map.file.congr (fun _ _ => rfl) rfl rfl rfl rfl }

variable {filled : InodeDisk}

/-- Everything goes into the block it starts from. -/
theorem grown_fits (takes : Takes data v w taken taken) (notData : b ∉ data) (distinct : data.Nodup)
    (notTaken : b ∉ taken) (fits : k ≤ 123 - used) (size : taken.length = k) (sector : filled.sector = b)
    (slots : filled.direct.toList.take (used + k) = (v.sectors b).inodeDisk.direct.toList.take used ++ taken)
    (indirect : filled.indirect = (v.sectors b).inodeDisk.indirect) (zeros : ∀ s ∈ taken, w.sectors s = .zeros) :
    Grown data v (w.withSectors (update w.sectors b (.ofInodeDisk filled))) b used k taken := by
  have written : (w.withSectors (update w.sectors b (.ofInodeDisk filled))).sectors b = .ofInodeDisk filled :=
    update_self _ _ _
  have all : taken.take k = taken := take_of_length_le (le_of_eq size)
  have wrote := takes.trans distinct (Takes.write notData (.ofInodeDisk filled))
  rw [append_nil] at wrote
  constructor
  case count => rw [growthSectors_fits fits, size]
  case takes =>
    apply wrote.widen
    intro t member
    cases mem_append.mp member with
    | inl member => exact mem_cons_of_mem _ member
    | inr same => exact mem_singleton.mp same ▸ mem_cons_self
  case chain =>
    rw [carve_fits fits, all, written, inodeDisk_ofInodeDisk, ← slots]
    exact List.take_prefix _ _
  case sector => rw [written, inodeDisk_ofInodeDisk, sector]
  case zeroed =>
    rw [carve_fits fits, all]
    intro s member
    have other : s ≠ b := fun same => notTaken (same ▸ member)
    exact (update_of_ne other _ _).trans (zeros s member)
  case spare =>
    rw [carve_fits fits, written, inodeDisk_ofInodeDisk]
    exact indirect

theorem Takes.nodup {touched : List Word} (takes : Takes data v w taken touched)
    (bounded : v.tables.freeMap.length ≤ 2 ^ 28) : taken.Nodup := by
  have distinct := nodup_freeSectors bounded
  rw [← takes.free] at distinct
  exact distinct.of_append_left

/-- The block it starts from is filled and the rest goes into blocks of its own. -/
theorem grown_more {y : View} {next : Word} (map : MapReady safe v rest data)
    (takes : Takes data v w (filling ++ [next]) (filling ++ [b])) (block : w.sectors b = .ofInodeDisk filled)
    (notData : b ∉ data) (inUse : Used v.tables.freeMap b) (more : 123 - used < k) (size : filling.length = 123 - used)
    (sector : filled.sector = b) (linked : filled.indirect = next)
    (slots : filled.direct.toList = (v.sectors b).inodeDisk.direct.toList.take used ++ filling)
    (zeros : ∀ s ∈ filling, w.sectors s = .zeros) (grown : Grown data w y next 0 (k - (123 - used)) later) :
    Grown data v y b used k (filling ++ next :: later) ∧ y.sectors b = .ofInodeDisk filled := by
  have bounded := map.boundedMap
  have both := takes.trans map.distinct grown.takes
  rw [append_assoc, singleton_append] at both
  have apart := both.nodup bounded
  have notTaken : ∀ s ∈ filling ++ next :: later, s ≠ b ∧ s ∉ data := by
    intro s member
    have free := both.mem_free member
    exact ⟨fun same => not_used_of_free bounded free (same ▸ inUse), (map.not_free free).2⟩
  have kept : y.sectors b = .ofInodeDisk filled := by
    rw [grown.takes.frame b notData fun member => (notTaken b (mem_append_right _ member)).1 rfl, block]
  obtain ⟨count, perm⟩ := carve_spec grown.count
  refine ⟨?_, kept⟩
  constructor
  case count => rw [growthSectors_more more, length_append, length_cons, size, grown.count, add_comm 1]
  case takes =>
    apply both.widen
    intro t member
    simp only [mem_append, mem_cons, not_mem_nil, or_false] at member ⊢
    tauto
  case chain =>
    rw [carve_more more next size, kept, inodeDisk_ofInodeDisk, ← append_assoc, ← slots]
    refine ⟨_, ?_, rfl, linked, grown.sector, by simpa using grown.chain⟩
    apply ne_nil_of_length_pos
    omega
  case sector => rw [kept, inodeDisk_ofInodeDisk, sector]
  case zeroed =>
    rw [carve_more more next size]
    intro s member
    cases mem_append.mp member with
    | inl filled =>
      have other : s ∉ next :: later := fun again => disjoint_of_nodup_append apart filled again
      rw [grown.takes.frame s (notTaken s (mem_append_left _ filled)).2 other, zeros s filled]
    | inr later => exact grown.zeroed s later
  case spare =>
    rw [carve_more more next size, getLastD_cons, lastDisk, grown.spare]
    have last : (carve 0 (k - (123 - used)) later).1.getLastD next ∈ next :: later := by
      have member : (carve 0 (k - (123 - used)) later).1.getLastD next ∈ next :: _ := getLastD_mem_cons
      cases mem_cons.mp member with
      | inl same => exact mem_cons.mpr (.inl same)
      | inr block => exact mem_cons_of_mem _ (perm.subset (mem_append_left _ block))
    obtain ⟨notBlock, notMap⟩ := notTaken _ (mem_append_right _ last)
    rw [takes.frame _ notMap]
    intro member
    cases mem_append.mp member with
    | inl filled => exact disjoint_of_nodup_append apart filled last
    | inr same => exact notBlock (mem_singleton.mp same)

theorem Grown.withLock (grown : Grown data v w b used k taken) (held : Bool) :
    Grown data (v.withLock held) (w.withLock held) b used k taken :=
  { grown with takes := grown.takes.withLock held }

/-- The slots that were in use are kept. -/
theorem take_used {old : InodeDisk} (inBlock : used ≤ 123)
    (slots : filled.direct.toList.take (used + k) = old.direct.toList.take used ++ taken) :
    filled.direct.toList.take used = old.direct.toList.take used := by
  have shorter := congrArg (take used) slots
  have size : (old.direct.toList.take used).length = used := by
    rw [length_take, old.length_direct]
    omega
  rwa [take_take, min_eq_left (le_add_right used k), take_left' size] at shorter

theorem allocateInodeDisk_yields {origin : Word} {length : Nat} {startDirectIdx : Fin 123} {info : Word}
    (free : v.tables.inodeSysLock = false) (map : MapReady safe v rest data) (inUse : Used v.tables.freeMap b)
    (notData : b ∉ data) (extendable : Extendable safe v rest data b startDirectIdx)
    (enough : growthSectors startDirectIdx k ≤ (freeSectors v.tables.freeMap).length) :
    Yields safe (allocateInodeDiskIn [] k b length startDirectIdx info origin) v fun done w => done = true ∧
      MapReady safe w rest data ∧ (w.sectors b).inodeDisk.length = BitVec.ofNat 32 length ∧
      (w.sectors b).inodeDisk.info = info ∧ ∃ taken, Grown data v w b startDirectIdx k taken := by
  induction k using Nat.strongRecOn generalizing v b startDirectIdx with
  | ind k ih =>
    have onDisk : b.toNat < v.tables.capacity := map.size ▸ used_lt inUse
    have bounded := map.boundedMap
    have inBlock := startDirectIdx.isLt
    rw [allocateInodeDiskIn, if_neg memory_available, if_neg memory_available]
    apply (lockAcquire_returns free).bind
    apply (readInodeDisk_returns (v := v.withLock true) onDisk).bind
    by_cases more : k + startDirectIdx.val > 123
    · have fills : startDirectIdx.val + (123 - startDirectIdx.val) = 123 := by omega
      rw [growthSectors_more (by omega)] at enough
      simp only [if_pos more]
      apply (allocateDirect_yields (map.withLock true) (le_of_eq fills) (by exact le_trans (by omega) enough)).bind
      intro filled w grown
      obtain ⟨filling, size, sameFields, slots, takes, zeros⟩ := grown
      have notTaken : b ∉ filling := fun member => not_used_of_free bounded (takes.mem_free member) inUse
      have mapFilled := (map.withLock true).takes takes fun t block member =>
          ((map.withLock true).not_free (takes.mem_free member)).1 block
      have left : (freeSectors w.tables.freeMap).length = (freeSectors v.tables.freeMap).length - filling.length := by
        have all := congrArg List.length takes.free
        rw [List.length_append] at all
        change _ = (freeSectors v.tables.freeMap).length at all
        omega
      rcases nextFree : freeSectors w.tables.freeMap with _ | ⟨next, others⟩
      · rw [nextFree, length_nil] at left
        omega
      apply (freeMapAllocate_yields mapFilled nextFree).bind
      intro sector x allocated
      obtain ⟨rfl, taking, freeAfter⟩ := allocated
      have capacity : x.tables.capacity = v.tables.capacity := by rw [taking.tables, takes.tables]; rfl
      apply (writeInodeDisk_returns (v := x) (capacity ▸ onDisk) { filled with indirect := next }).bind
      apply lockRelease_returns.bind
      have both := takes.trans map.distinct taking
      rw [append_nil] at both
      have sectorSet : filled.sector = b := congrArg InodeDisk.sector sameFields
      have allSlots : filled.direct.toList = (v.sectors b).inodeDisk.direct.toList.take startDirectIdx ++ filling := by
        rw [fills, take_of_length_le (le_of_eq filled.length_direct)] at slots
        exact slots
      have kept := extendable x { filled with indirect := next } (mapFilled.takes taking fun _ _ => not_mem_nil)
        ((taking.frame b notData not_mem_nil).trans (takes.frame b notData notTaken)) sectorSet
        (take_used (by omega) slots) (fun full => by omega)
      have wrote := (both.trans map.distinct
        (Takes.write notData (.ofInodeDisk { filled with indirect := next }))).withLock false
      rw [append_nil, View.withLock_withLock, View.withLock_self free] at wrote
      have zerosAfter : ∀ s ∈ filling, update x.sectors b
          (Sector.ofInodeDisk { filled with indirect := next }) s = .zeros := by
        intro s member
        have other : s ≠ b := fun same => notTaken (same ▸ member)
        have notMap := ((map.withLock true).not_free (takes.mem_free member)).2
        rw [update_of_ne other, taking.frame s notMap not_mem_nil, zeros s member]
      have block : update x.sectors b (Sector.ofInodeDisk { filled with indirect := next }) b = _ :=
        update_self _ _ _
      obtain ⟨nextNotBlock, nextNotData⟩ := mapFilled.not_free (nextFree ▸ mem_cons_self)
      have room : growthSectors 0 (k - (123 - startDirectIdx)) ≤ (freeSectors x.tables.freeMap).length := by
        rw [nextFree, length_cons] at left
        rw [freeAfter]
        omega
      have nextUsed := (wrote.used_iff bounded).mpr (.inl (mem_append_right filling (mem_singleton_self next)))
      have again := @ih (k - (123 - startDirectIdx)) (by omega) _ next 0 rfl (kept.withLock false)
        nextUsed nextNotData (extendable_of_notMem nextNotBlock nextNotData 0) room
      apply again.mono
      intro done y grown
      obtain ⟨rfl, mapAfter, -, -, later, grown⟩ := grown
      obtain ⟨result, written⟩ :=
        grown_more map wrote block notData inUse (by omega) size sectorSet rfl allSlots zerosAfter grown
      rw [written, inodeDisk_ofInodeDisk]
      exact ⟨rfl, mapAfter, congrArg InodeDisk.length sameFields, congrArg InodeDisk.info sameFields,
        filling ++ next :: later, result⟩
    · have fits : k ≤ 123 - startDirectIdx.val := by omega
      have number : startDirectIdx.val + k - startDirectIdx.val = k := by omega
      rw [growthSectors_fits fits] at enough
      simp only [if_neg more, number]
      apply (allocateDirect_yields (map.withLock true) (by omega) enough).bind
      intro filled w grown
      obtain ⟨taken, size, sameFields, slots, takes, zeros⟩ := grown
      have capacity : w.tables.capacity = v.tables.capacity := by rw [takes.tables]; rfl
      apply (writeInodeDisk_returns (v := w) (capacity ▸ onDisk) filled).bind
      apply lockRelease_returns.bind
      have notTaken : b ∉ taken := fun member => not_used_of_free bounded (takes.mem_free member) inUse
      have sector : filled.sector = b := congrArg InodeDisk.sector sameFields
      have indirect : filled.indirect = (v.sectors b).inodeDisk.indirect := (congrArg InodeDisk.indirect sameFields :)
      have kept := extendable w filled ((map.withLock true).takes takes fun t block member =>
          ((map.withLock true).not_free (takes.mem_free member)).1 block)
        (takes.frame b notData notTaken) sector (take_used (by omega) slots) (fun full => by omega)
      have grown := (grown_fits takes notData map.distinct notTaken fits size sector slots indirect zeros).withLock
        false
      rw [View.withLock_withLock, View.withLock_self free] at grown
      have written : ((w.withSectors (update w.sectors b (.ofInodeDisk filled))).withLock false).sectors b =
        .ofInodeDisk filled := update_self _ _ _
      apply Yields.pure
      rw [written, inodeDisk_ofInodeDisk]
      exact ⟨rfl, kept.withLock false, congrArg InodeDisk.length sameFields,
        congrArg InodeDisk.info sameFields, taken, grown⟩

/-! ## Activations that do not get what they need -/

theorem activations_more {sectors start : Nat} (inBlock : start < 123) (more : sectors + start > 123) :
    activations sectors start = activations (sectors - (123 - start)) 0 + 1 := by
  unfold activations
  omega

theorem activations_one {sectors start : Nat} (fits : ¬ sectors + start > 123) : activations sectors start = 1 := by
  unfold activations
  omega

theorem allRun_nil (count : Nat) : AllRun [] count := by
  simp [AllRun]

theorem allRun_succ {memory : List Activation} {count : Nat} : AllRun memory (count + 1) ↔
    (¬ memory.head? = some .noStack ∧ ¬ memory.head? = some .noBlock) ∧ AllRun memory.tail count := by
  rcases memory with _ | ⟨first, others⟩
  · simp [AllRun]
  · cases first <;> simp [AllRun]

variable {memory : List Activation} {length : Nat} {startDirectIdx : Fin 123} {info origin : Word}

/-- Activations that get what they need do what they do where there is always enough. -/
theorem allocateInodeDiskIn_run (run : AllRun memory (activations k startDirectIdx)) :
    allocateInodeDiskIn memory k b length startDirectIdx info origin =
      allocateInodeDiskIn [] k b length startDirectIdx info origin := by
  induction k using Nat.strongRecOn generalizing memory b startDirectIdx with
  | ind k ih =>
    have inBlock := startDirectIdx.isLt
    unfold allocateInodeDiskIn
    by_cases more : k + startDirectIdx > 123
    · rw [activations_more inBlock more, allRun_succ] at run
      have later : ∀ next, allocateInodeDiskIn memory.tail (k - (123 - startDirectIdx)) next length 0 info origin =
          allocateInodeDiskIn [] (k - (123 - startDirectIdx)) next length 0 info origin :=
        fun next => ih _ (by omega) run.2
      simp only [if_neg run.1.1, if_neg run.1.2, if_neg memory_available, later, tail_nil]
    · rw [activations_one more, allRun_succ] at run
      simp only [if_neg run.1.1, if_neg run.1.2, if_neg memory_available, if_neg more]

/-- `allocate_inode_disk` returns false only where an activation gets no block. -/
theorem allocateInodeDiskIn_result :
    Yields False (allocateInodeDiskIn memory k b length startDirectIdx info origin) v fun done _ =>
      (done = true ↔ AllRun memory (activations k startDirectIdx)) ∧ (done = false → .noBlock ∈ memory) := by
  induction k using Nat.strongRecOn generalizing memory v b startDirectIdx with
  | ind k ih =>
    have inBlock := startDirectIdx.isLt
    rw [allocateInodeDiskIn]
    split_ifs with noStack noBlock more
    · exact fun _ _ => id
    · refine .skip fun _ _ => ?_
      apply Yields.pure
      refine ⟨?_, fun _ => mem_of_head? noBlock⟩
      simp [activations, allRun_succ, noBlock]
    · rw [activations_more inBlock more, allRun_succ]
      refine .skip fun _ _ => ?_
      refine .skip fun old _ => ?_
      refine .skip fun filled _ => ?_
      refine .skip fun sector _ => ?_
      rcases sector with _ | next
      · exact fun _ _ => id
      refine .skip fun _ _ => ?_
      refine .skip fun _ _ => ?_
      apply (ih _ (by omega)).mono
      intro done w returned
      rw [returned.1]
      exact ⟨⟨fun run => ⟨⟨noStack, noBlock⟩, run⟩, And.right⟩, fun failed => mem_of_mem_tail (returned.2 failed)⟩
    · rw [activations_one more, allRun_succ]
      refine .skip fun _ _ => ?_
      refine .skip fun _ _ => ?_
      refine .skip fun _ _ => ?_
      refine .skip fun _ _ => ?_
      refine .skip fun _ _ => ?_
      apply Yields.pure
      simp [AllRun, noStack, noBlock]

theorem inodeCreateIn_run (run : AllRun memory (activations (bytesToSectors length) 0)) :
    inodeCreateIn memory b length info = inodeCreate b length info := by
  have started : AllRun memory (activations (bytesToSectors length) (0 : Fin 123)) := run
  unfold inodeCreate inodeCreateIn
  rw [allocateInodeDiskIn_run started]

theorem inodeCreateIn_returned {fs after : FileSys} {done : Bool}
    (ran : inodeCreateIn memory b length info fs = some (done, after)) : length + 512 < 2 ^ 31 ∧
      (done = true ↔ AllRun memory (activations (bytesToSectors length) 0)) ∧ (done = false → .noBlock ∈ memory) := by
  unfold inodeCreateIn at ran
  split at ran
  · cases ran
  next small => exact ⟨not_le.mp small, allocateInodeDiskIn_result.ended ran⟩

end Pintos.Filesys
