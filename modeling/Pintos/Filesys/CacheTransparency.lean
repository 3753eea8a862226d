import Pintos.Filesys.Cache
import Pintos.Library.Refinement

/-! # The buffer cache refines a plain array of sectors

`logical c s` is what a reader of sector `s` is entitled to see: the data of the allocated slot of `s` if
there is one, else the disk's sector.  `Coherent` is the invariant that makes the stale flags harmless:
two allocated slots never carry one sector, and an allocated slot whose dirty flag is clear holds what the
disk holds.  Nothing is said about the flags of free slots, nor about a slot whose dirty flag is set, and
that is why neither a refill nor a write-back has to clear it.
-/

namespace Pintos.Filesys

open Library Function List

structure Coherent (c : CacheState) : Prop where
  unique : ∀ i j, (c.bufferCache i).allocated = true → (c.bufferCache j).allocated = true →
    (c.bufferCache i).sectorNo = (c.bufferCache j).sectorNo → i = j
  clean : ∀ i, (c.bufferCache i).allocated = true → (c.bufferCache i).dirty = false →
    (c.bufferCache i).data = c.disk (c.bufferCache i).sectorNo

def logical (c : CacheState) (secNo : Word) : Sector :=
  match c.findSlot secNo with
  | some i => (c.bufferCache i).data
  | none => c.disk secNo

def Uncached (c : CacheState) (secNo : Word) : Prop :=
  ∀ i, (c.bufferCache i).allocated = true → (c.bufferCache i).sectorNo ≠ secNo

/-- Which slot holds which sector is the same. -/
def SameMap (c d : CacheState) : Prop :=
  ∀ i, (d.bufferCache i).allocated = (c.bufferCache i).allocated ∧
    (d.bufferCache i).sectorNo = (c.bufferCache i).sectorNo

/-! ## Reading the logical content off a state -/

variable {c d : CacheState} {secNo : Word} {i : Fin 64}

theorem SameMap.uncached (same : SameMap c d) (uncached : Uncached c secNo) : Uncached d secNo := by
  intro i allocated
  rw [(same i).2]
  exact uncached i ((same i).1 ▸ allocated)

theorem findSlot_some (found : c.findSlot secNo = some i) :
    (c.bufferCache i).allocated = true ∧ (c.bufferCache i).sectorNo = secNo := by
  have matched := find?_some found
  simp only [Bool.and_eq_true, beq_iff_eq] at matched
  exact ⟨matched.2, matched.1⟩

theorem findSlot_none (missing : c.findSlot secNo = none) : Uncached c secNo := by
  intro i allocated same
  have rejected := find?_eq_none.mp missing i (mem_finRange i)
  simp [allocated, same] at rejected

theorem Coherent.logical_slot (coherent : Coherent c) (allocated : (c.bufferCache i).allocated = true) :
    logical c (c.bufferCache i).sectorNo = (c.bufferCache i).data := by
  unfold logical
  cases found : c.findSlot (c.bufferCache i).sectorNo with
  | none => exact absurd rfl (findSlot_none found i allocated)
  | some j =>
    obtain ⟨allocatedJ, sameSector⟩ := findSlot_some found
    rw [coherent.unique j i allocatedJ allocated sameSector]

theorem logical_uncached (uncached : Uncached c secNo) : logical c secNo = c.disk secNo := by
  unfold logical
  cases found : c.findSlot secNo with
  | none => rfl
  | some i => exact absurd (findSlot_some found).2 (uncached i (findSlot_some found).1)

/-- Two coherent states in which the slot of every cached sector is the same, and whose disks agree on the
    uncached ones, have the same logical content. -/
theorem logical_congr (coherent : Coherent c) (coherent' : Coherent d) (slots : SameMap c d)
    (data : ∀ i, (d.bufferCache i).data = (c.bufferCache i).data)
    (disks : ∀ secNo, Uncached c secNo → d.disk secNo = c.disk secNo) : logical d = logical c := by
  funext secNo
  cases found : c.findSlot secNo with
  | some i =>
    obtain ⟨allocated, rfl⟩ := findSlot_some found
    rw [coherent.logical_slot allocated, ← (slots i).2, coherent'.logical_slot ((slots i).1.trans allocated), data]
  | none =>
    have uncached := findSlot_none found
    rw [logical_uncached uncached, logical_uncached (slots.uncached uncached), disks secNo uncached]

/-! ## The pieces of the operations -/

theorem coherent_init (c : CacheState) : Coherent (bufferCacheInit c) where
  unique i j allocated := by simp [bufferCacheInit] at allocated
  clean i allocated := by simp [bufferCacheInit] at allocated

theorem logical_init (c : CacheState) : logical (bufferCacheInit c) = c.disk := by
  funext secNo
  rw [logical_uncached]
  · rfl
  · intro i allocated
    simp [bufferCacheInit] at allocated

@[simp] theorem setSlot_same (c : CacheState) (i : Fin 64) (slot : FileCache) :
    (c.setSlot i slot).bufferCache i = slot := by
  simp [CacheState.setSlot]

variable {j : Fin 64}

theorem setSlot_other (c : CacheState) (slot : FileCache) (other : j ≠ i) :
    (c.setSlot i slot).bufferCache j = c.bufferCache j := by
  simp [CacheState.setSlot, other]

theorem sameMap_setSlot {slot : FileCache} (allocated : slot.allocated = (c.bufferCache i).allocated)
    (sector : slot.sectorNo = (c.bufferCache i).sectorNo) : SameMap c (c.setSlot i slot) := by
  intro j
  by_cases same : j = i
  · subst same
    rw [setSlot_same]
    exact ⟨allocated, sector⟩
  · rw [setSlot_other c _ same]
    exact ⟨rfl, rfl⟩

@[simp] theorem setSlot_disk (c : CacheState) (i : Fin 64) (slot : FileCache) :
    (c.setSlot i slot).disk = c.disk := rfl

@[simp] theorem diskWrite_slots (c : CacheState) (secNo : Word) (data : Sector) :
    (c.diskWrite secNo data).bufferCache = c.bufferCache := rfl

@[simp] theorem diskWrite_disk (c : CacheState) (secNo : Word) (data : Sector) :
    (c.diskWrite secNo data).disk = update c.disk secNo data := rfl

theorem evict_same (c : CacheState) (i : Fin 64) :
    (c.evict i).bufferCache i = { c.bufferCache i with allocated := false } := by
  simp [CacheState.evict]

theorem evict_other (c : CacheState) (other : j ≠ i) : (c.evict i).bufferCache j = c.bufferCache j := by
  unfold CacheState.evict
  rw [setSlot_other _ _ other]
  split <;> rfl

theorem evict_disk (c : CacheState) (i : Fin 64) : (c.evict i).disk = if (c.bufferCache i).dirty then
      update c.disk (c.bufferCache i).sectorNo (c.bufferCache i).data else c.disk := by
  unfold CacheState.evict
  rw [setSlot_disk]
  split <;> rfl

/-- Evicting an allocated slot leaves on the disk what the slot held, whichever way the dirty flag stands. -/
theorem Coherent.evict_disk_self (coherent : Coherent c) (allocated : (c.bufferCache i).allocated = true) :
    (c.evict i).disk (c.bufferCache i).sectorNo = (c.bufferCache i).data := by
  rw [evict_disk]
  split
  · simp
  · rename_i notDirty
    exact (coherent.clean i allocated (by simpa using notDirty)).symm

theorem evict_disk_other (c : CacheState) (i : Fin 64) (other : secNo ≠ (c.bufferCache i).sectorNo) :
    (c.evict i).disk secNo = c.disk secNo := by
  rw [evict_disk]
  split
  · exact update_of_ne other _ _
  · rfl

theorem evict_allocated (allocated : ((c.evict i).bufferCache j).allocated = true) :
    j ≠ i ∧ (c.evict i).bufferCache j = c.bufferCache j := by
  have other : j ≠ i := by
    rintro rfl
    simp [evict_same] at allocated
  exact ⟨other, evict_other c other⟩

section

variable (coherent : Coherent c)

include coherent

theorem Coherent.evict
    (allocated : (c.bufferCache i).allocated = true) : Coherent (c.evict i) where
  unique j k allocatedJ allocatedK sameSector := by
    have keepsJ := (evict_allocated allocatedJ).2
    have keepsK := (evict_allocated allocatedK).2
    rw [keepsJ] at allocatedJ sameSector
    rw [keepsK] at allocatedK sameSector
    exact coherent.unique j k allocatedJ allocatedK sameSector
  clean j allocatedJ notDirty := by
    obtain ⟨other, keeps⟩ := evict_allocated allocatedJ
    rw [keeps] at allocatedJ notDirty ⊢
    rw [evict_disk_other]
    · exact coherent.clean j allocatedJ notDirty
    · intro sameSector
      exact other (coherent.unique j i allocatedJ allocated sameSector)

theorem Coherent.logical_evict (allocated : (c.bufferCache i).allocated = true) :
    logical (c.evict i) = logical c := by
  have coherent' := coherent.evict allocated
  funext secNo
  cases found : (c.evict i).findSlot secNo with
  | some j =>
    obtain ⟨allocatedJ, rfl⟩ := findSlot_some found
    have keeps := (evict_allocated allocatedJ).2
    rw [coherent'.logical_slot allocatedJ, keeps, coherent.logical_slot (by rw [← keeps]; exact allocatedJ)]
  | none =>
    rw [logical_uncached (findSlot_none found)]
    by_cases self : secNo = (c.bufferCache i).sectorNo
    · rw [self, coherent.evict_disk_self allocated, coherent.logical_slot allocated]
    · rw [evict_disk_other c i self, logical_uncached]
      intro j allocatedJ sameSector
      by_cases same : j = i
      · exact self (by rw [← sameSector, same])
      · rw [← evict_other c same] at allocatedJ sameSector
        exact findSlot_none found j allocatedJ sameSector

/-- A slot keeps its sector. -/
theorem Coherent.setSlot {slot : FileCache} (slots : SameMap c (c.setSlot i slot))
    (clean : slot.allocated = true → slot.dirty = false → slot.data = c.disk slot.sectorNo) :
    Coherent (c.setSlot i slot) where
  unique j k allocatedJ allocatedK sameSector := by
    rw [(slots j).1] at allocatedJ
    rw [(slots k).1] at allocatedK
    rw [(slots j).2, (slots k).2] at sameSector
    exact coherent.unique j k allocatedJ allocatedK sameSector
  clean j allocatedJ notDirty := by
    by_cases same : j = i
    · subst same
      rw [setSlot_same] at allocatedJ notDirty ⊢
      exact clean allocatedJ notDirty
    · rw [setSlot_other c _ same] at allocatedJ notDirty ⊢
      exact coherent.clean j allocatedJ notDirty

/-- The clock hand clears an accessed flag, which neither the invariant nor the logical content reads. -/
theorem Coherent.clearAccessed (i : Fin 64) :
    Coherent (c.setSlot i { c.bufferCache i with accessed := false }) ∧
      logical (c.setSlot i { c.bufferCache i with accessed := false }) = logical c := by
  have slots : SameMap c (c.setSlot i { c.bufferCache i with accessed := false }) := sameMap_setSlot rfl rfl
  have coherent' := coherent.setSlot slots (coherent.clean i)
  refine ⟨coherent', logical_congr coherent coherent' slots (fun j => ?_) fun _ _ => rfl⟩
  by_cases same : j = i
  · subst same
    simp
  · rw [setSlot_other c _ same]

end

/-- What a search for a slot to refill must deliver. -/
structure Vacates (c : CacheState) (result : Fin 64 × CacheState) : Prop where
  coherent : Coherent result.2
  logical : logical result.2 = logical c
  free : (result.2.bufferCache result.1).allocated = false
  kept : ∀ j, (result.2.bufferCache j).allocated = true →
    (c.bufferCache j).allocated = true ∧ (result.2.bufferCache j).sectorNo = (c.bufferCache j).sectorNo

/-- Other accessed flags, and the hand at another slot. -/
def CacheState.turned (c : CacheState) (flags : Fin 64 → Bool) (hand : Fin 64) : CacheState :=
  { c with bufferCache := fun j => { c.bufferCache j with accessed := flags j }, lookupStartIndex := hand }

/-- The first slot, from `start` on in cyclic order, whose accessed flag is clear, or `start` if all are set. -/
def CacheState.FirstClear (c : CacheState) (start i : Fin 64) : Prop :=
  (∀ j, j - start < i - start → (c.bufferCache j).accessed = true) ∧
    ((c.bufferCache i).accessed = false ∨ i = start ∧ ∀ j, (c.bufferCache j).accessed = true)

theorem CacheState.clockHand_eq (c : CacheState) (start : Fin 64) : ∃ victim flags, c.FirstClear start victim ∧
    c.clockHand start = (victim, (c.turned flags (victim + 1)).evict victim) := by
  fun_induction CacheState.clockHand c start with
  | case1 c start accessed ih =>
    obtain ⟨victim, flags, ⟨passed, stopped⟩, ends⟩ := ih
    have sameTurned : (c.setSlot start { c.bufferCache start with accessed := false }).turned flags =
        c.turned flags := by
      funext hand
      simp only [turned, setSlot, CacheState.mk.injEq, and_true]
      funext j
      by_cases same : j = start
      · subst same
        simp
      · simp [same]
    rw [sameTurned] at ends
    have clear := stopped.resolve_right fun all => by simpa using all.2 start
    -- The other slots between the hand and the victim come after the next slot.
    have between : ∀ j, j ≠ start → j - start < victim - start ∨ victim = start →
        (c.bufferCache j).accessed = true := by
      intro j other before
      have here := passed j (by omega)
      rwa [setSlot_other c _ other] at here
    refine ⟨victim, flags, ⟨fun j before => ?_, ?_⟩, ends⟩
    · by_cases same : j = start
      · exact same ▸ accessed
      · exact between j same (.inl before)
    · by_cases isHand : victim = start
      · refine .inr ⟨isHand, fun j => ?_⟩
        by_cases same : j = start
        · exact same ▸ accessed
        · exact between j same (.inr isHand)
      · rw [setSlot_other c _ isHand] at clear
        exact .inl clear
  | case2 c start notAccessed =>
    refine ⟨start, fun j => (c.bufferCache j).accessed, ⟨fun j before => ?_, .inl ?_⟩, rfl⟩
    · rw [Fin.sub_self] at before
      exact absurd before (Fin.not_lt_zero _)
    · simpa using notAccessed

theorem Coherent.clockHand (coherent : Coherent c) (full : ∀ j, (c.bufferCache j).allocated = true) (i : Fin 64) :
    Vacates c (c.clockHand i) := by
  obtain ⟨victim, flags, _, ends⟩ := c.clockHand_eq i
  rw [ends]
  have turned : Coherent (c.turned flags (victim + 1)) := ⟨coherent.unique, coherent.clean⟩
  have sameLogical := logical_congr coherent turned (fun _ => ⟨rfl, rfl⟩) (fun _ => rfl) fun _ _ => rfl
  refine ⟨turned.evict (full victim), (turned.logical_evict (full victim)).trans sameLogical, ?_,
    fun j allocatedJ => ?_⟩
  · simp [evict_same]
  · rw [(evict_allocated allocatedJ).2]
    exact ⟨full j, rfl⟩

theorem Coherent.findVictim (coherent : Coherent c) : Vacates c (bufferCacheFindVictim c) := by
  unfold bufferCacheFindVictim
  split
  · rename_i i found
    exact ⟨coherent, rfl, by simpa using find?_some found, fun j allocatedJ => ⟨allocatedJ, rfl⟩⟩
  · rename_i missing
    apply coherent.clockHand
    intro j
    simpa using find?_eq_none.mp missing j (mem_finRange j)

/-- The clock hand: a free slot is taken as it is; if there is none, one slot is written out and freed. -/
theorem bufferCacheFindVictim_clock (c : CacheState) : ∃ victim d, bufferCacheFindVictim c = (victim, d) ∧
    (d.bufferCache victim).allocated = false ∧ ((∃ i, (c.bufferCache i).allocated = false) → d = c) ∧
    ((∀ i, (c.bufferCache i).allocated = true) → c.FirstClear c.lookupStartIndex victim ∧
      (∀ j, j ≠ victim → { d.bufferCache j with accessed := (c.bufferCache j).accessed } = c.bufferCache j) ∧
      d.disk = (if (c.bufferCache victim).dirty then
        update c.disk (c.bufferCache victim).sectorNo (c.bufferCache victim).data else c.disk) ∧
      d.lookupStartIndex = victim + 1) := by
  unfold bufferCacheFindVictim
  split
  next i found =>
    have free : (c.bufferCache i).allocated = false := by simpa using find?_some found
    exact ⟨i, c, rfl, free, fun _ => rfl, fun full => by simp [full i] at free⟩
  next missing =>
    have full : ∀ i, (c.bufferCache i).allocated = true := by simpa using missing
    obtain ⟨victim, flags, first, ends⟩ := c.clockHand_eq c.lookupStartIndex
    refine ⟨victim, _, ends, by simp [evict_same], ?_, fun _ => ⟨first, fun j other => ?_, evict_disk _ _, ?_⟩⟩
    · rintro ⟨i, free⟩
      simp [full i] at free
    · rw [evict_other _ other]
      rfl
    · unfold CacheState.evict
      dsimp only [CacheState.setSlot]
      split <;> rfl

/-- Filling a free slot with an uncached sector. -/
theorem Coherent.load (coherent : Coherent c) (secNo : Word) (slot : FileCache)
    (free : (c.bufferCache i).allocated = false)
    (uncached : Uncached c secNo) (allocated : slot.allocated = true) (sector : slot.sectorNo = secNo)
    (data : slot.data = c.disk secNo) :
    Coherent (c.setSlot i slot) ∧ logical (c.setSlot i slot) = logical c := by
  have allocatedOther : ∀ j, (c.bufferCache j).allocated = true → j ≠ i := by
    rintro j allocatedJ rfl
    simp [free] at allocatedJ
  have coherent' : Coherent (c.setSlot i slot) := by
    constructor
    · intro j k allocatedJ allocatedK sameSector
      by_cases sameJ : j = i <;> by_cases sameK : k = i
      · rw [sameJ, sameK]
      · rw [sameJ, setSlot_same, sector, setSlot_other c _ sameK] at sameSector
        rw [setSlot_other c _ sameK] at allocatedK
        exact absurd sameSector.symm (uncached k allocatedK)
      · rw [sameK, setSlot_same, sector, setSlot_other c _ sameJ] at sameSector
        rw [setSlot_other c _ sameJ] at allocatedJ
        exact absurd sameSector (uncached j allocatedJ)
      · rw [setSlot_other c _ sameJ] at allocatedJ sameSector
        rw [setSlot_other c _ sameK] at allocatedK sameSector
        exact coherent.unique j k allocatedJ allocatedK sameSector
    · intro j allocatedJ notDirty
      by_cases same : j = i
      · rw [same, setSlot_same, setSlot_disk, data, sector]
      · rw [setSlot_other c _ same] at allocatedJ notDirty ⊢
        exact coherent.clean j allocatedJ notDirty
  refine ⟨coherent', ?_⟩
  funext other
  by_cases self : other = secNo
  · have slotSector : ((c.setSlot i slot).bufferCache i).sectorNo = other := by rw [setSlot_same, sector, self]
    rw [← slotSector, coherent'.logical_slot (by simpa using allocated), setSlot_same, data, sector,
      logical_uncached uncached]
  · cases found : c.findSlot other with
    | some j =>
      obtain ⟨allocatedJ, rfl⟩ := findSlot_some found
      have keeps := setSlot_other c slot (allocatedOther j allocatedJ)
      rw [coherent.logical_slot allocatedJ, ← keeps, coherent'.logical_slot (by rw [keeps]; exact allocatedJ)]
    | none =>
      rw [logical_uncached (findSlot_none found), logical_uncached, setSlot_disk]
      intro j allocatedJ
      by_cases same : j = i
      · rw [same, setSlot_same, sector]
        exact Ne.symm self
      · rw [setSlot_other c _ same] at allocatedJ ⊢
        exact findSlot_none found j allocatedJ

/-- `CacheState.lookup` ends in a coherent state of the same logical content, at the slot of the sector. -/
structure Finds (c : CacheState) (secNo : Word) (result : Fin 64 × CacheState) : Prop where
  coherent : Coherent result.2
  logical : logical result.2 = logical c
  allocated : (result.2.bufferCache result.1).allocated = true
  sectorNo : (result.2.bufferCache result.1).sectorNo = secNo

theorem Finds.data {result : Fin 64 × CacheState} (finds : Finds c secNo result) :
    (result.2.bufferCache result.1).data = Filesys.logical c secNo := by
  rw [← finds.coherent.logical_slot finds.allocated, finds.sectorNo, finds.logical]

section

variable (coherent : Coherent c)

include coherent

theorem Coherent.lookup (secNo : Word) : Finds c secNo (c.lookup secNo) := by
  unfold CacheState.lookup
  split
  · rename_i i found
    exact ⟨coherent, rfl, (findSlot_some found).1, (findSlot_some found).2⟩
  · rename_i missing
    obtain ⟨coherent', sameLogical, free, kept⟩ := coherent.findVictim
    have uncached : Uncached (bufferCacheFindVictim c).2 secNo := by
      intro j allocatedJ
      rw [(kept j allocatedJ).2]
      exact findSlot_none missing j (kept j allocatedJ).1
    obtain ⟨coherentEnd, logicalEnd⟩ := coherent'.load secNo {
      (bufferCacheFindVictim c).2.bufferCache (bufferCacheFindVictim c).1 with
      data := (bufferCacheFindVictim c).2.disk secNo, allocated := true, accessed := true, sectorNo := secNo }
      free uncached rfl rfl rfl
    exact ⟨coherentEnd, logicalEnd.trans sameLogical, by simp, by simp⟩

/-! ## The five operations -/

theorem Coherent.read (secNo : Word) (size offset : Nat) :
    Coherent (bufferCacheRead secNo size offset c).2 ∧ logical (bufferCacheRead secNo size offset c).2 = logical c ∧
      (bufferCacheRead secNo size offset c).1 = (logical c secNo).load size offset := by
  have finds := coherent.lookup secNo
  refine ⟨finds.coherent, finds.logical, ?_⟩
  rw [← finds.data]
  rfl

/-- Overwriting the data of an allocated slot and setting its dirty flag. -/
theorem Coherent.storeSlot (allocated : (c.bufferCache i).allocated = true) (data : Sector) :
    Coherent (c.setSlot i { c.bufferCache i with data := data, dirty := true }) ∧
      logical (c.setSlot i { c.bufferCache i with data := data, dirty := true }) =
        update (logical c) (c.bufferCache i).sectorNo data := by
  have slots : SameMap c (c.setSlot i { c.bufferCache i with data := data, dirty := true }) := sameMap_setSlot rfl rfl
  have coherent' := coherent.setSlot slots fun _ notDirty => by cases notDirty
  refine ⟨coherent', ?_⟩
  funext secNo
  cases found : (c.setSlot i { c.bufferCache i with data := data, dirty := true }).findSlot secNo with
  | none =>
    have uncached := findSlot_none found
    have other : secNo ≠ (c.bufferCache i).sectorNo := by
      rintro rfl
      exact uncached i (by simpa using allocated) (slots i).2
    rw [update_of_ne other, logical_uncached uncached, logical_uncached, setSlot_disk]
    intro j allocatedJ
    rw [← (slots j).1] at allocatedJ
    rw [← (slots j).2]
    exact uncached j allocatedJ
  | some j =>
    obtain ⟨allocatedJ, rfl⟩ := findSlot_some found
    rw [coherent'.logical_slot allocatedJ]
    by_cases same : j = i
    · subst same
      simp
    · rw [setSlot_other c _ same] at allocatedJ ⊢
      rw [update_of_ne, coherent.logical_slot allocatedJ]
      intro sameSector
      exact same (coherent.unique j i allocatedJ allocated sameSector)

theorem Coherent.write (secNo : Word) (buffer : List UInt8) (offset : Nat) :
    Coherent (bufferCacheWrite secNo buffer offset c) ∧ logical (bufferCacheWrite secNo buffer offset c) =
        update (logical c) secNo ((logical c secNo).store buffer offset) := by
  have finds := coherent.lookup secNo
  obtain ⟨coherent', written⟩ := finds.coherent.storeSlot finds.allocated
    (((c.lookup secNo).2.bufferCache (c.lookup secNo).1).data.store buffer offset)
  refine ⟨coherent', written.trans ?_⟩
  rw [finds.sectorNo, finds.data, finds.logical]

theorem Coherent.release (secNo : Word) :
    Coherent (bufferCacheRelease secNo c).2 ∧ logical (bufferCacheRelease secNo c).2 = logical c := by
  unfold bufferCacheRelease
  split
  · rename_i i found
    exact ⟨coherent.evict (findSlot_some found).1, coherent.logical_evict (findSlot_some found).1⟩
  · exact ⟨coherent, rfl⟩

/-- Writing out an allocated slot changes nothing that the cache stands for. -/
theorem Coherent.flush (allocated : (c.bufferCache i).allocated = true) :
    Coherent (c.diskWrite (c.bufferCache i).sectorNo (c.bufferCache i).data) ∧
      logical (c.diskWrite (c.bufferCache i).sectorNo (c.bufferCache i).data) = logical c := by
  have coherent' : Coherent (c.diskWrite (c.bufferCache i).sectorNo (c.bufferCache i).data) := by
    refine ⟨coherent.unique, ?_⟩
    intro j allocatedJ notDirty
    by_cases sameSector : (c.bufferCache j).sectorNo = (c.bufferCache i).sectorNo
    · rw [diskWrite_slots, diskWrite_disk, sameSector, update_self, coherent.unique j i allocatedJ allocated sameSector]
    · rw [diskWrite_slots, diskWrite_disk, update_of_ne sameSector]
      exact coherent.clean j allocatedJ notDirty
  refine ⟨coherent', logical_congr coherent coherent' (fun _ => ⟨rfl, rfl⟩) (fun _ => rfl) ?_⟩
  intro secNo uncached
  exact update_of_ne (Ne.symm (uncached i allocated)) _ _

theorem Coherent.writeBackSlot (i : Fin 64) :
    Coherent (c.writeBackSlot i) ∧ logical (c.writeBackSlot i) = logical c := by
  unfold CacheState.writeBackSlot
  split
  next writes =>
    rw [Bool.and_eq_true] at writes
    exact coherent.flush writes.1
  next => exact ⟨coherent, rfl⟩

theorem Coherent.writeBack :
    Coherent (bufferCacheWriteBack c) ∧ logical (bufferCacheWriteBack c) = logical c := by
  unfold bufferCacheWriteBack
  -- one round of the loop at a time, whatever slots are left to visit
  generalize finRange 64 = slots
  induction slots generalizing c with
  | nil => exact ⟨coherent, rfl⟩
  | cons i slots ih =>
    obtain ⟨coherent', sameLogical⟩ := coherent.writeBackSlot i
    obtain ⟨coherentEnd, logicalEnd⟩ := ih coherent'
    exact ⟨coherentEnd, logicalEnd.trans sameLogical⟩

end

/-! ## Runs of calls -/

inductive CacheCall where
  | read (secNo : Word) (size offset : Nat)
  | write (secNo : Word) (buffer : List UInt8) (offset : Nat)
  | release (secNo : Word)
  | writeBack

/-- Only `buffer_cache_read` gives its caller bytes. -/
inductive CacheReply where
  | bytes (buffer : List UInt8)
  | done

def CacheCall.InBounds : CacheCall → Prop
  | .read _ size offset => offset + size ≤ 512
  | .write _ buffer offset => offset + buffer.length ≤ 512
  | .release _ | .writeBack => True

def bufferCacheMachine : Machine CacheState CacheCall CacheReply where
  step
    | .read secNo size offset, c =>
      let (buffer, c) := bufferCacheRead secNo size offset c
      (.bytes buffer, c)
    | .write secNo buffer offset, c => (.done, bufferCacheWrite secNo buffer offset c)
    | .release secNo, c => (.done, (bufferCacheRelease secNo c).2)
    | .writeBack, c => (.done, bufferCacheWriteBack c)

/-- What the cache is for: an array of sectors, with nothing in front of it. -/
def sectorArray : Machine (Word → Sector) CacheCall CacheReply where
  step
    | .read secNo size offset, sectors => (.bytes ((sectors secNo).load size offset), sectors)
    | .write secNo buffer offset, sectors =>
      (.done, update sectors secNo ((sectors secNo).store buffer offset))
    | .release _, sectors | .writeBack, sectors => (.done, sectors)

def bufferCacheRefinement : Refinement bufferCacheMachine sectorArray CacheCall.InBounds where
  invariant := Coherent
  view := logical
  invariant_step {call c} coherent _ := by
    cases call with
    | read secNo size offset => exact (coherent.read secNo size offset).1
    | write secNo buffer offset => exact (coherent.write secNo buffer offset).1
    | release secNo => exact (coherent.release secNo).1
    | writeBack =>
      dsimp only [bufferCacheMachine, sectorArray]
      exact coherent.writeBack.1
  reply_step {call c} coherent _ := by
    cases call with
    | read secNo size offset => exact congrArg CacheReply.bytes (coherent.read secNo size offset).2.2
    | write _ _ _ | release _ | writeBack => rfl
  view_step {call c} coherent _ := by
    cases call with
    | read secNo size offset => exact (coherent.read secNo size offset).2.1
    | write secNo buffer offset => exact (coherent.write secNo buffer offset).2
    | release secNo => exact (coherent.release secNo).2
    | writeBack =>
      dsimp only [bufferCacheMachine, sectorArray]
      exact coherent.writeBack.2

theorem Sector.getElem?_store (sector : Sector) (buffer : List UInt8) (offset k : Nat)
    (inBounds : offset + buffer.length ≤ 512) :
    (sector.store buffer offset).bytes[k]? =
      if offset ≤ k ∧ k < offset + buffer.length then buffer[k - offset]? else sector.bytes[k]? := by
  simp only [Sector.store, getElem?_splice]
  by_cases addressed : offset ≤ k ∧ k < offset + buffer.length
  · have inside : k < sector.bytes.length := by simpa using by omega
    rw [if_pos addressed, getElem?_eq_getElem inside, getElem?_eq_getElem (by omega)]
    simp [Nat.not_lt.mpr addressed.1]
  · rw [if_neg addressed]
    cases sector.bytes[k]? with
    | none => rfl
    | some byte =>
      by_cases before : k < offset
      · simp [before]
      · simp [before, getElem?_eq_none (show buffer.length ≤ k - offset by omega)]

/-- After any sequence of calls on a freshly initialised cache, whatever the disk and the unused slots held:
    slots are unique, a read gives the addressed bytes of the logical sector, a write changes exactly these,
    nothing else changes a logical sector, and the whole run is one of the plain array of sectors. -/
theorem bufferCache_transparent (before : CacheState) (calls : List CacheCall)
    (inBounds : ∀ call ∈ calls, call.InBounds) :
    let c := (bufferCacheMachine.run calls (bufferCacheInit before)).2
    (∀ i j, (c.bufferCache i).allocated = true → (c.bufferCache j).allocated = true →
      (c.bufferCache i).sectorNo = (c.bufferCache j).sectorNo → i = j) ∧
    (∀ secNo size offset, offset + size ≤ 512 → (bufferCacheRead secNo size offset c).1.length = size ∧
      (∀ k < size, (bufferCacheRead secNo size offset c).1[k]? = (logical c secNo).bytes[offset + k]?) ∧
      logical (bufferCacheRead secNo size offset c).2 = logical c) ∧
    (∀ secNo buffer offset, offset + buffer.length ≤ 512 → ∀ other k,
      (logical (bufferCacheWrite secNo buffer offset c) other).bytes[k]? =
        if other = secNo ∧ offset ≤ k ∧ k < offset + buffer.length then buffer[k - offset]?
        else (logical c other).bytes[k]?) ∧
    logical (bufferCacheFindVictim c).2 = logical c ∧
    (∀ secNo, logical (bufferCacheRelease secNo c).2 = logical c) ∧
    logical (bufferCacheWriteBack c) = logical c ∧
    (bufferCacheMachine.run calls (bufferCacheInit before)).1 = (sectorArray.run calls before.disk).1 ∧
    logical c = (sectorArray.run calls before.disk).2 := by
  intro c
  have coherent : Coherent c := bufferCacheRefinement.invariant_run calls _ (coherent_init before) inBounds
  refine ⟨coherent.unique, ?_, ?_, coherent.findVictim.logical, fun secNo => (coherent.release secNo).2,
    coherent.writeBack.2, ?_, ?_⟩
  · intro secNo size offset bound
    obtain ⟨_, sameLogical, bytes⟩ := coherent.read secNo size offset
    rw [bytes]
    refine ⟨?_, ?_, sameLogical⟩
    · rw [Sector.load, length_slice, Sector.length_bytes]
      omega
    · intro k inside
      rw [Sector.load, getElem?_slice, if_pos inside]
  · intro secNo buffer offset bound other k
    rw [(coherent.write secNo buffer offset).2]
    by_cases self : other = secNo
    · subst self
      rw [update_self, Sector.getElem?_store _ _ _ _ bound]
      simp
    · rw [update_of_ne self, if_neg (by simp [self])]
  · rw [bufferCacheRefinement.replies_eq calls _ (coherent_init before) inBounds]
    exact congrArg (fun sectors => (sectorArray.run calls sectors).1) (logical_init before)
  · rw [show logical c = _ from bufferCacheRefinement.view_run calls _ (coherent_init before) inBounds]
    exact congrArg (fun sectors => (sectorArray.run calls sectors).2) (logical_init before)

/-- The cache as the loader leaves it: static storage is zero. -/
def CacheState.boot (disk : Word → Sector) : CacheState where
  bufferCache _ := { allocated := false, sectorNo := 0, accessed := false, dirty := false, data := Sector.zeros }
  lookupStartIndex := 0
  disk := disk

theorem bufferCache_transparent_example :
    let calls := [CacheCall.write 3 [1, 2] 510, .read 3 2 510, .release 3, .writeBack]
    (bufferCacheMachine.run calls (bufferCacheInit (.boot fun _ => Sector.zeros))).1 =
      (sectorArray.run calls fun _ => Sector.zeros).1 :=
  (bufferCache_transparent (.boot fun _ => Sector.zeros)
    [CacheCall.write 3 [1, 2] 510, .read 3 2 510, .release 3, .writeBack]
    (by simp [CacheCall.InBounds])).2.2.2.2.2.2.1

end Pintos.Filesys
