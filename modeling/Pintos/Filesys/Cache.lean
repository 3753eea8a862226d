import Pintos.Library.Splice
import Mathlib.Data.Finset.Card
import Mathlib.Algebra.GroupWithZero.Nat
import Mathlib.Data.Fintype.Basic

/-! # The buffer cache (`filesys/cache.c`)

Sixty-four slots in front of the file system disk.  `disk_read` and `disk_write` are plain loads and
stores of whole sectors.  Each operation runs to completion here, so the per-slot `buffer_lock` is free
whenever it is taken and is left out.
-/

namespace Pintos.Filesys

open Library Function

/-- `uint32_t`, `disk_sector_t` and the bits of an `int32_t`. -/
abbrev Word := BitVec 32

/-- `DISK_SECTOR_SIZE` bytes. -/
@[ext] structure Sector where
  bytes : List UInt8
  length_bytes : bytes.length = 512

attribute [simp] Sector.length_bytes

/-- `memcpy (sector + offset, buffer, size)`. -/
def Sector.store (sector : Sector) (buffer : List UInt8) (offset : Nat) : Sector where
  bytes := splice sector.bytes offset buffer
  length_bytes := by simp

/-- `memcpy (buffer, sector + offset, size)`. -/
def Sector.load (sector : Sector) (size offset : Nat) : List UInt8 :=
  slice sector.bytes offset size

/-- `static char zeros[DISK_SECTOR_SIZE]`, and what a static buffer holds before it is used. -/
def Sector.zeros : Sector where
  bytes := List.replicate 512 0
  length_bytes := List.length_replicate

/-- `struct file_cache` -/
structure FileCache where
  allocated : Bool
  sectorNo : Word
  accessed : Bool
  dirty : Bool
  data : Sector

/-- The static variables of `cache.c` (`BUFFER_CACHE_SIZE` is 64) and the disk behind them.
    `lookup_start_index` is only ever set to 0 or to a value modulo 64. -/
structure CacheState where
  bufferCache : Fin 64 → FileCache
  lookupStartIndex : Fin 64
  disk : Word → Sector

instance neZeroCacheSize : NeZero 64 := ⟨by decide⟩

namespace CacheState

def setSlot (c : CacheState) (i : Fin 64) (slot : FileCache) : CacheState :=
  { c with bufferCache := update c.bufferCache i slot }

def diskWrite (c : CacheState) (sector : Word) (data : Sector) : CacheState :=
  { c with disk := update c.disk sector data }

/-- The loop that looks for the allocated slot of a sector, from slot 0 on. -/
def findSlot (c : CacheState) (secNo : Word) : Option (Fin 64) :=
  (List.finRange 64).find? fun i => (c.bufferCache i).sectorNo == secNo && (c.bufferCache i).allocated

end CacheState

/-- Only `sector_no`, `allocated` and the hand are set: the flags and the data keep what they held. -/
def bufferCacheInit (c : CacheState) : CacheState where
  bufferCache i := { c.bufferCache i with sectorNo := 0, allocated := false }
  lookupStartIndex := 0
  disk := c.disk

/-- Write the slot out if it is dirty, then mark it free.  The dirty flag stays as it is. -/
def CacheState.evict (c : CacheState) (i : Fin 64) : CacheState :=
  let slot := c.bufferCache i
  let c := if slot.dirty then c.diskWrite slot.sectorNo slot.data else c
  c.setSlot i { slot with allocated := false }

def bufferCacheRelease (secNo : Word) (c : CacheState) : Bool × CacheState :=
  match c.findSlot secNo with
  | some i => (true, c.evict i)
  | none => (false, c)

/-- The slots the clock hand would pass over once more. -/
def CacheState.accessedSlots (c : CacheState) : Finset (Fin 64) :=
  Finset.univ.filter fun i => (c.bufferCache i).accessed

theorem CacheState.mem_accessedSlots (c : CacheState) (i : Fin 64) :
    i ∈ c.accessedSlots ↔ (c.bufferCache i).accessed = true := by
  simp [accessedSlots]

theorem CacheState.accessedSlots_clear_lt (c : CacheState) (i : Fin 64) (accessed : (c.bufferCache i).accessed = true) :
    (c.setSlot i { c.bufferCache i with accessed := false }).accessedSlots.card < c.accessedSlots.card := by
  apply Finset.card_lt_card
  rw [Finset.ssubset_iff_of_subset]
  · refine ⟨i, (c.mem_accessedSlots i).mpr accessed, ?_⟩
    simp [mem_accessedSlots, setSlot]
  · intro j member
    rw [mem_accessedSlots] at member ⊢
    by_cases same : j = i
    · subst same
      exact accessed
    · simpa [setSlot, update_of_ne same] using member

/-- The `while (true)` loop of `buffer_cache_find_victim`, with the hand at slot `i`. -/
def CacheState.clockHand (c : CacheState) (i : Fin 64) : Fin 64 × CacheState :=
  if accessed : (c.bufferCache i).accessed = true then
    (c.setSlot i { c.bufferCache i with accessed := false }).clockHand (i + 1)
  else
    (i, ({ c with lookupStartIndex := i + 1 } : CacheState).evict i)
termination_by c.accessedSlots.card
decreasing_by exact c.accessedSlots_clear_lt i accessed

def bufferCacheFindVictim (c : CacheState) : Fin 64 × CacheState :=
  match (List.finRange 64).find? fun i => !(c.bufferCache i).allocated with
  | some i => (i, c)
  | none => c.clockHand c.lookupStartIndex

/-- The lines shared by `buffer_cache_read` and `buffer_cache_write`: find the slot of the sector, or
    load the sector into the slot `buffer_cache_find_victim` gives. -/
def CacheState.lookup (c : CacheState) (secNo : Word) : Fin 64 × CacheState :=
  match c.findSlot secNo with
  | some i => (i, c)
  | none =>
    let (i, c) := bufferCacheFindVictim c
    (i, c.setSlot i { c.bufferCache i with
      data := c.disk secNo, allocated := true, accessed := true, sectorNo := secNo })

def bufferCacheRead (secNo : Word) (size offset : Nat) (c : CacheState) : List UInt8 × CacheState :=
  let (i, c) := c.lookup secNo
  ((c.bufferCache i).data.load size offset, c)

def bufferCacheWrite (secNo : Word) (buffer : List UInt8) (offset : Nat) (c : CacheState) : CacheState :=
  let (i, c) := c.lookup secNo
  c.setSlot i { c.bufferCache i with data := (c.bufferCache i).data.store buffer offset, dirty := true }

/-- One round of the loop of `buffer_cache_write_back`. -/
def CacheState.writeBackSlot (c : CacheState) (i : Fin 64) : CacheState :=
  if (c.bufferCache i).allocated && (c.bufferCache i).dirty then
    c.diskWrite (c.bufferCache i).sectorNo (c.bufferCache i).data
  else c

def bufferCacheWriteBack (c : CacheState) : CacheState :=
  (List.finRange 64).foldl CacheState.writeBackSlot c

end Pintos.Filesys
