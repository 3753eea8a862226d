import Pintos.Filesys.Primitives

/-! # How a file lies on the disk

`Chain sectors disk rest data` relates an inode block held in memory, the sectors of the blocks that follow
it, and the data sectors all of them name.  A block that is followed by another is full and the next one
names at least one sector, so the number of blocks is fixed by the number of data sectors.  Nothing is said
about the unused slots and the `indirect` field of the last block: they hold what the sector held before.
-/

namespace Pintos.Filesys

open Library Function List

/-! ## The bytes of a sequence of sectors -/

/-- The sectors of `data` one after the other. -/
def bytesOf (sectors : Word → Sector) (data : List Word) : List UInt8 :=
  data.flatMap fun s => (sectors s).bytes

/-- Write `buffer` over the sectors of `data`, `offset` bytes into them. -/
def storeAcross (sectors : Word → Sector) : List Word → Nat → List UInt8 → Word → Sector
  | [], _, _ => sectors
  | s :: data, offset, buffer =>
    storeAcross (update sectors s ((sectors s).store (buffer.take (512 - offset)) offset)) data
      (offset - 512) (buffer.drop (512 - offset))

@[simp] theorem bytesOf_cons (sectors : Word → Sector) (s : Word) (data : List Word) :
    bytesOf sectors (s :: data) = (sectors s).bytes ++ bytesOf sectors data := rfl

theorem bytesOf_append (sectors : Word → Sector) (data more : List Word) :
    bytesOf sectors (data ++ more) = bytesOf sectors data ++ bytesOf sectors more := by
  simp [bytesOf]

@[simp] theorem length_bytesOf (sectors : Word → Sector) (data : List Word) :
    (bytesOf sectors data).length = 512 * data.length := by
  induction data with
  | nil => rfl
  | cons s data ih =>
    rw [bytesOf_cons, length_append, Sector.length_bytes, ih, length_cons]
    omega

variable {sectors sectors' : Word → Sector} {data : List Word} {s : Word}

theorem bytesOf_congr (same : ∀ s ∈ data, sectors' s = sectors s) : bytesOf sectors' data = bytesOf sectors data := by
  unfold bytesOf
  apply flatMap_congr
  intro s member
  rw [same s member]

@[simp] theorem Sector.store_nil (sector : Sector) (offset : Nat) : sector.store [] offset = sector := by
  apply Sector.ext
  exact splice_nil _ _

@[simp] theorem storeAcross_nil (sectors : Word → Sector) (data : List Word) (offset : Nat) :
    storeAcross sectors data offset [] = sectors := by
  induction data generalizing offset with
  | nil => rfl
  | cons s data ih => rw [storeAcross, take_nil, drop_nil, Sector.store_nil, update_eq_self, ih]

theorem storeAcross_other (sectors : Word → Sector) (other : s ∉ data) (offset : Nat) (buffer : List UInt8) :
    storeAcross sectors data offset buffer s = sectors s := by
  induction data generalizing sectors offset buffer with
  | nil => rfl
  | cons t data ih =>
    rw [mem_cons, not_or] at other
    rw [storeAcross, ih _ other.2, update_of_ne other.1]

/-- What is written depends on what the sectors held, and on nothing else. -/
theorem storeAcross_congr (same : ∀ s ∈ data, sectors' s = sectors s) (offset : Nat) (buffer : List UInt8)
    (member : s ∈ data) : storeAcross sectors' data offset buffer s = storeAcross sectors data offset buffer s := by
  induction data generalizing sectors sectors' offset buffer with
  | nil => cases member
  | cons t data ih =>
    rw [storeAcross, storeAcross, same t mem_cons_self]
    have updated : ∀ u, u = t ∨ u ∈ data → update sectors' t ((sectors t).store (buffer.take (512 - offset)) offset) u =
          update sectors t ((sectors t).store (buffer.take (512 - offset)) offset) u := by
      intro u choice
      by_cases first : u = t
      · rw [first, update_self, update_self]
      · rw [update_of_ne first, update_of_ne first]
        exact same u (mem_cons.mpr choice)
    by_cases later : s ∈ data
    · exact ih (fun u member => updated u (.inr member)) _ _ later
    · rw [storeAcross_other _ later, storeAcross_other _ later]
      exact updated s (mem_cons.mp member)

theorem bytesOf_storeAcross (distinct : data.Nodup) (sectors : Word → Sector) (offset : Nat) (buffer : List UInt8) :
    bytesOf (storeAcross sectors data offset buffer) data = splice (bytesOf sectors data) offset buffer := by
  induction data generalizing sectors offset buffer with
  | nil => rfl
  | cons s data ih =>
    rw [nodup_cons] at distinct
    have later : bytesOf (update sectors s ((sectors s).store (buffer.take (512 - offset)) offset)) data =
        bytesOf sectors data := by
      apply bytesOf_congr
      intro t member
      have other : t ≠ s := fun same => distinct.1 (same ▸ member)
      exact update_of_ne other _ _
    have first : ((sectors s).store (buffer.take (512 - offset)) offset).bytes =
        splice (sectors s).bytes offset buffer := by
      have short := splice_take (sectors s).bytes offset buffer
      rwa [Sector.length_bytes] at short
    rw [bytesOf_cons, bytesOf_cons, storeAcross, ih distinct.2, storeAcross_other _ distinct.1,
      update_self, later, first, splice_append, Sector.length_bytes]

/-! ## Inode blocks and the sectors they name -/

def Chain (sectors : Word → Sector) : InodeDisk → List Word → List Word → Prop
  | disk, [], data => data <+: disk.direct.toList
  | disk, next :: rest, data => ∃ later, later ≠ [] ∧ data = disk.direct.toList ++ later ∧ disk.indirect = next ∧
      (sectors next).inodeDisk.sector = next ∧ Chain sectors (sectors next).inodeDisk rest later

/-- The last block of a chain. -/
def lastDisk (sectors : Word → Sector) : InodeDisk → List Word → InodeDisk
  | disk, [] => disk
  | _, next :: rest => lastDisk sectors (sectors next).inodeDisk rest

variable {disk : InodeDisk} {rest : List Word} {v : View}

theorem Chain.congr (chain : Chain sectors disk rest data) (same : ∀ s ∈ rest, sectors' s = sectors s) :
    Chain sectors' disk rest data := by
  induction rest generalizing disk data with
  | nil => exact chain
  | cons next rest ih =>
    obtain ⟨later, some, all, linked, named, follows⟩ := chain
    refine ⟨later, some, all, linked, ?_⟩
    rw [same next mem_cons_self]
    exact ⟨named, ih follows fun s member => same s (mem_cons_of_mem _ member)⟩

theorem lastDisk_congr (same : ∀ s ∈ rest, sectors' s = sectors s) :
    lastDisk sectors' disk rest = lastDisk sectors disk rest := by
  induction rest generalizing disk with
  | nil => rfl
  | cons next rest ih =>
    rw [lastDisk, lastDisk, same next mem_cons_self]
    exact ih fun s member => same s (mem_cons_of_mem _ member)

@[simp] theorem InodeDisk.length_direct (disk : InodeDisk) : disk.direct.toList.length = 123 := by
  simp

theorem Chain.length_le (chain : Chain sectors disk [] data) : data.length ≤ 123 := by
  have bound := List.IsPrefix.length_le chain
  rwa [disk.length_direct] at bound

/-- The number of later blocks, from the number of data sectors. -/
theorem Chain.length_rest (chain : Chain sectors disk rest data) : rest.length = (data.length - 1) / 123 := by
  induction rest generalizing disk data with
  | nil =>
    have bound := chain.length_le
    rw [length_nil]
    omega
  | cons next rest ih =>
    obtain ⟨later, some, all, -, -, follows⟩ := chain
    have positive := length_pos_iff.mpr some
    rw [length_cons, ih follows, all, length_append, disk.length_direct]
    omega

/-- Following `indirect` `mok` times leads to the block that names the sectors from the `123 * mok`-th on. -/
theorem referDisk_returns {safe : Prop} {mok : Nat} (chain : Chain v.sectors disk rest data)
    (onDisk : ∀ s ∈ rest, s.toNat < v.tables.capacity) (enough : mok ≤ rest.length) :
    Yields safe (referDisk disk mok) v fun refer after => after = v ∧
      Chain v.sectors refer (rest.drop mok) (data.drop (123 * mok)) ∧
      lastDisk v.sectors refer (rest.drop mok) = lastDisk v.sectors disk rest := by
  induction mok generalizing disk rest data with
  | zero => exact Yields.pure ⟨rfl, chain, rfl⟩
  | succ mok ih =>
    cases rest with
    | nil => simp at enough
    | cons next rest =>
      obtain ⟨later, -, all, linked, -, follows⟩ := chain
      have later_eq : data.drop (123 * (mok + 1)) = later.drop (123 * mok) := by
        rw [all, Nat.mul_add, Nat.add_comm, ← drop_drop, Nat.mul_one, drop_left' disk.length_direct]
      rw [referDisk, linked, later_eq]
      apply (readInodeDisk_returns (onDisk next mem_cons_self)).bind
      exact ih follows (fun s member => onDisk s (mem_cons_of_mem _ member)) (Nat.le_of_succ_le_succ enough)

/-- The blocks that `indirect` leads to from this one, `mok` times, are on the disk. -/
def View.Walks (v : View) (disk : InodeDisk) : Nat → Prop
  | 0 => True
  | mok + 1 => disk.indirect.toNat < v.tables.capacity ∧ v.Walks (v.sectors disk.indirect).inodeDisk mok

theorem Chain.walks {mok : Nat} (chain : Chain v.sectors disk rest data)
    (onDisk : ∀ s ∈ rest, s.toNat < v.tables.capacity) (enough : mok ≤ rest.length) : v.Walks disk mok := by
  induction mok generalizing disk rest data with
  | zero => trivial
  | succ mok ih =>
    cases rest with
    | nil => simp at enough
    | cons next rest =>
      obtain ⟨later, -, -, linked, -, follows⟩ := chain
      refine ⟨linked ▸ onDisk next mem_cons_self, ?_⟩
      rw [linked]
      exact ih follows (fun s member => onDisk s (mem_cons_of_mem _ member)) (Nat.le_of_succ_le_succ enough)

/-- The walk reads, and ends if it stays on the disk. -/
theorem referDisk_reads (disk : InodeDisk) (mok : Nat) :
    Yields (v.Walks disk mok) (referDisk disk mok) v fun _ after => after = v ∧ v.Walks disk mok := by
  induction mok generalizing disk with
  | zero => exact Yields.pure ⟨rfl, trivial⟩
  | succ mok ih =>
    apply ((readInodeDisk_yields disk.indirect).weaken And.left).bind
    intro next after read
    rw [read.1, read.2.1]
    exact (ih _).imp And.right fun _ _ walked => ⟨walked.1, read.2.2, walked.2⟩

end Pintos.Filesys
