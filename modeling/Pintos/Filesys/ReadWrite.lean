import Pintos.Filesys.Layout

/-! # Reading and writing inside a file

Both loops move a cursor over the data sectors of a file.  The cursor reads one block too many in one case:
after the last slot of a full last block it follows an `indirect` that was never set.  `TailOnDisk` says
that this read does not leave the disk, and it is exactly what the loops need to come to an end.
-/

namespace Pintos.Filesys

open Library Function List Nat

/-- The block in memory and the slot in it from which the sectors of `todo` are named; `rest` are the blocks
    that follow. -/
structure Cursor (sectors : Word → Sector) (disk : InodeDisk) (slot : Nat) (rest todo : List Word) : Prop where
  inBlock : slot < 123
  chain : ∃ before, before.length = slot ∧ Chain sectors disk rest (before ++ todo)

/-- If `count` slots are everything from the cursor on, and the last of them is the last of its block, then the
    `indirect` of that block can be read. -/
def TailOnDisk (capacity : Nat) (last : InodeDisk) (slot todo count : Nat) : Prop :=
  count = todo → 123 ∣ slot + todo → last.indirect.toNat < capacity

variable {v : View} {safe : Prop} {disk : InodeDisk} {slot : Nat} {rest todo : List Word}

variable {sectors : Word → Sector} {data : List Word}

theorem Chain.getElem_direct (chain : Chain sectors disk rest data) {i : Nat} (inBlock : i < 123)
    (inside : i < data.length) : disk.slot i = data[i] := by
  cases rest with
  | nil =>
    obtain ⟨unused, all⟩ := chain
    simp [InodeDisk.slot, ← all, getElem?_append_left inside, getElem?_eq_getElem inside]
  | cons next rest =>
    obtain ⟨later, -, rfl, -⟩ := chain
    have own : i < disk.direct.toList.length := by simpa using inBlock
    rw [InodeDisk.slot, getElem_append_left own, getD_eq_getElem?_getD, getElem?_eq_getElem own, Option.getD_some]

variable {s : Word}

theorem Cursor.slot_eq (cursor : Cursor sectors disk slot rest (s :: todo)) : disk.slot slot = s := by
  obtain ⟨before, atSlot, chain⟩ := cursor.chain
  subst atSlot
  rw [chain.getElem_direct cursor.inBlock (by simp)]
  simp

theorem Cursor.congr {sectors' : Word → Sector} (cursor : Cursor sectors disk slot rest todo)
    (same : ∀ s ∈ rest, sectors' s = sectors s) : Cursor sectors' disk slot rest todo where
  inBlock := cursor.inBlock
  chain := by
    obtain ⟨before, atSlot, chain⟩ := cursor.chain
    exact ⟨before, atSlot, chain.congr same⟩

/-- The cursor moves on to the next sector of the file. -/
theorem nextSlot_moves (cursor : Cursor v.sectors disk slot rest (s :: todo))
    (onDisk : ∀ s ∈ rest, s.toNat < v.tables.capacity) (more : todo ≠ []) :
    Yields safe (nextSlot disk slot) v fun next after => after = v ∧ ∃ later, later ⊆ rest ∧
      Cursor v.sectors next.1 next.2 later todo ∧ 123 ∣ next.2 + (123 - (slot + 1)) ∧
      lastDisk v.sectors next.1 later = lastDisk v.sectors disk rest := by
  obtain ⟨before, atSlot, chain⟩ := cursor.chain
  have inBlock := cursor.inBlock
  have positive := length_pos_iff.mpr more
  unfold nextSlot
  by_cases last : slot + 1 ≥ 123
  · rw [if_pos last]
    rcases rest with _ | ⟨next, rest⟩
    · have bound := chain.length_le
      rw [length_append, length_cons] at bound
      omega
    obtain ⟨later, -, all, linked, -, follows⟩ := chain
    have sameLater : todo = later := by
      have parts : (before ++ [s]) ++ todo = disk.direct.toList ++ later := by simpa using all
      refine (append_inj parts ?_).2
      rw [disk.length_direct, length_append, length_singleton]
      omega
    subst sameLater
    rw [linked]
    apply (readInodeDisk_returns (onDisk next mem_cons_self)).bind
    apply Yields.pure
    refine ⟨rfl, rest, subset_cons_self _ _, ⟨by omega, [], rfl, follows⟩, ?_, rfl⟩
    omega
  · rw [if_neg last]
    apply Yields.pure
    refine ⟨rfl, rest, List.Subset.refl _, ⟨by omega, before ++ [s], by simp [atSlot], ?_⟩, ?_, rfl⟩
    · simpa using chain
    · omega

/-- Past the last sector of the file the cursor stays where it is, or reads the block a full last block names. -/
theorem nextSlot_ends (cursor : Cursor v.sectors disk slot rest [s]) :
    Yields (TailOnDisk v.tables.capacity (lastDisk v.sectors disk rest) slot 1 1) (nextSlot disk slot) v
      fun _ after => after = v ∧ TailOnDisk v.tables.capacity (lastDisk v.sectors disk rest) slot 1 1 := by
  obtain ⟨before, atSlot, chain⟩ := cursor.chain
  have inBlock := cursor.inBlock
  unfold nextSlot
  by_cases last : slot + 1 ≥ 123
  · rw [if_pos last]
    cases rest with
    | nil =>
      have needed : TailOnDisk v.tables.capacity disk slot 1 1 → disk.indirect.toNat < v.tables.capacity :=
        fun tail => tail rfl (by omega)
      apply ((readInodeDisk_yields disk.indirect).weaken needed).bind
      intro next after read
      rw [read.2.1]
      exact Yields.pure ⟨rfl, fun _ _ => read.2.2⟩
    | cons next rest =>
      obtain ⟨later, some, all, -⟩ := chain
      have lengths := congrArg length all
      have positive := length_pos_iff.mpr some
      simp only [length_append, length_singleton, disk.length_direct] at lengths
      omega
  · rw [if_neg last]
    refine Yields.pure ⟨rfl, fun _ full => ?_⟩
    omega

variable {capacity n count : Nat} {last : InodeDisk}

theorem tailOnDisk_step {next : Nat} (inBlock : slot < 123) (moved : 123 ∣ next + (123 - (slot + 1))) :
    TailOnDisk capacity last next n count ↔ TailOnDisk capacity last slot (n + 1) (count + 1) := by
  have counts : count = n ↔ count + 1 = n + 1 := by omega
  have full : 123 ∣ next + n ↔ 123 ∣ slot + (n + 1) := by omega
  unfold TailOnDisk
  rw [counts, full]

theorem tailOnDisk_short (short : count < n) : TailOnDisk capacity last slot n count :=
  fun all => absurd all (Nat.ne_of_lt short)

variable {sectorOfs size : Nat}

/-- Whether the request ends in this round or goes on, its tail is the tail of the whole request. -/
theorem count_step (inSector : sectorOfs < 512) (more : 512 - sectorOfs < size) :
    (sectorOfs + size + 511) / 512 = (0 + (size - (512 - sectorOfs)) + 511) / 512 + 1 := by
  omega

theorem readBytes_eq : readBytes size sectorOfs = min size (512 - sectorOfs) := by
  unfold readBytes
  split <;> split <;> omega

/-! ## The loop of `inode_read_at` -/

theorem readLoop_zero (disk : InodeDisk) (slot sectorOfs : Nat) (buffer : List UInt8) :
    readLoop disk slot sectorOfs 0 buffer = pure buffer := by
  rw [readLoop, if_pos rfl]

theorem readLoop_yields (buffer : List UInt8) (cursor : Cursor v.sectors disk slot rest todo)
    (blocks : ∀ s ∈ rest, s.toNat < v.tables.capacity)
    (usable : ∀ s ∈ todo, s.toNat < v.tables.capacity ∧ s.msb = false) (inSector : sectorOfs < 512)
    (fits : sectorOfs + size ≤ 512 * todo.length) (positive : 0 < size) :
    let tail := TailOnDisk v.tables.capacity (lastDisk v.sectors disk rest) slot todo.length
      ((sectorOfs + size + 511) / 512)
    Yields tail (readLoop disk slot sectorOfs size buffer) v fun bytes after =>
      bytes = buffer ++ slice (bytesOf v.sectors todo) sectorOfs size ∧ after = v ∧ tail := by
  induction todo generalizing disk slot rest sectorOfs size buffer with
  | nil =>
    rw [length_nil] at fits
    omega
  | cons s todo ih =>
    obtain ⟨onDisk, named⟩ := usable s mem_cons_self
    have inBlock := cursor.inBlock
    rw [readLoop, cursor.slot_eq, if_neg (by omega), named, if_neg Bool.false_ne_true, readBytes_eq, if_neg (by omega)]
    apply (cacheRead_returns onDisk _ _).bind
    rw [bytesOf_cons, slice_append, Sector.length_bytes, length_cons]
    by_cases more : 512 - sectorOfs < size
    · -- the sector is read to its end and the request goes on in the next one
      have some : todo ≠ [] := by
        rintro rfl
        simp only [length_cons, length_nil] at fits
        omega
      rw [length_cons] at fits
      apply (nextSlot_moves cursor blocks some).bind
      intro next after moved
      obtain ⟨sameView, later, fewer, moved, aligned, sameLast⟩ := moved
      rw [sameView, Nat.min_eq_right (Nat.le_of_lt more), count_step inSector more, ← tailOnDisk_step inBlock aligned,
        ← sameLast, Nat.sub_eq_zero_of_le (Nat.le_of_lt inSector)]
      have tailFits : 0 + (size - (512 - sectorOfs)) ≤ 512 * todo.length := by omega
      have whole : slice (v.sectors s).bytes sectorOfs size = (v.sectors s).load (512 - sectorOfs) sectorOfs := by
        rw [Sector.load, ← slice_min, Sector.length_bytes, min_eq_right (le_of_lt more)]
      rw [whole, ← append_assoc]
      exact ih _ moved (fun t member => blocks t (fewer member))
        (fun t member => usable t (mem_cons_of_mem _ member)) (by omega) tailFits (by omega)
    · -- the request ends in this sector
      have counted : (sectorOfs + size + 511) / 512 = 0 + 1 := by omega
      have none : size - (512 - sectorOfs) = 0 := by omega
      rw [Nat.min_eq_left (Nat.not_lt.mp more), Nat.sub_self, none, counted]
      by_cases some : todo = []
      · subst some
        apply (nextSlot_ends cursor).bind
        intro next after ended
        rw [ended.1, readLoop_zero]
        exact Yields.pure ⟨by simp [Sector.load, slice], rfl, ended.2⟩
      · have short := length_pos_iff.mpr some
        apply (nextSlot_moves cursor blocks some).bind
        intro next after moved
        rw [moved.1, readLoop_zero]
        exact Yields.pure ⟨by simp [Sector.load, slice], rfl, tailOnDisk_short (by omega)⟩

/-! ## The loop of `inode_write_at` -/

theorem writeLoop_nil (disk : InodeDisk) (slot sectorOfs bytesWritten : Nat) :
    writeLoop disk slot sectorOfs [] bytesWritten = pure bytesWritten := by
  rw [writeLoop, length_nil, if_pos rfl]

variable {buffer : List UInt8}

theorem writeLoop_yields (bytesWritten : Nat) (cursor : Cursor v.sectors disk slot rest todo)
    (blocks : ∀ s ∈ rest, s.toNat < v.tables.capacity)
    (usable : ∀ s ∈ todo, s.toNat < v.tables.capacity ∧ s.msb = false) (apart : ∀ s ∈ todo, s ∉ rest)
    (inSector : sectorOfs < 512) (fits : sectorOfs + buffer.length ≤ 512 * todo.length) (positive : 0 < buffer.length) :
    let tail := TailOnDisk v.tables.capacity (lastDisk v.sectors disk rest) slot todo.length
      ((sectorOfs + buffer.length + 511) / 512)
    Yields tail (writeLoop disk slot sectorOfs buffer bytesWritten) v fun written after =>
      written = bytesWritten + buffer.length ∧
      after = v.withSectors (storeAcross v.sectors todo sectorOfs buffer) ∧ tail := by
  induction todo generalizing v disk slot rest sectorOfs bytesWritten buffer with
  | nil =>
    rw [length_nil] at fits
    omega
  | cons s todo ih =>
    obtain ⟨onDisk, named⟩ := usable s mem_cons_self
    have inBlock := cursor.inBlock
    have blocksKept : ∀ t ∈ rest, update v.sectors s
        ((v.sectors s).store (buffer.take (512 - sectorOfs)) sectorOfs) t = v.sectors t := by
      intro t member
      have other : t ≠ s := fun same => apart s mem_cons_self (same ▸ member)
      exact update_of_ne other _ _
    have chunk : buffer.take (min buffer.length (512 - sectorOfs)) = buffer.take (512 - sectorOfs) := by
      rw [min_comm, ← take_take, take_length]
    have remains : buffer.drop (min buffer.length (512 - sectorOfs)) = buffer.drop (512 - sectorOfs) := by
      by_cases more : 512 - sectorOfs < buffer.length
      · rw [min_eq_right (le_of_lt more)]
      · rw [min_eq_left (not_lt.mp more), drop_length, drop_of_length_le (not_lt.mp more)]
    rw [writeLoop, cursor.slot_eq, if_neg (by omega), named, if_neg Bool.false_ne_true, readBytes_eq,
      if_neg (by omega), storeAcross, length_cons, chunk, remains,
      Nat.sub_eq_zero_of_le (Nat.le_of_lt inSector), ← lastDisk_congr blocksKept]
    apply (cacheWrite_returns onDisk _ _).bind
    have cursorKept := cursor.congr blocksKept
    generalize update v.sectors s ((v.sectors s).store (buffer.take (512 - sectorOfs)) sectorOfs) = stored
      at cursorKept ⊢
    by_cases more : 512 - sectorOfs < buffer.length
    · -- the sector is filled to its end and the request goes on in the next one
      have left : (buffer.drop (512 - sectorOfs)).length = buffer.length - (512 - sectorOfs) := length_drop
      have some : todo ≠ [] := by
        rintro rfl
        simp only [length_cons, length_nil] at fits
        omega
      rw [length_cons] at fits
      apply (nextSlot_moves (v := v.withSectors stored) cursorKept blocks some).bind
      intro next after moved
      obtain ⟨sameView, later, fewer, moved, aligned, sameLast⟩ := moved
      change lastDisk stored _ _ = lastDisk stored _ _ at sameLast
      rw [sameView, min_eq_right (le_of_lt more), count_step inSector more, ← left,
        ← tailOnDisk_step inBlock aligned, ← sameLast]
      have total : bytesWritten + buffer.length =
          bytesWritten + (512 - sectorOfs) + (buffer.drop (512 - sectorOfs)).length := by omega
      rw [total]
      exact ih (v := v.withSectors stored) _ moved (fun t member => blocks t (fewer member))
        (fun t member => usable t (mem_cons_of_mem _ member))
        (fun t member later => apart t (mem_cons_of_mem _ member) (fewer later)) (by omega) (by omega) (by omega)
    · -- the request ends in this sector
      have counted : (sectorOfs + buffer.length + 511) / 512 = 0 + 1 := by omega
      have none : buffer.drop (512 - sectorOfs) = [] := drop_of_length_le (not_lt.mp more)
      rw [min_eq_left (not_lt.mp more), none, counted, storeAcross_nil]
      by_cases some : todo = []
      · subst some
        apply (nextSlot_ends (v := v.withSectors stored) cursorKept).bind
        intro next after ended
        rw [ended.1, writeLoop_nil]
        exact Yields.pure ⟨rfl, rfl, ended.2⟩
      · have short := length_pos_iff.mpr some
        apply (nextSlot_moves (v := v.withSectors stored) cursorKept blocks some).bind
        intro next after moved
        rw [moved.1, writeLoop_nil]
        exact Yields.pure ⟨rfl, rfl, tailOnDisk_short (by omega)⟩

/-! ## The functions around the loops -/

theorem storeAcross_drop (sectors : Word → Sector) (data : List Word) (offset : Nat) (buffer : List UInt8) :
    storeAcross sectors (data.drop (offset / 512)) (offset % 512) buffer = storeAcross sectors data offset buffer := by
  induction data generalizing offset with
  | nil => rw [drop_nil, storeAcross, storeAcross]
  | cons s data ih =>
    by_cases first : offset < 512
    · rw [div_eq_of_lt first, mod_eq_of_lt first, drop_zero]
    · have past : 512 - offset = 0 := by omega
      have division : offset / 512 = (offset - 512) / 512 + 1 := by omega
      have remainder : offset % 512 = (offset - 512) % 512 := by omega
      rw [storeAcross, past, take_zero, drop_zero, Sector.store_nil, update_eq_self, division,
        remainder, drop_succ_cons]
      exact ih (offset - 512)

variable {offset : Nat}

theorem slice_bytesOf_drop (sectors : Word → Sector) (inside : offset / 512 ≤ data.length) (size : Nat) :
    slice (bytesOf sectors (data.drop (offset / 512))) (offset % 512) size =
      slice (bytesOf sectors data) offset size := by
  have parts : bytesOf sectors data =
      bytesOf sectors (data.take (offset / 512)) ++ bytesOf sectors (data.drop (offset / 512)) := by
    rw [← bytesOf_append, take_append_drop]
  have skipped : (bytesOf sectors (data.take (offset / 512))).length = 512 * (offset / 512) := by
    rw [length_bytesOf, length_take, min_eq_left inside]
  have dropped : (bytesOf sectors data).drop offset =
      (bytesOf sectors (data.drop (offset / 512))).drop (offset % 512) := by
    calc (bytesOf sectors data).drop offset
        = ((bytesOf sectors data).drop (512 * (offset / 512))).drop (offset % 512) := by
          rw [drop_drop, div_add_mod]
      _ = (bytesOf sectors (data.drop (offset / 512))).drop (offset % 512) := by
          rw [parts, drop_left' skipped]
  rw [slice, slice, dropped]

/-- The slot `inode_read_at` and `inode_write_at` start from. -/
theorem referDisk_cursor (chain : Chain v.sectors disk rest data) (blocks : ∀ s ∈ rest, s.toNat < v.tables.capacity)
    (inside : offset / 512 < data.length) :
    Yields safe (referDisk disk (offset / (512 * 123))) v fun refer after => after = v ∧ ∃ later, later ⊆ rest ∧
      Cursor v.sectors refer (offset / 512 % 123) later (data.drop (offset / 512)) ∧
      lastDisk v.sectors refer later = lastDisk v.sectors disk rest := by
  have steps : offset / (512 * 123) = offset / 512 / 123 := (Nat.div_div_eq_div_mul offset 512 123).symm
  have count := chain.length_rest
  have enough : offset / 512 / 123 ≤ rest.length := by omega
  have place : 123 * (offset / 512 / 123) + offset / 512 % 123 = offset / 512 := div_add_mod _ _
  rw [steps]
  apply (referDisk_returns chain blocks enough).mono
  intro refer after reached
  obtain ⟨sameView, found, sameLast⟩ := reached
  refine ⟨sameView, rest.drop (offset / 512 / 123), drop_subset _ _, ⟨mod_lt _ (by decide), ?_⟩, sameLast⟩
  refine ⟨(data.drop (123 * (offset / 512 / 123))).take (offset / 512 % 123), ?_, ?_⟩
  · rw [length_take, length_drop]
    omega
  · have split := take_append_drop (offset / 512 % 123) (data.drop (123 * (offset / 512 / 123)))
    rw [drop_drop, place] at split
    rwa [split]

theorem le_bytesToSectors (size : Nat) : size ≤ 512 * bytesToSectors size := by
  unfold bytesToSectors
  omega

/-- The tail condition of a request, seen from the start of the file. -/
theorem tailOnDisk_whole (inside : offset / 512 < n) :
    TailOnDisk capacity last (offset / 512 % 123) (n - offset / 512) ((offset % 512 + size + 511) / 512) ↔
      TailOnDisk capacity last 0 n (bytesToSectors (offset + size)) := by
  have counts : (offset % 512 + size + 511) / 512 = n - offset / 512 ↔ bytesToSectors (offset + size) = n := by
    unfold bytesToSectors
    omega
  have full : 123 ∣ offset / 512 % 123 + (n - offset / 512) ↔ 123 ∣ 0 + n := by omega
  unfold TailOnDisk
  rw [counts, full]

/-- What is known of a file when its data are read or written: the block in memory, the blocks after it and the
    data sectors, which can all be accessed. -/
structure Accessible (v : View) (disk : InodeDisk) (rest data : List Word) : Prop where
  chain : Chain v.sectors disk rest data
  blocks : ∀ s ∈ rest, s.toNat < v.tables.capacity
  usable : ∀ s ∈ data, s.toNat < v.tables.capacity ∧ s.msb = false
  apart : ∀ s ∈ data, s ∉ rest

theorem Accessible.of_onDisk {disk : InodeDisk} (chain : Chain v.sectors disk rest data)
    (onDisk : ∀ s ∈ rest ++ data, s.toNat < v.tables.capacity) (bounded : v.tables.capacity ≤ 2 ^ 28)
    (distinct : (rest ++ data).Nodup) : Accessible v disk rest data where
  chain := chain
  blocks s member := onDisk s (mem_append_left _ member)
  usable s member := by
    have below := onDisk s (mem_append_right _ member)
    refine ⟨below, ?_⟩
    rw [BitVec.msb_eq_false_iff_two_mul_lt]
    omega
  apart s member block := (nodup_append.mp distinct).2.2 s block s member rfl

variable {inode : Inode}

theorem inodeWriteData_yields (file : Accessible v inode.data rest data) (allowed : inode.denyWriteCnt = 0)
    (positive : 0 < buffer.length) (fits : offset + buffer.length ≤ 512 * data.length) :
    let tail := TailOnDisk v.tables.capacity (lastDisk v.sectors inode.data rest) 0 data.length
      (bytesToSectors (offset + buffer.length))
    Yields tail (inodeWriteData inode buffer offset) v fun written after => written = buffer.length ∧
      after = v.withSectors (storeAcross v.sectors data offset buffer) ∧ tail := by
  have inside : offset / 512 < data.length := by omega
  apply (referDisk_cursor file.chain file.blocks inside).bind
  intro refer after reached
  obtain ⟨sameView, later, fewer, cursor, sameLast⟩ := reached
  have member : ∀ {s}, s ∈ data.drop (offset / 512) → s ∈ data := fun taken => mem_of_mem_drop taken
  have looped := writeLoop_yields 0 cursor (fun s taken => file.blocks s (fewer taken))
    (fun s taken => file.usable s (member taken)) (fun s taken block => file.apart s (member taken) (fewer block))
    (mod_lt offset (by decide)) (by rw [length_drop]; omega) positive
  rw [sameView, if_neg (by omega)]
  simp only [sameLast, length_drop, tailOnDisk_whole inside, storeAcross_drop, zero_add] at looped
  exact looped

/-- A write that is denied, or of no bytes, reads the blocks up to its offset at most. -/
theorem inodeWriteData_idle (offset : Nat) (idle : 0 < inode.denyWriteCnt ∨ buffer = []) :
    Yields (v.Walks inode.data (offset / (512 * 123))) (inodeWriteData inode buffer offset) v fun written after =>
      written = 0 ∧ after = v ∧ v.Walks inode.data (offset / (512 * 123)) := by
  apply (referDisk_reads inode.data _).bind
  intro refer after walked
  rw [walked.1]
  split
  next => exact Yields.pure ⟨rfl, rfl, walked.2⟩
  next allowed =>
    rw [idle.resolve_left allowed, writeLoop_nil]
    exact Yields.pure ⟨rfl, rfl, walked.2⟩

theorem inodeReadAt_yields {sector : Word} (free : v.tables.inodeSysLock = false)
    (found : v.tables.openInodes.find? (fun i => i.sector == sector) = some inode)
    (chain : Chain v.sectors inode.data rest data) (blocks : ∀ s ∈ rest, s.toNat < v.tables.capacity)
    (usable : ∀ s ∈ data, s.toNat < v.tables.capacity ∧ s.msb = false)
    (covered : inode.data.length.toNat ≤ 512 * data.length) (size offset : Nat) :
    let taken := min size (inode.data.length.toNat - offset)
    let tail := 0 < taken → TailOnDisk v.tables.capacity (lastDisk v.sectors inode.data rest) 0 data.length
      (bytesToSectors (offset + taken))
    Yields tail (inodeReadAt sector size offset) v fun bytes after =>
      bytes = slice (bytesOf v.sectors data) offset taken ∧ after = v ∧ tail := by
  intro taken tail
  apply (lockAcquire_returns free).bind
  apply (findInode_returns (v := v.withLock true) found).bind
  apply lockRelease_returns.bind
  rw [View.withLock_withLock, View.withLock_self free]
  by_cases past : offset ≥ inode.data.length.toNat
  · have none : taken = 0 := by omega
    rw [if_pos past]
    refine Yields.pure ⟨by simp [none, slice], rfl, fun some => ?_⟩
    omega
  have inside : offset / 512 < data.length := by omega
  have clamped : (if inode.data.length.toNat - offset > size then size else inode.data.length.toNat - offset) =
      taken := by
    split <;> omega
  rw [if_neg past, clamped]
  apply (referDisk_cursor chain blocks inside).bind
  intro refer after reached
  obtain ⟨sameView, later, fewer, cursor, sameLast⟩ := reached
  rw [sameView]
  by_cases none : taken = 0
  · rw [none, readLoop_zero]
    refine Yields.pure ⟨by simp [slice], rfl, fun some => ?_⟩
    omega
  · have looped := readLoop_yields [] cursor (fun s member => blocks s (fewer member))
      (fun s member => usable s (mem_of_mem_drop member)) (Nat.mod_lt offset (by decide))
      (show offset % 512 + taken ≤ _ by rw [length_drop]; omega) (Nat.pos_of_ne_zero none)
    simp only [sameLast, length_drop, tailOnDisk_whole inside, slice_bytesOf_drop _ (Nat.le_of_lt inside),
      nil_append] at looped
    apply (looped.weaken fun holds => holds (Nat.pos_of_ne_zero none)).mono
    intro bytes after read
    exact ⟨read.1, read.2.1, fun _ => read.2.2⟩

end Pintos.Filesys
