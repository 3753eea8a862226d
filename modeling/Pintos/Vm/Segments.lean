import Pintos.Vm.Paging

/-! # Program segments

`load` turns a program header into records of the supplementary page table.  The fields of the header come from the
executable, and the computation is in 32-bit words.
-/

namespace Pintos.Vm

/-- `struct Elf32_Phdr`, with the fields that `load` uses for a segment. -/
structure Elf32Phdr where
  pOffset : Fin (2 ^ 32)
  pVaddr : Fin (2 ^ 32)
  pFilesz : Fin (2 ^ 32)
  pMemsz : Fin (2 ^ 32)
  pFlags : Fin (2 ^ 32)

def validateSegment (phdr : Elf32Phdr) (fileLength : Nat) : Bool :=
  if phdr.pOffset.val % pgSize ≠ phdr.pVaddr % pgSize then false
  else if fileLength < phdr.pOffset then false
  else if phdr.pMemsz < phdr.pFilesz then false
  else if phdr.pMemsz.val = 0 then false
  else if physBase ≤ phdr.pVaddr then false
  else if physBase ≤ (phdr.pVaddr + phdr.pMemsz : Nat) % 2 ^ 32 then false
  else if (phdr.pVaddr + phdr.pMemsz : Nat) % 2 ^ 32 < phdr.pVaddr then false
  else if phdr.pVaddr < pgSize then false
  else true

/-- `ROUND_UP (x, PGSIZE)` -/
def roundUp (x : Nat) : Nat :=
  (x + (pgSize - 1)) % 2 ^ 32 / pgSize * pgSize

/-- The arguments of `load_segment`. -/
structure SegmentArguments where
  ofs : Nat
  upage : Nat
  readBytes : Nat
  zeroBytes : Nat
  writable : Bool

/-- The computation of `load` for a header of type `PT_LOAD`. -/
def Elf32Phdr.segment (phdr : Elf32Phdr) : SegmentArguments :=
  let pageOffset := phdr.pVaddr % pgSize
  let size := roundUp ((pageOffset + phdr.pMemsz) % 2 ^ 32)
  let readBytes := (pageOffset + phdr.pFilesz) % 2 ^ 32
  { ofs := phdr.pOffset / pgSize * pgSize
    upage := phdr.pVaddr / pgSize * pgSize
    readBytes := if 0 < phdr.pFilesz.val then readBytes else 0
    zeroBytes := if 0 < phdr.pFilesz.val then (size + (2 ^ 32 - readBytes)) % 2 ^ 32 else size
    writable := phdr.pFlags.val.testBit 1 }

/-- A record of the executable file, `struct page` before the page is loaded. -/
def segmentPage (file : File) (writable : Bool) (ofs readBytes : Nat) : Page where
  f := some file
  loadFilepos := ofs
  loadReadBytes := readBytes
  writable := writable
  swapOuted := false
  swapIndex := some 0
  mmaped := false

/-- The loop of `load_segment`; `malloc` has room for `memory` records. -/
def loadPages (file : File) (writable : Bool) (memory ofs upage readBytes zeroBytes : Nat) (table : PageTable) :
    Bool × PageTable :=
  if 0 < readBytes ∨ 0 < zeroBytes then
    let pageReadBytes := min readBytes pgSize
    let pageZeroBytes := pgSize - pageReadBytes
    match memory with
    | 0 => (false, table)
    | memory + 1 =>
      loadPages file writable memory ((ofs + pageReadBytes) % 2 ^ 32) ((upage + pgSize) % 2 ^ 32)
        (readBytes - pageReadBytes) ((zeroBytes + (2 ^ 32 - pageZeroBytes)) % 2 ^ 32)
        (table.insert upage (segmentPage file writable ofs pageReadBytes))
  else (true, table)

/-- `load_segment`, with the supplementary page table by address; `none` is a failed assertion. -/
def loadSegment (memory : Nat) (file : File) (segment : SegmentArguments) (table : PageTable) :
    Option (Bool × PageTable) :=
  if (segment.readBytes + segment.zeroBytes) % 2 ^ 32 % pgSize = 0 ∧ segment.upage % pgSize = 0 ∧
      segment.ofs % pgSize = 0 then
    some (loadPages file segment.writable memory segment.ofs segment.upage segment.readBytes segment.zeroBytes table)
  else none

variable {ofs n : Nat}

/-- The loop records one page after the other, and nothing else. -/
theorem loadPages_spec (file : File) (writable : Bool) {upage readBytes zeroBytes : Nat} (table : PageTable)
    (word : ofs < 2 ^ 32) (whole : readBytes + zeroBytes = n * pgSize) (inside : upage + n * pgSize ≤ physBase) :
    ∃ table', (∀ memory ≥ n, loadPages file writable memory ofs upage readBytes zeroBytes table = (true, table')) ∧
      (∀ j < n, table'.lookup (upage + j * pgSize) = some (segmentPage file writable
        ((ofs + min readBytes (j * pgSize)) % 2 ^ 32) (min (readBytes - j * pgSize) pgSize))) ∧
      ∀ a, (∀ j < n, a ≠ upage + j * pgSize) → table'.lookup a = table.lookup a := by
  simp only [pgSize, physBase] at *
  induction n generalizing ofs upage readBytes zeroBytes table with
  | zero =>
    refine ⟨table, fun memory _ => ?_, nofun, fun _ _ => rfl⟩
    rw [loadPages, if_neg (by omega)]
  | succ n ih =>
    obtain ⟨table', ends, pages, others⟩ := @ih ((ofs + min readBytes 4096) % 2 ^ 32) (upage + 4096)
      (readBytes - min readBytes 4096) (zeroBytes - (4096 - min readBytes 4096))
      (table.insert upage (segmentPage file writable ofs (min readBytes 4096)))
      (by omega) (by omega) (by omega)
    refine ⟨table', fun memory enough => ?_, fun j within => ?_, fun a notPage => ?_⟩
    · obtain ⟨memory, rfl⟩ := Nat.exists_eq_add_of_le' (show 1 ≤ memory by omega)
      have zero : (zeroBytes + (2 ^ 32 - (4096 - min readBytes 4096))) % 2 ^ 32 =
          zeroBytes - (4096 - min readBytes 4096) := by omega
      have next : (upage + 4096) % 2 ^ 32 = upage + 4096 := by omega
      rw [loadPages, if_pos (by omega)]
      simp only [pgSize, zero, next]
      exact ends memory (by omega)
    · cases j with
      | zero =>
        rw [others _ (by omega), Nat.zero_mul, Nat.add_zero, AList.lookup_insert, Nat.min_zero, Nat.add_zero,
          Nat.mod_eq_of_lt word, Nat.sub_zero]
      | succ j =>
        rw [show upage + (j + 1) * 4096 = upage + 4096 + j * 4096 by omega, pages j (by omega)]
        congr 2 <;> omega
    · rw [others a fun j within => ?_, AList.lookup_insert_ne]
      · simpa using notPage 0 (by omega)
      · have := notPage (j + 1) (by omega)
        omega

variable {phdr : Elf32Phdr} {fileLength : Nat} {table : PageTable} {s : State}

/-- Nothing wraps around in the computation for an accepted header. -/
theorem segment_exact (valid : validateSegment phdr fileLength = true) :
    phdr.pOffset.val % pgSize = phdr.pVaddr % pgSize ∧ phdr.pFilesz.val ≤ phdr.pMemsz ∧
      (phdr.pVaddr + phdr.pMemsz : Nat) < physBase ∧ pgSize ≤ phdr.pVaddr ∧
      phdr.segment.readBytes = (if 0 < phdr.pFilesz.val then phdr.pVaddr % pgSize + phdr.pFilesz else 0) ∧
      phdr.segment.readBytes + phdr.segment.zeroBytes =
        (phdr.pVaddr % pgSize + phdr.pMemsz + (pgSize - 1)) / pgSize * pgSize := by
  have wordVaddr := phdr.pVaddr.isLt
  have wordMemsz := phdr.pMemsz.isLt
  simp only [validateSegment, Fin.lt_def] at valid
  split_ifs at valid
  simp only [Elf32Phdr.segment, roundUp, pgSize, physBase] at *
  split <;> omega

/-- An accepted header passes the assertions of `load_segment`, whose records are the image of the segment: at each
address below `p_filesz` a byte of the file, and zeros behind them. -/
theorem loadSegment_image (valid : validateSegment phdr fileLength = true) (file : File) (table : PageTable) :
    phdr.segment.readBytes + phdr.segment.zeroBytes < 2 ^ 32 ∧ ∃ pages table',
      (∀ memory ≥ pages, loadSegment memory file phdr.segment table = some (true, table')) ∧
      (∀ a : Nat, table'.lookup a = table.lookup a ∨ a % pgSize = 0 ∧ pgSize ≤ a ∧ a < physBase) ∧
      ∀ k < phdr.pMemsz.val, ∃ page, table'.lookup ((phdr.pVaddr + k) / pgSize * pgSize) = some page ∧
        page.f = some file ∧
        if k < phdr.pFilesz then (phdr.pVaddr + k) % pgSize < page.loadReadBytes ∧
          (page.loadFilepos + (phdr.pVaddr + k) % pgSize) % 2 ^ 32 = (phdr.pOffset + k) % 2 ^ 32
        else page.loadReadBytes ≤ (phdr.pVaddr + k) % pgSize := by
  obtain ⟨offset, fits, inside, above, read, whole⟩ := segment_exact valid
  have upage : phdr.segment.upage = phdr.pVaddr / pgSize * pgSize := rfl
  have ofs : phdr.segment.ofs = phdr.pOffset / pgSize * pgSize := rfl
  have word := phdr.pOffset.isLt
  generalize phdr.segment = segment at *
  obtain ⟨n, pages⟩ : ∃ n, n = (phdr.pVaddr % pgSize + phdr.pMemsz + (pgSize - 1)) / pgSize := ⟨_, rfl⟩
  rw [← pages] at whole
  have fitsBelow : segment.ofs < 2 ^ 32 ∧ segment.upage + n * pgSize ≤ physBase ∧
      segment.readBytes + segment.zeroBytes < 2 ^ 32 := by
    simp only [pgSize, physBase] at *
    omega
  obtain ⟨table', ends, records, others⟩ :=
    loadPages_spec file segment.writable table fitsBelow.1 whole fitsBelow.2.1
  refine ⟨fitsBelow.2.2, n, table', fun memory enough => ?_, fun a => ?_, fun k within => ?_⟩
  · rw [loadSegment, if_pos, ends memory enough]
    simp only [pgSize, physBase] at *
    omega
  · by_cases page : ∃ j < n, a = segment.upage + j * pgSize
    · obtain ⟨j, within, rfl⟩ := page
      right
      simp only [pgSize, physBase] at *
      omega
    · exact .inl (others a fun j within same => page ⟨j, within, same⟩)
  · have record := records ((phdr.pVaddr % pgSize + k) / pgSize) (by simp only [pgSize] at *; omega)
    have at_ : segment.upage + (phdr.pVaddr % pgSize + k) / pgSize * pgSize = (phdr.pVaddr + k) / pgSize * pgSize := by
      simp only [pgSize] at *
      omega
    refine ⟨_, at_ ▸ record, rfl, ?_⟩
    simp only [segmentPage, pgSize, physBase] at *
    split at read <;> split <;> omega

/-- A header with 0x1234 bytes of the file, and 0x2000 bytes in memory from 0x8048100 on. -/
theorem loadSegment_image_example : ∃ phdr : Elf32Phdr, validateSegment phdr 0x2000 = true ∧
    ∃ pages table', (∀ memory ≥ pages, loadSegment memory 7 phdr.segment ∅ = some (true, table')) ∧
      ∃ page, table'.lookup 0x8049000 = some page ∧ 0 < page.loadReadBytes := by
  have valid : validateSegment ⟨0x100, 0x8048100, 0x1234, 0x2000, 6⟩ 0x2000 = true := by decide
  obtain ⟨-, pages, table', loads, -, image⟩ := loadSegment_image valid 7 ∅
  obtain ⟨page, found, -, byte⟩ := image 0xf00 (by decide)
  exact ⟨_, valid, pages, table', loads, page, found, Nat.zero_lt_of_lt byte.1⟩

/-! ## The segments of a process -/

/-- The loop by address and the one by page number record the same pages. -/
theorem loadPages_loadSegment (file : File) (writable : Bool) (pid : Pid) {upage readBytes zeroBytes memory : Nat}
    (whole : readBytes + zeroBytes = n * pgSize) (inside : upage + n ≤ userPages)
    (small : ofs + readBytes < 2 ^ 32) (enough : n ≤ memory)
    (same : ∀ u, table.lookup (u * pgSize) = s.pageLookup pid u) :
    ∃ table', loadPages file writable memory ofs (upage * pgSize) readBytes zeroBytes table = (true, table') ∧
      ∀ u, table'.lookup (u * pgSize) = (s.loadSegment pid file writable n ofs upage readBytes).pageLookup pid u := by
  induction n generalizing ofs upage readBytes zeroBytes memory table s with
  | zero =>
    refine ⟨table, ?_, same⟩
    rw [loadPages, if_neg (by omega)]
  | succ n ih =>
    obtain ⟨memory, rfl⟩ := Nat.exists_eq_add_of_le' (show 1 ≤ memory by omega)
    simp only [userPages, physBase, pgSize] at whole inside same ih ⊢
    have ofs' : (ofs + min readBytes 4096) % 2 ^ 32 = ofs + min readBytes 4096 := by omega
    have upage' : (upage * 4096 + 4096) % 2 ^ 32 = (upage + 1) * 4096 := by omega
    have zeroBytes' : (zeroBytes + (2 ^ 32 - (4096 - min readBytes 4096))) % 2 ^ 32 =
        zeroBytes - (4096 - min readBytes 4096) := by omega
    rw [loadPages, if_pos (by omega)]
    simp only [pgSize, ofs', upage', zeroBytes']
    refine ih (by omega) (by omega) (by omega) (by omega) fun u => ?_
    by_cases here : u = upage
    · subst here
      simp [State.pageLookup, State.addPage, State.replacePage, segmentPage, pgSize]
    · have other : u * 4096 ≠ upage * 4096 := by omega
      rw [AList.lookup_insert_ne other, same u]
      simp [State.pageLookup, State.addPage, State.replacePage, AList.lookup_insert_ne here]

/-- The pages of an accepted header are recorded as `State.loadSegment` records them. -/
theorem loadSegment_state (valid : validateSegment phdr fileLength = true)
    (small : phdr.segment.ofs + phdr.segment.readBytes < 2 ^ 32) (file : File) (pid : Pid)
    (same : ∀ u, table.lookup (u * pgSize) = s.pageLookup pid u) :
    ∃ pages, ∀ memory ≥ pages, ∃ table', loadSegment memory file phdr.segment table = some (true, table') ∧
      ∀ u, table'.lookup (u * pgSize) = (s.loadSegment pid file phdr.segment.writable pages phdr.segment.ofs
        (phdr.pVaddr / pgSize) phdr.segment.readBytes).pageLookup pid u := by
  obtain ⟨-, -, inside, -, -, whole⟩ := segment_exact valid
  generalize count : (phdr.pVaddr % pgSize + phdr.pMemsz + (pgSize - 1)) / pgSize = n at whole
  have fits : phdr.pVaddr / pgSize + n ≤ userPages := by
    simp only [pgSize, physBase, userPages] at *
    omega
  refine ⟨n, fun memory enough => ?_⟩
  obtain ⟨table', loads, pages⟩ := loadPages_loadSegment file phdr.segment.writable pid whole fits small enough same
  refine ⟨table', ?_, pages⟩
  rw [loadSegment, if_pos]
  · exact congrArg some loads
  · simp only [Elf32Phdr.segment, pgSize, physBase] at *
    omega

end Pintos.Vm
