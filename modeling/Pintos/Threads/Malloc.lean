import Mathlib.Tactic.Ring

/-! # Sizes of heap blocks

`malloc`, `calloc` and `realloc`, as far as the size of a block depends on them.  Each takes whether the free list has a
block for it, or the page allocator the pages.
-/

namespace Pintos.Threads

/-- What `block_size` reads of an arena: the size of the blocks, or the pages of a big block. -/
inductive Arena
  | desc (blockSize : BitVec 32)
  | big (freeCnt : BitVec 32)
  deriving DecidableEq

def Arena.blockSize : Arena → BitVec 32
  | desc blockSize => blockSize
  | big freeCnt => 4096 * freeCnt - 12

/-- The block sizes of the descriptors, as `malloc_init` leaves them. -/
def descs : List (BitVec 32) :=
  [16, 32, 64, 128, 256, 512, 1024]

variable (available : Bool) (size a b : BitVec 32)

def malloc : Option Arena :=
  if size = 0 then none
  else
    match descs.find? (size ≤ ·) with
    | some blockSize => if available then some (.desc blockSize) else none
    | none =>
      let pageCnt := (size + 12 + 4096 - 1) / 4096
      -- `palloc_get_multiple` has nothing to give for no pages.
      if available ∧ pageCnt ≠ 0 then some (.big pageCnt) else none

def calloc : Option Arena :=
  if a * b < a ∨ a * b < b then none else malloc available (a * b)

/-- The old block is copied and freed afterwards. -/
def realloc : Option Arena :=
  if size = 0 then none else malloc available size

variable {available size a b} {arena : Arena}

theorem malloc_size (fits : size.toNat + 12 ≤ 2 ^ 32) (allocated : malloc available size = some arena) :
    size.toNat ≤ arena.blockSize.toNat := by
  unfold malloc at allocated
  split at allocated
  next => cases allocated
  split at allocated
  next found =>
    split_ifs at allocated
    cases allocated
    exact BitVec.le_def.mp (of_decide_eq_true (List.find?_some found :))
  next =>
    -- The sum with the size of a page wraps to less than a page, and then there are no pages.
    dsimp only at allocated
    split_ifs at allocated with taken
    cases allocated
    have pages := BitVec.toNat_ne.mp taken.2
    simp [Arena.blockSize, BitVec.toNat_sub] at pages ⊢
    omega

/-- The pages that `malloc` asks for are counted as none. -/
def roundsToNone (size : BitVec 32) : Prop :=
  2 ^ 32 < size.toNat + 12 + 4096 ∧ size.toNat + 12 ≤ 2 ^ 32

theorem malloc_isSome (positive : size ≠ 0) (counted : ¬ roundsToNone size) :
    ∃ arena, malloc true size = some arena := by
  unfold malloc
  rw [if_neg positive]
  split
  next => exact ⟨_, rfl⟩
  next =>
    refine ⟨_, if_pos ⟨rfl, BitVec.toNat_ne.mpr ?_⟩⟩
    have bound := size.isLt
    simp only [roundsToNone, not_and, not_le] at counted
    simp [BitVec.toNat_sub]
    omega

theorem malloc_rounds (none : roundsToNone size) : malloc available size = .none := by
  obtain ⟨large, small⟩ := none
  have noPages : (size + 12 + 4096 - 1) / 4096 = 0 := by
    apply BitVec.eq_of_toNat_eq
    simp [BitVec.toNat_sub]
    omega
  have noDesc : descs.find? (size ≤ ·) = .none := by
    simp [descs, BitVec.le_def]
    omega
  unfold malloc
  rw [noDesc]
  simp only [noPages, ne_eq, not_true_eq_false, and_false, if_false, ite_self]

/-- With the header wrapped around, one page is taken. -/
theorem malloc_wraps (wraps : 2 ^ 32 < size.toNat + 12) : ∃ arena, malloc true size = some arena ∧
    arena.blockSize.toNat < size.toNat := by
  have onePage : (size + 12 + 4096 - 1) / 4096 = 1 := by
    apply BitVec.eq_of_toNat_eq
    simp [BitVec.toNat_sub]
    omega
  have noDesc : descs.find? (size ≤ ·) = none := by
    simp [descs, BitVec.le_def]
    omega
  have positive : size ≠ 0 := by
    rintro rfl
    simp at wraps
  refine ⟨.big 1, ?_, ?_⟩
  · unfold malloc
    rw [if_neg positive, noDesc]
    simp only [onePage, if_pos (show True ∧ (1 : BitVec 32) ≠ 0 by decide)]
  · simp only [Arena.blockSize, show (4096 * 1 - 12 : BitVec 32).toNat = 4084 from rfl]
    omega

theorem malloc_unavailable : malloc false size = none := by
  unfold malloc
  split
  · rfl
  · split <;> rfl

theorem malloc_size_iff : (∀ arena, malloc available size = some arena → size.toNat ≤ arena.blockSize.toNat) ↔
    (available = true → size.toNat + 12 ≤ 2 ^ 32) := by
  constructor
  · rintro large rfl
    by_contra wraps
    obtain ⟨arena, allocated, small⟩ := malloc_wraps (not_le.mp wraps)
    exact absurd (large arena allocated) (not_le.mpr small)
  · intro fits arena allocated
    cases available with
    | true => exact malloc_size (fits rfl) allocated
    | false => simp [malloc_unavailable] at allocated

/-- The three functions give at least what was asked for exactly if the sum with the header and the product do not
wrap unnoticed: a wrapped product is noticed if it is below a factor, or if it is rounded up to no pages. -/
theorem allocated_size :
    ((∀ arena, malloc available size = some arena → size.toNat ≤ arena.blockSize.toNat) ↔
      (available = true → size.toNat + 12 ≤ 2 ^ 32)) ∧
    ((∀ arena, calloc available a b = some arena → a.toNat * b.toNat ≤ arena.blockSize.toNat) ↔
      (available = true → a * b < a ∨ a * b < b ∨ roundsToNone (a * b) ∨ a.toNat * b.toNat + 12 ≤ 2 ^ 32)) ∧
    ((∀ arena, realloc available size = some arena → size.toNat ≤ arena.blockSize.toNat) ↔
      (available = true → size.toNat + 12 ≤ 2 ^ 32)) := by
  refine ⟨malloc_size_iff, ?_, ?_⟩
  · unfold calloc
    split_ifs with below
    · simp [or_assoc.symm, below]
    obtain ⟨notBelow, notBelow'⟩ := not_or.mp below
    simp only [notBelow, notBelow', false_or]
    constructor
    · rintro large rfl
      by_contra unnoticed
      obtain ⟨counted, wraps⟩ := not_or.mp unnoticed
      have positive : a * b ≠ 0 := by
        intro zero
        simp only [zero, BitVec.lt_def, not_lt] at notBelow notBelow'
        simp_all
      obtain ⟨arena, allocated⟩ := malloc_isSome positive counted
      have product : (a * b).toNat = a.toNat * b.toNat := by
        rw [BitVec.toNat_mul, Nat.mod_eq_of_lt ((large arena allocated).trans_lt arena.blockSize.isLt)]
      obtain ⟨arena, allocated, small⟩ := malloc_wraps (product ▸ not_le.mp wraps)
      exact absurd (large arena allocated) (not_le.mpr (product ▸ small))
    · intro noticed arena allocated
      cases available with
      | false => simp [malloc_unavailable] at allocated
      | true =>
        cases noticed rfl with
        | inl none => simp [malloc_rounds none] at allocated
        | inr fits =>
          have product : (a * b).toNat = a.toNat * b.toNat := by
            rw [BitVec.toNat_mul, Nat.mod_eq_of_lt (by omega)]
          exact product ▸ malloc_size (product ▸ fits) allocated
  · unfold realloc
    split_ifs with zero
    · simp [zero]
    · exact malloc_size_iff

/-- The sum with the header wraps, and so does a product that is not below its factors. -/
theorem allocated_size_wraps : malloc true 0xFFFFFFF5 = some (.big 1) ∧ (Arena.big 1).blockSize < 0xFFFFFFF5 ∧
    calloc true 65537 65537 = some (.big 33) ∧ (Arena.big 33).blockSize.toNat < 65537 * 65537 := by
  decide

end Pintos.Threads
