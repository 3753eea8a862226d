import Pintos.Library.Splice
import Mathlib.Data.List.Nodup
import Mathlib.Data.List.Range
import Mathlib.Data.Nat.Bitwise

/-! # Bitmaps (`lib/kernel/bitmap.c`)

A bitmap is its list of bits; `bit_cnt` is the length.  In a file the bits are stored as `elem_type`, an
`unsigned long` of four bytes, least significant byte first, so bit `i` is bit `i % 8` of byte `i / 8` and
the bits past `bit_cnt` in the last element are zero.
-/

namespace Pintos.Kernel

open Library List Nat

abbrev Bitmap := List Bool

/-- `bitmap_create`, after `bitmap_set_all (b, false)`. -/
def bitmapCreate (bitCnt : Nat) : Bitmap :=
  replicate bitCnt false

def bitmapMark (b : Bitmap) (bitIdx : Nat) : Bitmap :=
  b.set bitIdx true

/-- `bitmap_set_multiple`; the callers have checked that the range is inside the bitmap. -/
def bitmapSetMultiple (b : Bitmap) (start cnt : Nat) (value : Bool) : Bitmap :=
  splice b start (replicate cnt value)

def bitmapContains (b : Bitmap) (start cnt : Nat) (value : Bool) : Bool :=
  (slice b start cnt).any (· == value)

def bitmapAll (b : Bitmap) (start cnt : Nat) : Bool :=
  !bitmapContains b start cnt false

/-- `BITMAP_ERROR` is `none`. -/
def bitmapScan (b : Bitmap) (start cnt : Nat) (value : Bool) : Option Nat :=
  if cnt ≤ b.length then
    (range' start (b.length - cnt + 1 - start)).find? fun i => !bitmapContains b i cnt (!value)
  else none

def bitmapScanAndFlip (b : Bitmap) (start cnt : Nat) (value : Bool) : Option (Nat × Bitmap) :=
  (bitmapScan b start cnt value).map fun idx => (idx, bitmapSetMultiple b idx cnt (!value))

/-- `byte_cnt`, which is also `bitmap_file_size`. -/
def byteCnt (bitCnt : Nat) : Nat :=
  4 * ((bitCnt + 31) / 32)

/-- `b->bits` as bytes. -/
def bitmapBytes (b : Bitmap) : List UInt8 :=
  (range (byteCnt b.length)).map fun k => UInt8.ofNat ((slice b (8 * k) 8).foldr bit 0)

/-- What `bitmap_read` makes of the bytes of the file, with the last element masked. -/
def bitmapOfBytes (bitCnt : Nat) (bytes : List UInt8) : Bitmap :=
  (range bitCnt).map fun i => ((bytes[i / 8]?).getD 0).toNat.testBit (i % 8)

theorem testBit_foldr_bit (bits : List Bool) (i : Nat) : (bits.foldr bit 0).testBit i = (bits[i]?).getD false := by
  induction bits generalizing i with
  | nil => simp
  | cons bit bits ih =>
    cases i with
    | zero => simp
    | succ i => simpa [testBit_bit_succ] using ih i

@[simp] theorem length_bitmapBytes (b : Bitmap) : (bitmapBytes b).length = byteCnt b.length := by
  simp [bitmapBytes]

@[simp] theorem bitmapOfBytes_bitmapBytes (b : Bitmap) : bitmapOfBytes b.length (bitmapBytes b) = b := by
  apply ext_getElem
  · simp [bitmapOfBytes]
  · intro i bound inside
    have stored : i / 8 < byteCnt b.length := by
      unfold byteCnt
      omega
    have low : i % 8 < 8 := mod_lt _ (by decide)
    have whole : 8 * (i / 8) + i % 8 = i := div_add_mod i 8
    have bit := testBit_foldr_bit (slice b (8 * (i / 8)) 8) (i % 8)
    rw [getElem?_slice, if_pos low, whole, getElem?_eq_getElem inside, Option.getD_some] at bit
    have kept : ∀ n : Nat, (n % 256).testBit (i % 8) = n.testBit (i % 8) := by
      intro n
      simpa [low] using testBit_mod_two_pow n 8 (i % 8)
    simp [bitmapOfBytes, bitmapBytes, stored, kept, bit]

/-! ## One bit at a time -/

/-- The clear bits, in the order `bitmap_scan` meets them. -/
def clearBits (b : Bitmap) : List Nat :=
  (range b.length).filter fun i => b[i]? == some false

variable {b : Bitmap} {i : Nat} {rest : List Nat}

theorem mem_clearBits : i ∈ clearBits b ↔ b[i]? = some false := by
  simp only [clearBits, mem_filter, mem_range, beq_iff_eq, and_iff_right_iff_imp]
  intro clear
  exact (List.getElem?_eq_some_iff.mp clear).1

theorem nodup_clearBits (b : Bitmap) : (clearBits b).Nodup :=
  nodup_range.filter _

theorem bitmapSetMultiple_one (b : Bitmap) (i : Nat) (value : Bool) :
    bitmapSetMultiple b i 1 value = b.set i value := by
  apply ext_getElem?
  intro j
  rw [bitmapSetMultiple, getElem?_splice, getElem?_set]
  by_cases same : i = j
  · subst same
    by_cases inside : i < b.length <;> simp [inside]
  · rw [if_neg same]
    cases b[j]? with
    | none => rfl
    | some x =>
      by_cases before : j < i
      · simp [before]
      · have past : j - i ≠ 0 := by omega
        simp [before, past]

theorem bitmapContains_one (value : Bool) (inside : i < b.length) : bitmapContains b i 1 value = (b[i] == value) := by
  have first : slice b i 1 = [b[i]] := by
    rw [slice, drop_eq_getElem_cons inside]
    rfl
  simp [bitmapContains, first]

theorem bitmapScan_clear (b : Bitmap) : bitmapScan b 0 1 false = (clearBits b).head? := by
  unfold bitmapScan
  split
  next fits =>
    rw [clearBits, head?_filter, ← range_eq_range', Nat.sub_zero, Nat.sub_add_cancel fits]
    rw [← head?_filter, ← head?_filter]
    congr 1
    apply filter_congr
    intro i member
    have inside := mem_range.mp member
    rw [bitmapContains_one _ inside, getElem?_eq_getElem inside]
    cases b[i] <;> rfl
  next small =>
    have empty : b = [] := eq_nil_of_length_eq_zero (by omega)
    simp [empty, clearBits]

theorem bitmapScanAndFlip_nil (none : clearBits b = []) : bitmapScanAndFlip b 0 1 false = Option.none := by
  simp [bitmapScanAndFlip, bitmapScan_clear, none]

theorem bitmapScanAndFlip_cons (clear : clearBits b = i :: rest) :
    bitmapScanAndFlip b 0 1 false = some (i, bitmapMark b i) := by
  simp [bitmapScanAndFlip, bitmapScan_clear, clear, bitmapSetMultiple_one, bitmapMark]

theorem bitmapScanAndFlip_some {b' : Bitmap} (found : bitmapScanAndFlip b 0 1 false = some (i, b')) :
    b[i]? = some false ∧ b' = b.set i true := by
  cases clear : clearBits b with
  | nil => rw [bitmapScanAndFlip_nil clear] at found; cases found
  | cons j rest =>
    rw [bitmapScanAndFlip_cons clear] at found
    cases found
    exact ⟨mem_clearBits.mp (by simp [clear]), rfl⟩

theorem clearBits_mark (clear : clearBits b = i :: rest) : clearBits (bitmapMark b i) = rest := by
  have distinct := nodup_clearBits b
  rw [clear] at distinct
  have first : i ∉ rest := (nodup_cons.mp distinct).1
  have removed : clearBits (bitmapMark b i) = (clearBits b).filter fun j => j != i := by
    rw [clearBits, clearBits, filter_filter, bitmapMark, length_set]
    apply filter_congr
    intro j member
    have inside := mem_range.mp member
    by_cases same : j = i
    · subst same
      simp [inside]
    · simp [getElem?_set_ne (Ne.symm same), same]
  rw [removed, clear, filter_cons_of_neg (by simp), filter_eq_self]
  intro j member
  have other : j ≠ i := fun same => first (same ▸ member)
  simpa using other

end Pintos.Kernel
