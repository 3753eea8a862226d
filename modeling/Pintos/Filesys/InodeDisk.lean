import Pintos.Filesys.Cache

/-! # The on-disk inode (`struct inode_disk` of `filesys/inode.c`)

The linked layout of the `PRJ4` build: every inode block names up to 123 data sectors and, in `indirect`,
the next inode block of the same file.  The struct is 128 words, stored least significant byte first.
-/

namespace Pintos.Filesys

/-- The four bytes of a word in memory. -/
def wordBytes (w : Word) : List UInt8 :=
  [UInt8.ofNat w.toNat, UInt8.ofNat (w.toNat / 256), UInt8.ofNat (w.toNat / 65536), UInt8.ofNat (w.toNat / 16777216)]

def bytesWord (b0 b1 b2 b3 : UInt8) : Word :=
  BitVec.ofNat 32 (b0.toNat + 256 * b1.toNat + 65536 * b2.toNat + 16777216 * b3.toNat)

def bytesWords : List UInt8 → List Word
  | b0 :: b1 :: b2 :: b3 :: rest => bytesWord b0 b1 b2 b3 :: bytesWords rest
  | _ => []

open List in
theorem bytesWords_wordBytes (words : List Word) : bytesWords (words.flatMap wordBytes) = words := by
  induction words with
  | nil => rfl
  | cons w words ih =>
    have whole : bytesWord (UInt8.ofNat w.toNat) (UInt8.ofNat (w.toNat / 256)) (UInt8.ofNat (w.toNat / 65536))
        (UInt8.ofNat (w.toNat / 16777216)) = w := by
      apply BitVec.eq_of_toNat_eq
      have bound := w.isLt
      simp only [bytesWord, UInt8.toNat_ofNat', BitVec.toNat_ofNat]
      omega
    simp only [flatMap_cons, wordBytes, cons_append, nil_append, bytesWords, whole, ih]

open List in
theorem length_flatMap_wordBytes (words : List Word) : (words.flatMap wordBytes).length = 4 * words.length := by
  induction words with
  | nil => rfl
  | cons w words ih =>
    simp only [flatMap_cons, length_append, ih, length_cons]
    simp only [wordBytes, length_cons, length_nil]
    omega

instance neZeroDirectNo : NeZero 123 := ⟨by decide⟩

/-- `struct inode_disk`; `DIRECT_NO` is 123.  `length` is an `off_t` and is never negative. -/
@[ext] structure InodeDisk where
  sector : Word
  info : Word
  length : Word
  direct : Vector Word 123
  indirect : Word
  magic : Word
  deriving DecidableEq

open List

def inodeMagic : Word := 0x494e4f44

namespace InodeDisk

def encode (disk : InodeDisk) : List UInt8 :=
  ([disk.sector, disk.info, disk.length] ++ disk.direct.toList ++ [disk.indirect, disk.magic]).flatMap wordBytes

def decode (bytes : List UInt8) : InodeDisk :=
  let words := bytesWords bytes
  { sector := words.getD 0 0
    info := words.getD 1 0
    length := words.getD 2 0
    direct := Vector.ofFn fun i => words.getD (i + 3) 0
    indirect := words.getD 126 0
    magic := words.getD 127 0 }

@[simp] theorem length_encode (disk : InodeDisk) : disk.encode.length = 512 := by
  rw [encode, length_flatMap_wordBytes]
  simp

@[simp] theorem decode_encode (disk : InodeDisk) : decode disk.encode = disk := by
  have past : ∀ k, 126 ≤ k → ([disk.sector, disk.info, disk.length] ++ disk.direct.toList ++
      [disk.indirect, disk.magic]).getD k 0 = [disk.indirect, disk.magic].getD (k - 126) 0 := by
    intro k late
    simp only [getD_eq_getElem?_getD]
    rw [getElem?_append_right (by simpa using late)]
    simp
  rw [decode, encode, bytesWords_wordBytes]
  apply InodeDisk.ext
  case sector => rfl
  case info => rfl
  case length => rfl
  case direct =>
    apply Vector.ext
    intro i bound
    simp [getElem?_append]
  case indirect => exact past 126 (Nat.le_refl _)
  case magic => exact past 127 (by omega)

end InodeDisk

/-- What a sector holds, read as an inode block. -/
def Sector.inodeDisk (sector : Sector) : InodeDisk :=
  InodeDisk.decode sector.bytes

/-- The sector that `buffer_cache_write (…, disk, DISK_SECTOR_SIZE, 0)` leaves. -/
def Sector.ofInodeDisk (disk : InodeDisk) : Sector where
  bytes := disk.encode
  length_bytes := disk.length_encode

@[simp] theorem inodeDisk_ofInodeDisk (disk : InodeDisk) : (Sector.ofInodeDisk disk).inodeDisk = disk :=
  disk.decode_encode

theorem inodeDisk_zeros_indirect : Sector.zeros.inodeDisk.indirect = 0 := by
  decide +kernel

end Pintos.Filesys
