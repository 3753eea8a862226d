import Mathlib.Data.List.TakeWhile
import Mathlib.Data.Vector.Defs
import Pintos.Filesys.Directory
import Pintos.Library.Records
import Pintos.Library.Slots

/-! # Directories as files (`filesys/directory.c`)

The bytes of one directory under `dir_add`, `dir_remove` and `dir_lookup`.  `inode_read_at` and `inode_write_at` read
and write an array of bytes that grows.
-/

namespace Pintos.DirectoryFile

open Library Directory
open List hiding Vector

/-- A string without its null terminator. -/
@[ext] structure CString where
  chars : List UInt8
  terminated : 0 ∉ chars
  deriving DecidableEq

/-- `struct dir_entry` -/
structure DirEntry where
  inodeSector : UInt32
  name : Vector UInt8 (nameMax + 1)
  inUse : Bool
  level : UInt32
  deriving DecidableEq

/-! ## The layout of an entry -/

/-- The little-endian bytes of a word. -/
def wordBytes (w : UInt32) : List UInt8 :=
  (range 4).map fun i => UInt8.ofNat (w.toNat / 256 ^ i)

/-- The word that starts with the given bytes. -/
def word (bytes : List UInt8) : UInt32 :=
  UInt32.ofNat ((bytes.getD 0 0).toNat + 256 * (bytes.getD 1 0).toNat + 65536 * (bytes.getD 2 0).toNat +
    16777216 * (bytes.getD 3 0).toNat)

theorem word_wordBytes (w : UInt32) (rest : List UInt8) : word (wordBytes w ++ rest) = w := by
  apply UInt32.toNat_inj.mp
  have bound := w.toNat_lt
  simp [word, wordBytes, range_succ]
  omega

theorem length_wordBytes (w : UInt32) : (wordBytes w).length = 4 :=
  rfl

/-- The characters of an array at the start of the given bytes. -/
def nameBytes (bytes : List UInt8) : Vector UInt8 (nameMax + 1) :=
  Vector.ofFn fun i => bytes.getD i 0

theorem nameBytes_toList (name : Vector UInt8 (nameMax + 1)) (rest : List UInt8) :
    nameBytes (name.toList ++ rest) = name := by
  apply Vector.ext
  intro i inside
  have inList : i < name.toList.length := by rwa [Vector.length_toList]
  rw [nameBytes, Vector.getElem_ofFn, getD_append _ _ _ _ inList, getD_eq_getElem _ _ inList, Vector.getElem_toList]

/-- `inode_sector` at 0, `name` at 4, `in_use` at 19 and `level` at 20. -/
def layout : Codec UInt8 DirEntry where
  size := entrySize
  encode e := wordBytes e.inodeSector ++ (e.name.toList ++ ((if e.inUse then 1 else 0) :: wordBytes e.level))
  decode bytes :=
    { inodeSector := word bytes, name := nameBytes (bytes.drop 4), inUse := (bytes.drop 19).headD 0 ≠ 0,
      level := word (bytes.drop 20) }
  size_pos := by decide
  length_encode e := by
    simp only [length_append, length_cons, length_wordBytes, Vector.length_toList]
    rfl
  decode_encode e := by
    generalize tail : (if e.inUse then (1 : UInt8) else 0) :: wordBytes e.level = rest
    have name : (wordBytes e.inodeSector ++ (e.name.toList ++ rest)).drop 4 = e.name.toList ++ rest :=
      drop_left' (length_wordBytes _)
    have inUse : (wordBytes e.inodeSector ++ (e.name.toList ++ rest)).drop 19 = rest := by
      rw [← drop_drop (i := 15) (j := 4), name]
      exact drop_left' Vector.length_toList
    have level : (wordBytes e.inodeSector ++ (e.name.toList ++ rest)).drop 20 = rest.drop 1 := by
      rw [← drop_drop (i := 1) (j := 19), inUse]
    rw [name, inUse, level, ← tail, word_wordBytes, nameBytes_toList, drop_one, tail_cons,
      ← append_nil (wordBytes e.level), word_wordBytes]
    have isUsed : decide ((if e.inUse then (1 : UInt8) else 0) ≠ 0) = e.inUse := by cases e.inUse <;> rfl
    rw [headD_cons, isUsed]

/-! ## Strings -/

/-- The string at the start of an array of characters. -/
def stringOf (chars : List UInt8) : CString where
  chars := chars.takeWhile (· ≠ 0)
  terminated isChar := by simpa using mem_takeWhile_imp isChar

/-- The string in `name`.  Each name that `dir_add` writes has its null terminator in the array. -/
def DirEntry.string (e : DirEntry) : CString :=
  stringOf e.name.toList

/-- `strlcpy`, to an array of `NAME_MAX + 1` characters. -/
def strlcpy (dst : Vector UInt8 (nameMax + 1)) (src : CString) : Vector UInt8 (nameMax + 1) :=
  let length := min src.chars.length nameMax
  nameBytes (src.chars.take length ++ 0 :: dst.toList.drop (length + 1))

theorem toList_nameBytes {bytes : List UInt8} (length : bytes.length = nameMax + 1) :
    (nameBytes bytes).toList = bytes := by
  apply ext_getElem
  · rw [Vector.length_toList, length]
  · intro i _ inside
    simp only [Vector.getElem_toList, nameBytes, Vector.getElem_ofFn, getD_eq_getElem _ _ inside]

/-- A string that is short enough is copied whole. -/
theorem stringOf_strlcpy {dst : Vector UInt8 (nameMax + 1)} {src : CString} (fits : src.chars.length ≤ nameMax) :
    stringOf (strlcpy dst src).toList = src := by
  have length : (src.chars ++ 0 :: dst.toList.drop (src.chars.length + 1)).length = nameMax + 1 := by
    rw [length_append, length_cons, length_drop, Vector.length_toList]
    omega
  have copied : (strlcpy dst src).toList = src.chars ++ 0 :: dst.toList.drop (src.chars.length + 1) := by
    rw [strlcpy, Nat.min_eq_left fits, take_length, toList_nameBytes length]
  have nonzero : ∀ c ∈ src.chars, decide (c ≠ 0) = true := fun c isChar =>
    decide_eq_true fun isZero => src.terminated (isZero ▸ isChar)
  cases src with
  | mk chars terminated =>
    simp only [stringOf, copied, CString.mk.injEq]
    rw [takeWhile_append_of_pos nonzero]
    simp

/-! ## The functions of a directory -/

/-- `lookup`.  Its local `e` is read only after a whole entry has been read into it. -/
def lookup (data : List UInt8) (name : CString) : Option (Nat × DirEntry) :=
  match layout.scan data (fun e => e.inUse && e.string = name) 0 [] with
  | (true, ofs, e) => some (ofs, layout.decode e)
  | (false, _, _) => none

/-- `dir_lookup`, without the `inode_open` of the sector. -/
def dirLookup (data : List UInt8) (name : CString) : Option UInt32 :=
  (lookup data name).map fun (_, e) => e.inodeSector

/-- `dir_add`, with the bytes that its local `e` has at first. -/
def dirAdd (e : List UInt8) (name : CString) (inodeSector : UInt32) (data : List UInt8) : Bool × List UInt8 :=
  -- Check NAME for validity.
  if name.chars = [] ∨ nameMax < name.chars.length then (false, data)
  -- Check that NAME is not in use.
  else if (lookup data name).isSome then (false, data)
  else
    -- Set OFS to offset of free slot, or of the end of the file.
    let (_, ofs, e) := layout.scan data (fun e => !e.inUse) 0 e
    let e := layout.decode e
    (true, writeAt data (layout.encode { e with inUse := true, name := strlcpy e.name name, inodeSector }) ofs)

/-- What `dir_remove` reads of the inodes of entries, and the current directory of its caller. -/
structure Inodes where
  isDirectory : UInt32 → Bool
  dirIsEmpty : UInt32 → Bool
  currentDir : UInt32

/-- The inodes that `dir_remove` does not remove. -/
def Inodes.keeps (inodes : Inodes) (sector : UInt32) : Bool :=
  sector = inodes.currentDir || (inodes.isDirectory sector && !inodes.dirIsEmpty sector)

/-- `dir_remove`, on the directory. -/
def dirRemove (inodes : Inodes) (name : CString) (data : List UInt8) : Bool × List UInt8 :=
  match lookup data name with
  | none => (false, data)
  | some (ofs, e) =>
    if inodes.keeps e.inodeSector then (false, data)
    else (true, writeAt data (layout.encode { e with inUse := false }) ofs)

def dot : CString := ⟨[46], by decide⟩

def dotDot : CString := ⟨[46, 46], by decide⟩

/-- `dir_create`, after `inode_create`. -/
def dirCreate (sector parent : UInt32) (entryCnt : Nat) (e e' : List UInt8) : Bool × List UInt8 :=
  let (addedDot, data) := dirAdd e dot sector (replicate (entryCnt * entrySize) 0)
  if addedDot then dirAdd e' dotDot parent data else (false, data)

end Pintos.DirectoryFile
