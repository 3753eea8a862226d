import Pintos.Filesys.FileSizes

/-! # The position of an open file (`filesys/file.c`)

Others use the file system between two operations on the file, so that each operation may meet any file system.
`file_write` adds what `inode_write_at` returns to the position, also where that is -1.
-/

namespace Pintos.Filesys

open Library Option

inductive FileOp
  | read (size : Word)
  | write (memory : List Activation) (buffer : Nat → UInt8) (size : Word)
  | seek (position : Word)
  | tell

namespace FileOp

def perform (fs : FileSys) (file : OpenFile) : FileOp → Option OpenFile
  | read size => (fileRead file size fs).map (·.1)
  | write memory buffer size => (fileWrite memory file buffer size fs).map (·.1)
  | seek position => fileSeek file position
  | tell => some file

/-- How many bytes an operation transfers: none where `inode_write_at` returns -1, and none to a directory. -/
def transferred (fs : FileSys) (file : OpenFile) : FileOp → Nat
  | read size => ((inodeReadAtOff file.inode size file.pos fs).map (·.1.length)).getD 0
  | write memory buffer size =>
    if (findInode file.inode fs).any (isDirectory ·.1.data.info) then 0
    else ((inodeWriteAtOff memory file.inode buffer size file.pos fs).map (·.1.toNat)).getD 0
  | _ => 0

/-- Where the position should be then. -/
def expected (fs : FileSys) (file : OpenFile) (before : Nat) : FileOp → Nat
  | seek position => position.toNat
  | op => before + op.transferred fs file

/-- A write that extends the file finds a sector for a block after a full one, and its activations get what they
    need. -/
def Fits (fs : FileSys) (file : OpenFile) : FileOp → Prop
  | write memory buffer size => ∀ inode, fs.tables.openInodes.find? (fun i => i.sector == file.inode) = some inode →
    isDirectory inode.data.info = false →
    file.pos.toNat ≥ inode.data.length.toNat ∧ (bytesAt buffer size).length > 0 →
      (inode.Full → BlockAvailable (view fs)) ∧
      AllRun memory (inode.nesting (file.pos.toNat + (bytesAt buffer size).length))
  | _ => True

end FileOp

/-- A file after operations on it, and the position it should have: that of the last seek and what has been transferred
    since. -/
inductive Operated (start : OpenFile) : OpenFile → Nat → Prop
  | start : Operated start start start.pos.toNat
  | step {file next before fs} {op : FileOp} (operated : Operated start file before) (fits : op.Fits fs file)
      (performed : op.perform fs file = some next) : Operated start next (op.expected fs file before)

variable {file next start : OpenFile} {fs after : FileSys} {before : Nat}

/-- What is transferred is added to a position that is as it should be. -/
theorem OpenFile.moved {bytes : Int} {mid : FileSys} (pos : file.pos.toInt = before) (nonneg : 0 ≤ bytes)
    (ran : (match file.advance bytes with | none => failure | some file => pure file : FsM OpenFile) mid =
      some (next, after)) : next.pos.toInt = (before + bytes.toNat : Nat) := by
  unfold advance at ran
  split_ifs at ran with small
  · cases ran
  · cases ran
    show (BitVec.ofInt 32 (file.pos.toInt + bytes)).toInt = _
    rw [BitVec.toInt_ofInt, Int.bmod_eq_of_le] <;> omega

/-- What a write returns is added to the position. -/
theorem perform_write {head pos size : Word} {buffer : Nat → UInt8} {bytes : Int} {inode : Inode}
    (isFound : fs.tables.openInodes.find? (fun i => i.sector == head) = some inode)
    (plain : isDirectory inode.data.info = false)
    (wrote : inodeWriteAtOff [] head buffer size pos fs = some (bytes, after)) (small : pos.toInt + bytes < 2 ^ 31) :
    (FileOp.write [] buffer size).perform fs ⟨head, pos, false⟩ =
        some ⟨head, BitVec.ofInt 32 (pos.toInt + bytes), false⟩ ∧
      (FileOp.write [] buffer size).transferred fs ⟨head, pos, false⟩ = bytes.toNat := by
  have found := findInode_eq isFound
  have advanced : OpenFile.advance ⟨head, pos, false⟩ bytes = some ⟨head, BitVec.ofInt 32 (pos.toInt + bytes), false⟩ :=
    if_neg (not_le.mpr small)
  constructor
  · simp [FileOp.perform, fileWrite, bind, StateT.bind, found, plain, wrote, advanced]
    exact ⟨after, rfl⟩
  · simp [FileOp.transferred, found, plain, wrote]

/-- A write to a file of one byte, whose block is not full. -/
theorem Operated.write {head pos size : Word} {buffer : Nat → UInt8} {bytes : Int} {inode : Inode}
    (operated : Operated start ⟨head, pos, false⟩ before)
    (isFound : fs.tables.openInodes.find? (fun i => i.sector == head) = some inode)
    (length : inode.data.length.toNat = 1) (plain : isDirectory inode.data.info = false)
    (wrote : inodeWriteAtOff [] head buffer size pos fs = some (bytes, after)) (small : pos.toInt + bytes < 2 ^ 31) :
    Operated start ⟨head, BitVec.ofInt 32 (pos.toInt + bytes), false⟩ (before + bytes.toNat) := by
  obtain ⟨performs, counts⟩ := perform_write isFound plain wrote small
  rw [← counts]
  refine operated.step ?_ performs
  intro seen isSeen _ _
  cases isFound.symm.trans isSeen
  have odd : ¬ inode.Full := by
    rw [Inode.Full, length]
    decide
  exact ⟨fun full => absurd full odd, allRun_nil _⟩

end Pintos.Filesys
