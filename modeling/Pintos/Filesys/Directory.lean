import Pintos.Filesys.Inode
import Pintos.Library.Transition

/-! # Directories and paths (`filesys/directory.c`, `filesys/filesys.c`, `SYS_MKDIR`)

A file is what a read of it as a directory finds: its whole `struct dir_entry`s, and the number of bytes after them.
Files are zero where they have not been written, and no file that is not a directory is written.  Memory allocations
succeed.  A function has no result where the kernel panics, where it reads a sector that is not an inode as one, and
where the data of a file does not fit on the disk or a directory outgrows its first inode block, because
`allocate_inode_disk` and `inode_write_at` then write to sectors that they have not got.
-/

namespace Pintos.Directory

open Kernel Filesys Function

/-- A sector number, which is also a pointer to the inode at that sector. -/
abbrev SectorNo := Nat

/-- A string. -/
abbrev Name := List Char

/-- The string of some bytes. -/
def characters (bytes : List UInt8) : Name :=
  bytes.map fun byte => Char.ofNat byte.toNat

theorem character_inj (byte byte' : UInt8) : Char.ofNat byte.toNat = Char.ofNat byte'.toNat ↔ byte = byte' := by
  have valid : ∀ byte : UInt8, byte.toNat.isValidChar := fun byte => .inl (by have := byte.toNat_lt; omega)
  rw [Char.ofNat, Char.ofNat, dif_pos (valid byte), dif_pos (valid byte'), Char.ext_iff, ← UInt32.toNat_inj,
    ← UInt8.toNat_inj]
  exact Iff.rfl

def nameMax : Nat := 14

def freeMapSector : SectorNo := 0

def rootDirSector : SectorNo := 1

/-- `sizeof (struct dir_entry)` -/
def entrySize : Nat := 24

def directNo : Nat := 123

def dot : Name := ['.']

def dotDot : Name := ['.', '.']

/-- `struct dir_entry`; no function reads `level`. -/
structure DirEntry where
  inodeSector : SectorNo
  name : Name
  inUse : Bool
  deriving DecidableEq, Repr

/-- An entry of zeros. -/
def DirEntry.zero : DirEntry where
  inodeSector := 0
  name := []
  inUse := false

/-- An inode, on the disk and, where it is open, in memory.  `sectors` are its data sectors and its inode blocks other
than the first. -/
structure Inode where
  isDirectory : Bool
  level : Nat
  entries : List DirEntry
  tail : Nat
  sectors : List SectorNo
  openCnt : Nat
  removed : Bool
  deriving DecidableEq, Repr

structure State where
  inodes : SectorNo → Option Inode
  freeMap : Bitmap
  -- The open files of all processes.
  files : List SectorNo

namespace Inode

def length (inode : Inode) : Nat :=
  entrySize * inode.entries.length + inode.tail

end Inode

/-- The loop of `lookup`, from an offset on. -/
def lookupFrom (name : Name) : Nat → List DirEntry → Option (Nat × DirEntry)
  | _, [] => none
  | ofs, e :: rest => if e.inUse ∧ e.name = name then some (ofs, e) else lookupFrom name (ofs + 1) rest

theorem lookupFrom_eq (name : Name) (ofs : Nat) (entries : List DirEntry) : lookupFrom name ofs entries =
    (entries.findIdx? fun e => e.inUse && e.name = name).bind fun i => entries[i]?.map (ofs + i, ·) := by
  induction entries generalizing ofs with
  | nil => rfl
  | cons first rest ih =>
    rw [lookupFrom, List.findIdx?_cons]
    by_cases here : first.inUse ∧ first.name = name
    · simp [here]
    · rw [if_neg here, ih, if_neg (by simpa using here)]
      cases rest.findIdx? _ <;> simp [Nat.add_assoc, Nat.add_comm 1]

/-- `lookup`, with offsets in entries. -/
def Inode.lookup (inode : Inode) (name : Name) : Option (Nat × DirEntry) :=
  lookupFrom name 0 inode.entries

def Inode.dirIsEmpty (inode : Inode) : Bool :=
  (inode.entries.drop 2).all fun e => !e.inUse

namespace State

def setInode (sector : SectorNo) (inode : Inode) (s : State) : State :=
  { s with inodes := update s.inodes sector (some inode) }

/-! ## The free map -/

def freeMapAllocate (s : State) : Option (SectorNo × State) :=
  (bitmapScanAndFlip s.freeMap 0 1 false).map fun (sector, freeMap) => (sector, { s with freeMap })

/-- `free_map_release`, of one sector after the other. -/
def freeMapRelease (sectors : List SectorNo) (s : State) : Option State :=
  let release : Bitmap → SectorNo → Option Bitmap := fun freeMap sector =>
    if freeMap[sector]? = some true then some (freeMap.set sector false) else none
  (sectors.foldlM release s.freeMap).map fun freeMap => { s with freeMap }

def allocateSectors : Nat → State → Option (List SectorNo × State)
  | 0, s => some ([], s)
  | count + 1, s => do
    let (sector, s) ← s.freeMapAllocate
    let (sectors, s) ← s.allocateSectors count
    some (sector :: sectors, s)

/-! ## Inodes -/

/-- `inode_create`.  Each inode block but the first takes a sector besides the data. -/
def inodeCreate (sector : SectorNo) (length : Nat) (isDirectory : Bool) (level : Nat) (s : State) : Option State := do
  let dataSectors := bytesToSectors length
  let (sectors, s) ← s.allocateSectors (dataSectors + (dataSectors - 1) / directNo)
  some (s.setInode sector
    { isDirectory, level, entries := List.replicate (length / entrySize) .zero, tail := length % entrySize, sectors
      openCnt := 0, removed := false })

def inodeOpen (sector : SectorNo) (s : State) : Option State :=
  (s.inodes sector).map fun inode => s.setInode sector { inode with openCnt := inode.openCnt + 1 }

/-- `release_inode_disk`, and `free_map_release` of the first inode block. -/
def inodeRelease (sector : SectorNo) (s : State) : Option State := do
  let inode ← s.inodes sector
  let s ← s.freeMapRelease (inode.sectors ++ [sector])
  some { s with inodes := update s.inodes sector none }

def inodeClose (sector : SectorNo) (s : State) : Option State := do
  let inode ← s.inodes sector
  if inode.openCnt = 0 then none
  else if inode.openCnt = 1 ∧ inode.removed then s.inodeRelease sector
  else some (s.setInode sector { inode with openCnt := inode.openCnt - 1 })

/-! ## Directories -/

/-- `dir_lookup`, which opens the inode that it finds. -/
def dirLookup (dir : SectorNo) (name : Name) (s : State) : Option (Option SectorNo × State) := do
  let inode ← s.inodes dir
  match inode.lookup name with
  | none => some (none, s)
  | some (_, e) => (s.inodeOpen e.inodeSector).map fun s => (some e.inodeSector, s)

def dirAdd (dir : SectorNo) (name : Name) (inodeSector : SectorNo) (s : State) : Option (Bool × State) := do
  let inode ← s.inodes dir
  if name = [] ∨ nameMax < name.length ∨ (inode.lookup name).isSome then some (false, s)
  else
    let e : DirEntry := { inodeSector, name, inUse := true }
    match inode.entries.findIdx? fun e => !e.inUse with
    | some ofs => some (true, s.setInode dir { inode with entries := inode.entries.set ofs e })
    | none =>
      if inode.tail ≠ 0 ∨ directNo ≤ bytesToSectors inode.length then none
      else
        let (sectors, s) ← s.allocateSectors (bytesToSectors (inode.length + entrySize) - bytesToSectors inode.length)
        some (true, s.setInode dir { inode with entries := inode.entries ++ [e], sectors := inode.sectors ++ sectors })

/-- The end of a function: `dir_close`, and the value returned. -/
def closeDir (dir : SectorNo) (result : Bool) (s : State) : Option (Bool × State) :=
  (s.inodeClose dir).map fun s => (result, s)

/-- `dir_create`, after the level of the new directory is known: space for sixteen entries, with the first two. -/
def dirFill (sector parent : SectorNo) (newLevel : Nat) (s : State) : Option (Bool × State) := do
  let s ← s.inodeCreate sector (16 * entrySize) true newLevel
  let s ← s.inodeOpen sector
  let (addedDot, s) ← s.dirAdd sector dot sector
  let (addedDotDot, s) ← if addedDot then s.dirAdd sector dotDot parent else some (false, s)
  s.closeDir sector (addedDot && addedDotDot)

def dirCreate (sector parent : SectorNo) (s : State) : Option (Bool × State) := do
  if sector = rootDirSector then s.dirFill sector parent 0
  else
    let s ← s.inodeOpen parent
    let parentInode ← s.inodes parent
    let s ← s.inodeClose parent
    if 213 < parentInode.level + 1 then some (false, s) else s.dirFill sector parent (parentInode.level + 1)

/-- `dir_remove`, by a process with the given current directory. -/
def dirRemove (currentDir dir : SectorNo) (name : Name) (s : State) : Option (Bool × State) := do
  let dirInode ← s.inodes dir
  match dirInode.lookup name with
  | none => some (false, s)
  | some (ofs, e) =>
    let s ← s.inodeOpen e.inodeSector
    let inode ← s.inodes e.inodeSector
    if e.inodeSector = currentDir ∨ (inode.isDirectory ∧ !inode.dirIsEmpty) then
      let s ← s.inodeClose e.inodeSector
      some (false, s)
    else
      -- Erase directory entry.
      let dirInode ← s.inodes dir
      let s := s.setInode dir { dirInode with entries := dirInode.entries.set ofs { e with inUse := false } }
      -- Remove inode.
      let inode ← s.inodes e.inodeSector
      let s := s.setInode e.inodeSector { inode with removed := true }
      let s ← s.inodeClose e.inodeSector
      some (true, s)

end State

/-! ## Paths -/

/-- `strtok_r (…, "/", &next_ptr)`: a token, and the string at `next_ptr`. -/
def strtokR (s : Name) : Option (Name × Name) :=
  match s.dropWhile (· = '/') with
  | [] => none
  | token => some (token.takeWhile (· ≠ '/'), (token.dropWhile (· ≠ '/')).drop 1)

/-- The tokens of the loops over a path, each with whether `next_ptr` is at the end of the string.  Each token takes at
least one character. -/
def tokensUpTo : Nat → Name → List (Name × Bool)
  | 0, _ => []
  | length + 1, s =>
    match strtokR s with
    | none => []
    | some (token, next) => (token, next.isEmpty) :: tokensUpTo length next

/-- The tokens of a path, of which a page is copied. -/
def tokens (path : Name) : List (Name × Bool) :=
  tokensUpTo path.length (path.take 4095)

/-- The directory that a path starts from. -/
def startOf (currentDir : SectorNo) (path : Name) : SectorNo :=
  if path.head? = some '/' then rootDirSector else currentDir

namespace State

/-- The loops of `filesys_create`, `filesys_remove` and `SYS_MKDIR`, up to the last name: the open directory, and the
name if the loop gets to one. -/
def walk : List (Name × Bool) → SectorNo → State → Option ((SectorNo × Option Name) × State)
  | [], dir, s => some ((dir, none), s)
  | (name, true) :: _, dir, s => some ((dir, some name), s)
  | (name, false) :: rest, dir, s =>
    match s.dirLookup dir name with
    | none => none
    | some (none, s) => some ((dir, none), s)
    | some (some inode, s) => (s.inodeClose dir).bind fun s => walk rest inode s

/-- The loop of `filesys_open`, which looks the last name up as well. -/
def openWalk : List (Name × Bool) → SectorNo → Option SectorNo → State → Option (Option SectorNo × State)
  | [], _, inode, s => some (inode, s)
  | (name, _) :: rest, dir, _, s =>
    match s.dirLookup dir name with
    | none => none
    | some (none, s) => (s.inodeClose dir).map fun s => (none, s)
    | some (some inode, s) => (s.inodeClose dir).bind fun s => openWalk rest inode (some inode) s

/-- A path, up to its last name. -/
def openPath (currentDir : SectorNo) (path : Name) (s : State) : Option ((SectorNo × Option Name) × State) := do
  let s ← s.inodeOpen (startOf currentDir path)
  s.walk (tokens path) (startOf currentDir path)

/-- The common part of `filesys_create` and `SYS_MKDIR`, up to a name that is not there.  An inode that is found under
the last name stays open. -/
def newName (currentDir : SectorNo) (path : Name) (make : SectorNo → Name → State → Option (Bool × State)) (s : State) :
    Option (Bool × State) := do
  match ← s.openPath currentDir path with
  | ((dir, none), s) => s.closeDir dir false
  | ((dir, some name), s) =>
    match ← s.dirLookup dir name with
    | (some _, s) => s.closeDir dir false
    | (none, s) => make dir name s

/-- The rest of `filesys_create`. -/
def createFile (initialSize : Nat) (dir : SectorNo) (name : Name) (s : State) : Option (Bool × State) := do
  let dirInode ← s.inodes dir
  if 212 < dirInode.level then s.closeDir dir false
  else match s.freeMapAllocate with
    | none => s.closeDir dir false
    | some (inodeSector, s) =>
      let s ← s.inodeCreate inodeSector initialSize false 0
      let (added, s) ← s.dirAdd dir name inodeSector
      if added then s.closeDir dir true
      else
        let s ← s.inodeRelease inodeSector
        s.closeDir dir false

def filesysCreate (currentDir : SectorNo) (path : Name) (initialSize : Nat) (s : State) : Option (Bool × State) :=
  s.newName currentDir path (createFile initialSize)

/-- The rest of `SYS_MKDIR`.  It takes no notice of what `dir_add` returns, and keeps the sector where `dir_create`
fails. -/
def createDir (dir : SectorNo) (name : Name) (s : State) : Option (Bool × State) := do
  match s.freeMapAllocate with
  | none => s.closeDir dir false
  | some (newSector, s) =>
    let (created, s) ← s.dirCreate newSector dir
    if created then
      let (_, s) ← s.dirAdd dir name newSector
      s.closeDir dir true
    else s.closeDir dir false

def mkdir (currentDir : SectorNo) (path : Name) (s : State) : Option (Bool × State) :=
  s.newName currentDir path createDir

/-- `filesys_open`.  The directory that an empty path starts from stays open. -/
def filesysOpen (currentDir : SectorNo) (path : Name) (s : State) : Option (Option SectorNo × State) := do
  let s ← s.inodeOpen (startOf currentDir path)
  let (inode, s) ← s.openWalk (tokens path) (startOf currentDir path) none
  match inode with
  | some inode => some (some inode, { s with files := inode :: s.files })
  | none =>
    if tokens path = [] ∧ path.head? = some '/' then
      let s ← s.inodeOpen rootDirSector
      some (some rootDirSector, { s with files := rootDirSector :: s.files })
    else some (none, s)

def filesysRemove (currentDir : SectorNo) (path : Name) (s : State) : Option (Bool × State) := do
  match ← s.openPath currentDir path with
  | ((dir, none), s) => s.closeDir dir false
  | ((dir, some name), s) =>
    let (success, s) ← s.dirRemove currentDir dir name
    s.closeDir dir success

/-- `file_close`, of an open file of some process. -/
def fileClose (file : SectorNo) (s : State) : Option State :=
  if file ∈ s.files then { s with files := s.files.erase file }.inodeClose file else none

end State

/-! ## Runs -/

inductive Label
  | create (currentDir : SectorNo) (path : Name) (initialSize : Nat)
  | mkdir (currentDir : SectorNo) (path : Name)
  | open (currentDir : SectorNo) (path : Name)
  | remove (currentDir : SectorNo) (path : Name)
  | close (file : SectorNo)
  deriving DecidableEq, Repr

def step (label : Label) (s : State) : Option State :=
  match label with
  | .create currentDir path initialSize => (s.filesysCreate currentDir path initialSize).map Prod.snd
  | .mkdir currentDir path => (s.mkdir currentDir path).map Prod.snd
  | .open currentDir path => (s.filesysOpen currentDir path).map Prod.snd
  | .remove currentDir path => (s.filesysRemove currentDir path).map Prod.snd
  | .close file => s.fileClose file

def freeMapInit (diskSize : Nat) : State where
  inodes _ := none
  freeMap := bitmapMark (bitmapMark (bitmapCreate diskSize) freeMapSector) rootDirSector
  files := []

/-- `do_format`, for a disk of the given number of sectors that has the sectors of the two first inodes. -/
def format (diskSize : Nat) : Option State := do
  if diskSize ≤ rootDirSector then none
  else
    let s ← (freeMapInit diskSize).inodeCreate freeMapSector (byteCnt diskSize) false 0
    let s ← s.inodeOpen freeMapSector
    match ← s.dirCreate rootDirSector rootDirSector with
    | (true, s) => some s
    | (false, _) => none

end Pintos.Directory
