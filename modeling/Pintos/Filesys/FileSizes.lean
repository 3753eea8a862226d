import Pintos.Filesys.Exhaustion
import Pintos.Filesys.TransferLaws

/-! # Sizes and positions from user space (`userprog/syscall.c`, `filesys/file.c`)

`SYS_CREATE`, `SYS_SEEK`, `SYS_READ` and `SYS_WRITE` take any 32-bit word, and pass it on as an `off_t`, which is
signed. A world of users is one of the inode layer with the `struct file`s that processes have open, in the order of
their descriptors.  What else the kernel does with inodes, for directories above all, are calls of the inode layer.

An `off_t` that is negative where the inode layer takes it for an offset stops the model, as an overflow does: the
source computes a sector and a place in it from it, and both are negative. -/

namespace Pintos.Filesys

open Library List Option BitVec

/-- `inode_create` on an `off_t`: `bytes_to_sectors` divides towards zero, and its result becomes unsigned. -/
def inodeCreateOff (memory : List Activation) (sector length info : Word) : FsM Bool :=
  if length.toInt + 512 ≥ 2 ^ 31 then failure
  else allocateInodeDiskIn memory (BitVec.ofInt 32 ((length.toInt + 512 - 1).tdiv 512)).toNat sector length.toNat 0 info
    sector

/-- `filesys_create`, when the path has been looked up and before its last part is entered in the directory. -/
def filesysCreate (memory : List Activation) (initialSize : Word) : FsM Reply := do
  match ← freeMapAllocate 1 with
  | none => return .failed
  | some sector =>
    if ← inodeCreateOff memory sector initialSize 0 then
      return .made sector
    else
      freeMapRelease sector 1
      return .failed

/-- The bytes that `inode_write_at` takes from a buffer: none if the size is negative. -/
def bytesAt (buffer : Nat → UInt8) (size : Word) : List UInt8 :=
  if size.msb then [] else (range size.toNat).map buffer

/-- `inode_write_at` on `off_t` arguments -/
def inodeWriteAtOff (memory : List Activation) (sector : Word) (buffer : Nat → UInt8) (size offset : Word) : FsM Int :=
  if offset.msb then failure
  else inodeWriteAtIn memory sector (bytesAt buffer size) offset.toNat

/-- `file->pos += bytes` -/
def OpenFile.advance (file : OpenFile) (bytes : Int) : Option OpenFile :=
  if file.pos.toInt + bytes ≥ 2 ^ 31 then none
  else some { file with pos := BitVec.ofInt 32 (file.pos.toInt + bytes) }

def isDirectory (info : Word) : Bool :=
  info &&& 1 != 0

def fileWrite (memory : List Activation) (file : OpenFile) (buffer : Nat → UInt8) (size : Word) : FsM OpenFile := do
  if isDirectory (← findInode file.inode).data.info then
    return file
  else
    let bytesWritten ← inodeWriteAtOff memory file.inode buffer size file.pos
    match file.advance bytesWritten with
    | none => failure
    | some file => return file

def fileRead (file : OpenFile) (size : Word) : FsM OpenFile := do
  let bytes ← inodeReadAtOff file.inode size file.pos
  match file.advance bytes.length with
  | none => failure
  | some file => return file

/-- `file_seek`, which asserts that the position is not negative. -/
def fileSeek (file : OpenFile) (newPos : Word) : Option OpenFile :=
  if newPos.msb then none else some { file with pos := newPos }

/-- `memory` is what the activations of `allocate_inode_disk` and `release_inode_disk` in the call get. -/
inductive UserCall
  | create (memory : List Activation) (initialSize : Word)
  | open (sector : Word)
  | seek (fd : Nat) (position : Word)
  | write (memory : List Activation) (fd : Nat) (buffer : Nat → UInt8) (size : Word)
  | read (fd : Nat) (size : Word)
  | kernel (memory : List Activation) (call : FileCall)

/-- How many activations of `allocate_inode_disk` or of `release_inode_disk` a call makes. -/
def FileCall.nesting (fs : FileSys) : FileCall → Nat
  | create size _ => activations (bytesToSectors size) 0
  | write sector buffer offset =>
    match fs.tables.openInodes.find? fun i => i.sector == sector with
    | some inode =>
      if offset ≥ inode.data.length.toNat ∧ buffer.length > 0 then inode.nesting (offset + buffer.length) else 0
    | none => 0
  | close sector =>
    match fs.tables.openInodes.find? fun i => i.sector == sector with
    | some inode =>
      if inode.openCnt = 1 ∧ inode.removed then activations (bytesToSectors inode.data.length.toNat) 0 else 0
    | none => 0
  | _ => 0

structure UserWorld where
  world : World
  files : List OpenFile

namespace UserWorld

/-- A call on the file of a descriptor; without one it does nothing. -/
def onFile (fd : Nat) (run : OpenFile → FsM OpenFile) (u : UserWorld) : Option UserWorld :=
  match u.files[fd]? with
  | none => some u
  | some file => (run file u.world.fs).map fun ended =>
    { world := { u.world with fs := ended.2 }, files := u.files.set fd ended.1 }

def step (call : UserCall) (u : UserWorld) : Option UserWorld :=
  match call with
  | .create memory initialSize => (filesysCreate memory initialSize u.world.fs).map fun ended =>
    { u with world := u.world.settle ended.2 (.create initialSize.toNat 0) ended.1 }
  | .open sector => (u.world.perform (.open sector)).map fun ended =>
    { world := ended.2, files := u.files ++ [{ inode := sector, pos := 0, denyWrite := false }] }
  | .seek fd position => u.onFile fd fun file fs => (fileSeek file position).map fun file => (file, fs)
  | .write memory fd buffer size => u.onFile fd fun file => fileWrite memory file buffer size
  | .read fd size => u.onFile fd fun file => fileRead file size
  | .kernel memory call => (call.performIn memory u.world.fs).map fun ended =>
    { u with world := u.world.settle ended.2 call ended.1 }

/-- What a call of the inode layer needs to do what it is for, to end, and to read no block past the end of the disk. -/
structure Safe (memory : List Activation) (call : FileCall) (w : World) : Prop where
  calm : w.Calm call
  run : AllRun memory (call.nesting w.fs)
  ends : ∀ a, Models w a → a.Ends (view w.fs) call

/-- Sizes and positions are those that the source can compute with, and a write fits the file and the disk. -/
def Permits (call : UserCall) (u : UserWorld) : Prop :=
  match call with
  | .create memory initialSize => Safe memory (.create initialSize.toNat 0) u.world
  | .open sector => sector ∈ u.world.live
  | .seek _ position => position.toNat < 2 ^ 31
  | .write memory fd buffer size => ∀ file, u.files[fd]? = some file → ∀ inode ∈ u.world.fs.tables.openInodes,
    inode.sector = file.inode → isDirectory inode.data.info = false →
      Safe memory (.write file.inode (bytesAt buffer size) file.pos.toNat) u.world
  | .read fd size => ∀ file, u.files[fd]? = some file → Safe [] (.read file.inode size.toNat file.pos.toNat) u.world
  | .kernel memory call => u.world.Legal call ∧ Safe memory call u.world ∧
    -- a `struct file` keeps the pointer it owns
    ∀ s, call = .close s → (u.files.map OpenFile.inode).count s < u.world.held.count s

end UserWorld

/-! ## Words that are not negative -/

variable {x : Word} {file : OpenFile}

theorem toInt_of_small (small : x.toNat < 2 ^ 31) : x.toInt = x.toNat :=
  toInt_eq_toNat_of_lt (by omega)

theorem toNat_of_nonneg (nonneg : x.msb = false) : x.toNat < 2 ^ 31 := by
  rw [msb_eq_false_iff_two_mul_lt] at nonneg
  omega

theorem nonneg_of_small (small : x.toNat < 2 ^ 31) : x.msb = false := by
  rw [msb_eq_false_iff_two_mul_lt]
  omega

variable {memory : List Activation}

theorem inodeCreateOff_eq {sector length info : Word} (small : length.toNat + 512 < 2 ^ 31) :
    inodeCreateOff memory sector length info = inodeCreateIn memory sector length.toNat info := by
  have nonneg : length.toInt = length.toNat := toInt_of_small (by omega)
  have sectors : (BitVec.ofInt 32 ((length.toInt + 512 - 1).tdiv 512)).toNat = bytesToSectors length.toNat := by
    have divided : (length.toInt + 512 - 1).tdiv 512 = (bytesToSectors length.toNat : Nat) := by
      have sum : (length.toNat : Int) + 512 - 1 = ((length.toNat + 511 : Nat) : Int) := by omega
      rw [nonneg, sum]
      exact (Int.ofNat_tdiv _ 512).symm
    rw [divided, ofInt_natCast, toNat_ofNat, bytesToSectors]
    omega
  rw [inodeCreateOff, inodeCreateIn, nonneg, if_neg (by omega), if_neg (by omega), ← nonneg, sectors]

theorem OpenFile.advance_eq {n : Nat} (nonneg : file.pos.msb = false) (small : file.pos.toNat + n < 2 ^ 31) :
    ∃ moved, file.advance n = some moved ∧ moved.inode = file.inode ∧ moved.pos.msb = false := by
  have pos : file.pos.toInt = file.pos.toNat := toInt_of_small (toNat_of_nonneg nonneg)
  refine ⟨_, if_neg ?_, rfl, nonneg_of_small ?_⟩
  · rw [pos]
    omega
  · show (BitVec.ofInt 32 (file.pos.toInt + n)).toNat < _
    rw [pos, ← Int.natCast_add, BitVec.ofInt_natCast, BitVec.toNat_ofNat]
    omega

/-! ## Activations that get what they need -/

section

variable {inode : Inode} {fs : FileSys} {sector : Word}

theorem extendInodeIn_run {newLength : Nat} (run : AllRun memory (inode.nesting newLength)) :
    extendInodeIn memory inode newLength fs = extendInodeIn [] inode newLength fs := by
  have sameFrom : ∀ (startDirectIdx : Fin 123) previous,
      startDirectIdx.val = bytesToSectors inode.data.length.toNat % 123 →
      extendFromIn memory inode newLength startDirectIdx previous =
        extendFromIn [] inode newLength startDirectIdx previous := by
    intro startDirectIdx previous slot
    unfold extendFromIn
    by_cases adds : bytesToSectors newLength - bytesToSectors inode.data.length.toNat > 0
    · rw [Inode.nesting, if_pos (by omega), ← slot] at run
      simp only [if_pos adds, allocateInodeDiskIn_run run]
    · simp only [if_neg adds]
  unfold extendInodeIn
  split
  · rfl
  apply bind_eq_bind
  intro _ locked _
  apply bind_eq_bind
  intro found searched search
  have slot := (findPrevious_slot.ended search).1
  simp only [sameFrom found.1 _ slot]

theorem findInode_some {after : FileSys} (found : findInode sector fs = some (inode, after)) :
    fs.tables.openInodes.find? (fun i => i.sector == sector) = some inode ∧ after = fs := by
  cases isFound : fs.tables.openInodes.find? fun i => i.sector == sector with
  | none =>
    simp [findInode, getTables, bind, StateT.bind, isFound] at found
    cases found
  | some inode =>
    rw [findInode_eq isFound] at found
    cases found
    exact ⟨rfl, rfl⟩

theorem inodeWriteAtIn_run {buffer : List UInt8} {offset : Nat}
    (run : AllRun memory ((FileCall.write sector buffer offset).nesting fs)) :
    inodeWriteAtIn memory sector buffer offset fs = inodeWriteAtIn [] sector buffer offset fs := by
  apply bind_eq_bind
  intro inode next finds
  obtain ⟨found, rfl⟩ := findInode_some finds
  simp only [FileCall.nesting, found] at run
  split_ifs at run ⊢
  · have same := @extendInodeIn_run memory inode next (offset + buffer.length) run
    -- the check for overflow would be evaluated
    generalize extendInodeIn memory inode (offset + buffer.length) = program at same ⊢
    generalize extendInodeIn [] inode (offset + buffer.length) = program' at same ⊢
    show (program next).bind _ = (program' next).bind _
    rw [same]
  · rfl

theorem inodeCloseIn_run (run : AllRun memory ((FileCall.close sector).nesting fs)) :
    inodeCloseIn memory sector fs = inodeCloseIn [] sector fs := by
  apply bind_eq_bind
  intro inode next finds
  obtain ⟨found, rfl⟩ := findInode_some finds
  simp only [FileCall.nesting, found] at run
  by_cases last : inode.openCnt = 1
  · by_cases removed : inode.removed
    · rw [if_pos ⟨last, removed⟩] at run
      simp only [if_pos last, if_pos removed, releaseInodeDiskIn, if_pos run]
      rw [if_pos (allRun_nil _)]
    · simp only [if_neg removed]
  · simp only [if_neg last]

theorem FileCall.performIn_run {call : FileCall} (run : AllRun memory (call.nesting fs)) :
    call.performIn memory fs = call.perform fs := by
  cases call with
  | create size info =>
    have creates : ∀ head, inodeCreateIn memory head size info = inodeCreateIn [] head size info :=
      fun head => inodeCreateIn_run run
    simp only [perform, performIn, creates]
  | write sector buffer offset =>
    show (inodeWriteAtIn memory sector buffer offset fs).bind _ = (inodeWriteAtIn [] sector buffer offset fs).bind _
    rw [inodeWriteAtIn_run run]
  | close sector =>
    show (inodeCloseIn memory sector fs).bind _ = (inodeCloseIn [] sector fs).bind _
    rw [inodeCloseIn_run run]
  | «open» _ | read _ _ _ | length _ | remove _ => rfl

end

/-! ## One call -/

namespace UserWorld

variable {u : UserWorld} {a : Volume} {call : UserCall} {head : Word}

/-- The inode layer is in order, the files hold the inodes they are of, and their positions are not negative. -/
structure Sane (u : UserWorld) (a : Volume) : Prop where
  models : Models u.world a
  held : ∀ s, (u.files.map OpenFile.inode).count s ≤ u.world.held.count s
  positions : ∀ file ∈ u.files, file.pos.msb = false

section

variable (sane : Sane u a)

include sane

theorem Sane.holds (member : file ∈ u.files) : file.inode ∈ u.world.held := by
  have counted := sane.held file.inode
  have positive : 0 < (u.files.map OpenFile.inode).count file.inode :=
    count_pos_iff.mpr (mem_map_of_mem member)
  exact count_pos_iff.mp (Nat.lt_of_lt_of_le positive counted)

variable {fd : Nat} {w : World}

/-- The file of a descriptor has moved, and the inode layer has gone on. -/
theorem Sane.moved {moved : OpenFile} {b : Volume} (found : u.files[fd]? = some file) (models : Models w b)
    (sameHeld : w.held = u.world.held) (sameInode : moved.inode = file.inode) (nonneg : moved.pos.msb = false) :
    Sane { world := w, files := u.files.set fd moved } b := by
  refine ⟨models, ?_, ?_⟩
  · have inodes : (u.files.set fd moved).map OpenFile.inode = u.files.map OpenFile.inode := by
      apply ext_getElem?
      intro i
      rw [map_set, getElem?_set]
      split
      next here =>
        have inside : fd < (u.files.map OpenFile.inode).length := by
          rw [List.length_map]
          exact (List.getElem?_eq_some_iff.mp found).1
        rw [if_pos inside, ← here, List.getElem?_map, found, sameInode]
        rfl
      next => rfl
    rw [sameHeld]
    show ∀ s, ((u.files.set fd moved).map OpenFile.inode).count s ≤ _
    rw [inodes]
    exact sane.held
  · intro other member
    cases mem_or_eq_of_mem_set member with
    | inl old => exact sane.positions other old
    | inr new => exact new ▸ nonneg

variable {fs : FileSys} {α : Type}

omit sane in
/-- Two programs that start alike, and go on alike where the first ends as it should. -/
theorem bind_of_bind {β : Type} {first : FsM α} {rest rest' : α → FsM β} {after : FileSys} {result : β}
    (ran : (first >>= rest) fs = some (result, after))
    (goesOn : ∀ mid next, rest mid next = some (result, after) → rest' mid next = some (result, after)) :
    (first >>= rest') fs = some (result, after) := by
  have unfolded : (first >>= rest) fs = (first fs).bind fun ended => rest ended.1 ended.2 := rfl
  have unfolded' : (first >>= rest') fs = (first fs).bind fun ended => rest' ended.1 ended.2 := rfl
  rw [unfolded] at ran
  rw [unfolded']
  obtain ⟨ended, first, ran⟩ := bind_eq_some_iff.mp ran
  rw [first]
  exact goesOn ended.1 ended.2 ran

variable {sector size : Word}

omit sane in
/-- `filesys_create` does what the inode layer's part of it does, when the file is made. -/
theorem filesysCreate_made {after : FileSys} (small : size.toNat + 512 < 2 ^ 31)
    (ran : (FileCall.create size.toNat 0).performIn memory fs = some (.made sector, after)) :
    filesysCreate memory size fs = some (.made sector, after) := by
  unfold filesysCreate
  apply bind_of_bind ran
  intro allocated next ran
  rcases allocated with _ | head
  · cases ran
  dsimp only at ran ⊢
  rw [inodeCreateOff_eq small]
  -- the check for overflow would be evaluated
  generalize inodeCreateIn memory head size.toNat 0 = program at ran ⊢
  apply bind_of_bind ran
  intro done next ran
  cases done with
  | true => exact ran
  | false => cases ran

/-- A call of the inode layer on the world of a user's files. -/
theorem Sane.performs {call : FileCall} (legal : u.world.Legal call) (safe : Safe memory call u.world) :
    ∃ fs, call.performIn memory u.world.fs = some (a.reply call, fs) ∧
      Models (u.world.settle fs call (a.reply call)) (a.after call) := by
  obtain ⟨next, performed, models⟩ := sane.models.runs legal safe.calm (safe.ends a sane.models)
  obtain ⟨⟨reply, fs⟩, ran, same⟩ := map_eq_some_iff.mp performed
  obtain ⟨isReply, rfl⟩ := Prod.mk.inj same
  dsimp only at isReply models
  rw [isReply] at ran models
  exact ⟨fs, (FileCall.performIn_run safe.run).trans ran, models⟩

theorem Sane.create {initialSize : Word} (permits : Permits (.create memory initialSize) u) :
    ∃ next b sector, step (.create memory initialSize) u = some next ∧ Sane next b ∧
      next.world.live = sector :: u.world.live ∧ next.files = u.files := by
  have safe : Safe memory (.create initialSize.toNat 0) u.world := permits
  have legal : u.world.Legal (.create initialSize.toNat 0) := trivial
  obtain ⟨fs, ran, models⟩ := sane.performs legal safe
  have made : ∃ sector, a.reply (.create initialSize.toNat 0) = .made sector := by
    have enough := safe.calm.2
    have sameMap : u.world.fs.tables.freeMap = a.freeMap := sane.models.represents.freeMap
    rw [sameMap] at enough
    unfold Volume.reply
    cases free : freeSectors a.freeMap with
    | nil =>
      rw [free, length_nil] at enough
      omega
    | cons sector left => exact ⟨sector, rfl⟩
  obtain ⟨sector, made⟩ := made
  rw [made] at ran models
  have created := filesysCreate_made safe.calm.1 ran
  refine ⟨{ u with world := u.world.settle fs (.create initialSize.toNat 0) (.made sector) }, _, sector, ?_,
    ⟨models, sane.held, sane.positions⟩, rfl, rfl⟩
  rw [step, created]
  rfl

theorem Sane.open (permits : Permits (.open sector) u) :
    ∃ next b, step (.open sector) u = some next ∧ Sane next b ∧
      next.files = u.files ++ [{ inode := sector, pos := 0, denyWrite := false }] := by
  have legal : u.world.Legal (.open sector) := permits
  have safe : Safe [] (.open sector) u.world := ⟨trivial, allRun_nil _, fun _ _ => trivial⟩
  obtain ⟨fs, ran, models⟩ := sane.performs legal safe
  refine ⟨_, _, by rw [step, World.perform, FileCall.perform, ran]; rfl, ⟨models, ?_, ?_⟩, rfl⟩
  · intro s
    show ((u.files ++ [({ inode := sector, pos := 0, denyWrite := false } : OpenFile)]).map OpenFile.inode).count s ≤
      (sector :: u.world.held).count s
    have held := sane.held s
    rw [map_append, count_append, map_singleton, count_first, count_first, count_nil]
    dsimp only
    omega
  · intro file member
    cases mem_append.mp member with
    | inl old => exact sane.positions file old
    | inr new =>
      rw [mem_singleton.mp new]
      show (0 : Word).msb = false
      decide

theorem Sane.seek {position : Word} (permits : Permits (.seek fd position) u) :
    ∃ next b, step (.seek fd position) u = some next ∧ Sane next b := by
  have small : position.toNat < 2 ^ 31 := permits
  have nonneg := nonneg_of_small small
  unfold step onFile
  dsimp only
  cases found : u.files[fd]? with
  | none => exact ⟨u, a, rfl, sane⟩
  | some file =>
    have seeks : fileSeek file position = some { file with pos := position } := by
      rw [fileSeek, nonneg]
      rfl
    dsimp only
    rw [seeks]
    exact ⟨_, a, rfl, sane.moved found sane.models rfl rfl nonneg⟩

omit sane in
/-- What a call that counts or reads has returned, without the name that the reply gives it. -/
theorem eq_of_reply {program : FsM α} {reply : α → Reply} {result : α} {fs after : FileSys}
    (injective : ∀ r, reply r = reply result → r = result)
    (ran : (program >>= fun r => pure (reply r)) fs = some (reply result, after)) :
    program fs = some (result, after) := by
  have unfolded : (program >>= fun r => pure (reply r)) fs =
      (program fs).bind fun ended => some (reply ended.1, ended.2) := rfl
  rw [unfolded] at ran
  obtain ⟨⟨r, next⟩, ended, same⟩ := bind_eq_some_iff.mp ran
  obtain ⟨isReply, rfl⟩ := Prod.mk.inj (some.inj same)
  rw [ended, injective r isReply]

omit sane in
/-- The end of a write is a position that can be computed. -/
theorem writes_small {f : File} {buffer : List UInt8} {offset : Nat} (models : Models w a)
    (found : a.files head = some f) (calm : w.Calm (.write head buffer offset)) (small : offset < 2 ^ 31) :
    offset + buffer.length < 2 ^ 31 := by
  have fits : WriteFits (view w.fs) head (w.lengthOf head) buffer.length offset := calm
  rw [models.lengthOf found] at fits
  have bound := models.sound.small found
  by_cases none : buffer.length = 0
  · omega
  by_cases inside : offset < f.length
  · have fitsInside := fits.inside inside
    rw [bytesToSectors] at fitsInside
    omega
  · have fitsPast := fits.small (Nat.not_lt.mp inside) (Nat.pos_of_ne_zero none)
    omega

theorem Sane.write {buffer : Nat → UInt8} (permits : Permits (.write memory fd buffer size) u) :
    ∃ next b, step (.write memory fd buffer size) u = some next ∧ Sane next b := by
  unfold step onFile
  dsimp only
  rcases found : u.files[fd]? with _ | file
  · exact ⟨u, a, rfl, sane⟩
  have member : file ∈ u.files := mem_of_getElem? found
  have nonneg := sane.positions file member
  have legal : u.world.Legal (.write file.inode (bytesAt buffer size) file.pos.toNat) := sane.holds member
  obtain ⟨handle, isOpen⟩ := sane.models.isOpen (sane.holds member)
  obtain ⟨inode, isFound, -, named, -⟩ := sane.models.represents.exists_inode isOpen
  obtain ⟨f, isFile⟩ := sane.models.sound.live_handle isOpen
  have finds : findInode file.inode u.world.fs = some (inode, u.world.fs) := findInode_eq isFound
  dsimp only
  cases isDir : isDirectory inode.data.info with
  | true =>
    have returns : fileWrite memory file buffer size u.world.fs = some (file, u.world.fs) := by
      simp [fileWrite, bind, StateT.bind, finds, isDir]
      rfl
    rw [returns]
    exact ⟨_, a, rfl, sane.moved found sane.models rfl rfl nonneg⟩
  | false =>
    have safe := permits file found inode (mem_of_find?_eq_some isFound) named isDir
    obtain ⟨fs, ran, models⟩ := sane.performs legal safe
    have wrote : inodeWriteAtIn memory file.inode (bytesAt buffer size) file.pos.toNat u.world.fs =
        some (((bytesAt buffer size).length : Int), fs) :=
      @eq_of_reply Int _ Reply.count _ _ _ (fun _ same => Reply.count.inj same) ran
    have small := writes_small sane.models isFile safe.calm (toNat_of_nonneg nonneg)
    obtain ⟨moved, advanced, sameInode, pos⟩ := OpenFile.advance_eq nonneg small
    have wroteOff : inodeWriteAtOff memory file.inode buffer size file.pos u.world.fs =
        some (((bytesAt buffer size).length : Int), fs) := by
      rw [inodeWriteAtOff, nonneg]
      exact wrote
    have runs : fileWrite memory file buffer size u.world.fs = some (moved, fs) := by
      simp [fileWrite, bind, StateT.bind, finds, isDir, wroteOff, advanced]
      rfl
    rw [runs]
    exact ⟨_, _, rfl, sane.moved found models rfl sameInode pos⟩

theorem Sane.read (permits : Permits (.read fd size) u) :
    ∃ next b, step (.read fd size) u = some next ∧ Sane next b := by
  unfold step onFile
  dsimp only
  rcases found : u.files[fd]? with _ | file
  · exact ⟨u, a, rfl, sane⟩
  have member : file ∈ u.files := mem_of_getElem? found
  have nonneg := sane.positions file member
  have legal : u.world.Legal (.read file.inode size.toNat file.pos.toNat) := sane.holds member
  obtain ⟨handle, isOpen⟩ := sane.models.isOpen (sane.holds member)
  obtain ⟨inode, isFound, -, named, data⟩ := sane.models.represents.exists_inode isOpen
  obtain ⟨f, isFile⟩ := sane.models.sound.live_handle isOpen
  have bound := sane.models.sound.small isFile
  have length : inode.data.length.toNat = f.length := by
    rw [data, sane.models.represents.length_toNat sane.models.sound isFile]
  obtain ⟨fs, ran, models⟩ := sane.performs legal (permits file found)
  have reply : a.reply (.read file.inode size.toNat file.pos.toNat) = .bytes (f.read size.toNat file.pos.toNat) := by
    rw [Volume.reply, isFile]
  rw [reply] at ran models
  have reads : inodeReadAt file.inode size.toNat file.pos.toNat u.world.fs =
      some (f.read size.toNat file.pos.toNat, fs) :=
    @eq_of_reply (List UInt8) _ Reply.bytes _ _ _ (fun _ same => Reply.bytes.inj same) ran
  have readsOff : inodeReadAtOff file.inode size file.pos u.world.fs = some (f.read size.toNat file.pos.toNat, fs) := by
    rw [inodeReadAtOff_eq sane.models.represents.unlocked isFound (nonneg_of_small (by omega))]
    exact reads
  have short : (f.read size.toNat file.pos.toNat).length ≤ f.length - file.pos.toNat := by
    rw [File.read, slice, length_take]
    omega
  have small : file.pos.toNat + (f.read size.toNat file.pos.toNat).length < 2 ^ 31 := by
    have before := toNat_of_nonneg nonneg
    omega
  obtain ⟨moved, advanced, sameInode, pos⟩ := OpenFile.advance_eq nonneg small
  have runs : fileRead file size u.world.fs = some (moved, fs) := by
    simp [fileRead, bind, StateT.bind, readsOff, advanced]
    rfl
  dsimp only
  rw [runs]
  exact ⟨_, _, rfl, sane.moved found models rfl sameInode pos⟩

theorem Sane.kernel {call : FileCall} (permits : Permits (.kernel memory call) u) :
    ∃ next b, step (.kernel memory call) u = some next ∧ Sane next b := by
  obtain ⟨legal, safe, spare⟩ := permits
  obtain ⟨fs, ran, models⟩ := sane.performs legal safe
  refine ⟨{ u with world := u.world.settle fs call (a.reply call) }, _, ?_, models, ?_, sane.positions⟩
  · rw [step, ran]
    rfl
  · intro s
    have held := sane.held s
    cases call with
    | close sector =>
      show (u.files.map OpenFile.inode).count s ≤ (u.world.held.erase sector).count s
      have erased := count_erase (show sector ∈ u.world.held from legal) s
      have left := spare sector rfl
      by_cases same : s = sector
      · subst same
        rw [if_pos rfl] at erased
        omega
      · rw [if_neg same] at erased
        omega
    | «open» sector =>
      show (u.files.map OpenFile.inode).count s ≤ (sector :: u.world.held).count s
      rw [count_first]
      omega
    | create length info =>
      have sameHeld : (u.world.settle fs (.create length info) (a.reply (.create length info))).held =
          u.world.held := by
        cases a.reply (.create length info) <;> rfl
      show (u.files.map OpenFile.inode).count s ≤ (World.held _).count s
      rw [sameHeld]
      exact held
    | write _ _ _ | read _ _ _ | length _ | remove _ => exact held

theorem Sane.runs (permits : Permits call u) : ∃ next b, step call u = some next ∧ Sane next b := by
  cases call with
  | create memory initialSize =>
    obtain ⟨next, b, -, taken, kept, -⟩ := sane.create permits
    exact ⟨next, b, taken, kept⟩
  | «open» sector =>
    obtain ⟨next, b, taken, kept, -⟩ := sane.open permits
    exact ⟨next, b, taken, kept⟩
  | seek fd position => exact sane.seek permits
  | write memory fd buffer size => exact sane.write permits
  | read fd size => exact sane.read permits
  | kernel memory call => exact sane.kernel permits

end

theorem Sane.kept {next : UserWorld} (sane : ∃ a, Sane u a) (permits : Permits call u)
    (taken : step call u = some next) : ∃ b, Sane next b := by
  obtain ⟨a, sane⟩ := sane
  obtain ⟨next', b, taken', kept⟩ := sane.runs permits
  rw [taken] at taken'
  exact ⟨b, some.inj taken' ▸ kept⟩

/-! ## Every sequence of calls -/

end UserWorld

end Pintos.Filesys
