import Mathlib.Algebra.Order.Group.Multiset
import Mathlib.Algebra.BigOperators.Group.List.Basic
import Pintos.Filesys.References

/-! # Open files of processes

The kernel puts files on the disk.  Processes are loaded from files, and open, read and close files and directories by
file descriptors.  Each call is completed before the next.  `process_kill` closes the `struct file`s of the descriptors,
but not their `struct dir`s, and `load` does not close the executable that it opens.
-/

namespace Pintos.Directory

open Library List
open Option (bind_eq_some_iff)

/-- `struct file_elem`: `f` and `d` both have the inode open.  `pos` is `d->pos`, in entries. -/
structure FileElem where
  fd : Nat
  inode : SectorNo
  pos : Nat
  deriving DecidableEq, Repr

/-- The fields of `struct thread` for the file system. -/
structure Process where
  currentDir : SectorNo
  nextFd : Nat
  fileList : List FileElem
  execFile : Option SectorNo
  deriving DecidableEq, Repr

def initThread : Process where
  currentDir := rootDirSector
  nextFd := 2
  fileList := []
  execFile := none

/-- The file system, the live processes, and the executables that `load` has left open. -/
structure System where
  fs : State
  processes : AList fun _ : Pid => Process
  loaded : List SectorNo

/-- The action `put` of the kernel, the end of a process, and the system calls.  `loads` is whether the rest of `load`
accepts the file. -/
inductive Syscall
  | put (path : Name) (size : Nat)
  | exit (pid : Pid)
  | exec (child : Pid) (cmdLine : Name) (loads : Bool)
  | create (pid : Pid) (path : Name) (initialSize : Nat)
  | remove (pid : Pid) (path : Name)
  | open (pid : Pid) (path : Name)
  | close (pid : Pid) (fd : Nat)
  | chdir (pid : Pid) (path : Name)
  | mkdir (pid : Pid) (path : Name)
  | readdir (pid : Pid) (fd : Nat)
  deriving DecidableEq, Repr

/-- The loop of `dir_readdir`: the new position, and the name. -/
def readdirFrom : Nat → List DirEntry → Nat × Option Name
  | pos, [] => (pos, none)
  | pos, e :: rest => if e.inUse then (pos + 1, some e.name) else readdirFrom (pos + 1) rest

/-- `strtok_r (…, " ", dummy)` -/
def firstWord (cmdLine : Name) : Option Name :=
  match cmdLine.dropWhile (· = ' ') with
  | [] => none
  | word => some (word.takeWhile (· ≠ ' '))

namespace State

def fileReopen (file : SectorNo) (s : State) : Option State :=
  (s.inodeOpen file).map fun s => { s with files := file :: s.files }

/-- The file list and the executable of a process, in `process_kill`. -/
def closeAll (files : List SectorNo) (s : State) : Option State :=
  files.foldlM (fun s file => s.fileClose file) s

end State

/-- `fsutil_put`, where the copy does not panic. -/
def State.fsutilPut (path : Name) (size : Nat) (fs : State) : Option State := do
  match ← fs.filesysCreate initThread.currentDir path size with
  | (false, _) => none
  | (true, fs) =>
    match ← fs.filesysOpen initThread.currentDir path with
    | (none, _) => none
    | (some dst, fs) => fs.fileClose dst

namespace System

/-- A system call of a process on its part of the state. -/
def call (pid : Pid) (run : Process → State → Option (Process × State)) (system : System) : Option System := do
  let process ← system.processes.lookup pid
  let (process, fs) ← run process system.fs
  some { system with fs, processes := system.processes.insert pid process }

def sysCreate (path : Name) (initialSize : Nat) (process : Process) (fs : State) : Option (Process × State) := do
  let (_, fs) ← fs.filesysCreate process.currentDir path initialSize
  some (process, fs)

def sysRemove (path : Name) (process : Process) (fs : State) : Option (Process × State) := do
  let (_, fs) ← fs.filesysRemove process.currentDir path
  some (process, fs)

def sysMkdir (path : Name) (process : Process) (fs : State) : Option (Process × State) := do
  let (_, fs) ← fs.mkdir process.currentDir path
  some (process, fs)

def sysOpen (path : Name) (process : Process) (fs : State) : Option (Process × State) := do
  match ← fs.filesysOpen process.currentDir path with
  | (none, fs) => some (process, fs)
  | (some inode, fs) =>
    let fs ← fs.inodeOpen inode
    let fileElem : FileElem := { fd := process.nextFd, inode, pos := 2 }
    some ({ process with nextFd := process.nextFd + 1, fileList := process.fileList ++ [fileElem] }, fs)

def sysClose (fd : Nat) (process : Process) (fs : State) : Option (Process × State) :=
  match process.fileList.find? fun fileElem => fileElem.fd = fd with
  | none => some (process, fs)
  | some fileElem => do
    let fs ← fs.fileClose fileElem.inode
    let fs ← fs.inodeClose fileElem.inode
    some ({ process with fileList := process.fileList.erase fileElem }, fs)

def sysReaddir (fd : Nat) (process : Process) (fs : State) : Option (Process × State) :=
  match process.fileList.find? fun fileElem => fileElem.fd = fd with
  | none => some (process, fs)
  | some fileElem => do
    let inode ← fs.inodes fileElem.inode
    let (pos, _) := readdirFrom fileElem.pos (inode.entries.drop fileElem.pos)
    let moved := process.fileList.map fun other => if other = fileElem then { other with pos } else other
    some ({ process with fileList := moved }, fs)

def sysChdir (path : Name) (process : Process) (fs : State) : Option (Process × State) := do
  let (current, fs) ← fs.chdir process.currentDir path
  some ({ process with currentDir := current.getD process.currentDir }, fs)

/-- `process_execute`, by a process or by the action `run` of the kernel, with `load` in the child. -/
def exec (child : Pid) (cmdLine : Name) (loads : Bool) (system : System) : Option System := do
  let name ← firstWord cmdLine
  match ← system.fs.filesysOpen initThread.currentDir name with
  | (none, fs) => some { system with fs }
  | (some file, fs) =>
    let loaded := file :: system.loaded
    if loads then
      let fs ← fs.fileReopen file
      some { fs, processes := system.processes.insert child { initThread with execFile := some file }, loaded }
    else some { system with fs, loaded }

/-- `process_kill`, for the files of a process. -/
def exit (pid : Pid) (system : System) : Option System := do
  let process ← system.processes.lookup pid
  let fs ← system.fs.closeAll (process.fileList.map FileElem.inode ++ process.execFile.toList)
  some { system with fs, processes := system.processes.erase pid }

def step (syscall : Syscall) (system : System) : Option System :=
  match syscall with
  | .put path size => (system.fs.fsutilPut path size).map fun fs => { system with fs }
  | .exit pid => system.exit pid
  | .exec child cmdLine loads => if child ∈ system.processes then none else system.exec child cmdLine loads
  | .create pid path initialSize => system.call pid (sysCreate path initialSize)
  | .remove pid path => system.call pid (sysRemove path)
  | .open pid path => system.call pid (sysOpen path)
  | .close pid fd => system.call pid (sysClose fd)
  | .chdir pid path => system.call pid (sysChdir path)
  | .mkdir pid path => system.call pid (sysMkdir path)
  | .readdir pid fd => system.call pid (sysReaddir fd)

end System

/-! ## The references of processes -/

/-- `f` and `d` of each descriptor, and the executable. -/
def Process.refs (process : Process) : Multiset SectorNo :=
  (process.fileList.map FileElem.inode : List SectorNo) + (process.fileList.map FileElem.inode : List SectorNo) +
    (process.execFile.toList : List SectorNo)

def refsOf (processes : AList fun _ : Pid => Process) : Multiset SectorNo :=
  (processes.entries.map fun entry => entry.2.refs).sum

/-- The references of the processes, of the free map itself, and those that nobody has any more. -/
def System.refs (system : System) : Multiset SectorNo :=
  refsOf system.processes + freeMapSector ::ₘ (system.loaded : Multiset SectorNo)

variable {fs fs' : State} {system system' : System} {process process' : Process} {refs : Multiset SectorNo} {pid : Pid}
  {processes : AList fun _ : Pid => Process} {path : Name} {fd size diskSize : Nat}
  {run : Process → State → Option (Process × State)} {syscall : Syscall}

theorem refsOf_insert : refsOf (processes.insert pid process) = process.refs + refsOf (processes.erase pid) := by
  rw [refsOf, AList.entries_insert, map_cons, sum_cons]
  rfl

theorem refsOf_lookup (found : processes.lookup pid = some process) :
    refsOf processes = process.refs + refsOf (processes.erase pid) := by
  have isKey : pid ∈ processes.entries.keys := AList.lookup_isSome.mp (by rw [found]; rfl)
  obtain ⟨process', before, after, _, split, erased⟩ := exists_of_kerase isKey
  have same : process' = process := by
    have isEntry : ⟨pid, process⟩ ∈ processes.entries := of_mem_dlookup found
    exact processes.nodupKeys.eq_of_mk_mem (by rw [split]; simp) isEntry
  subst same
  have erased : (processes.erase pid).entries = before ++ after := erased
  rw [refsOf, refsOf, erased, split]
  simp only [map_append, map_cons, sum_append, sum_cons]
  exact add_left_comm _ _ _

theorem Held.fileClose {file : SectorNo} (held : Held (file ::ₘ refs) fs) (closed : fs.fileClose file = some fs') :
    Held refs fs' := by
  rw [State.fileClose] at closed
  split_ifs at closed
  have fewer : Held (file ::ₘ refs) { fs with files := fs.files.erase file } := ⟨held.count, held.sectors, held.apart⟩
  exact fewer.close closed

theorem Held.closeAll {files : List SectorNo} (held : Held ((files : Multiset SectorNo) + refs) fs)
    (closed : fs.closeAll files = some fs') : Held refs fs' := by
  induction files generalizing fs with
  | nil =>
    cases closed
    simpa using held
  | cons file files ih =>
    rw [State.closeAll, foldlM_cons] at closed
    obtain ⟨between, closes, rest⟩ := bind_eq_some_iff.mp closed
    rw [← Multiset.cons_coe, Multiset.cons_add] at held
    exact ih (held.fileClose closes) rest

theorem Held.fsutilPut (held : Held refs fs) (isMap : freeMapSector ∈ refs)
    (put : fs.fsutilPut path size = some fs') : Held refs fs' := by
  have isRoot : initThread.currentDir ≠ freeMapSector := by decide
  obtain ⟨⟨created, fs₁⟩, creates, put⟩ := bind_eq_some_iff.mp put
  have makes := held.newName isRoot (fun _ held made => held.createFile isMap made) creates
  cases created with
  | false => cases put
  | true =>
    obtain ⟨⟨dst, fs₂⟩, opens, put⟩ := bind_eq_some_iff.mp put
    have opened := (makes.filesysOpen isRoot opens).1
    cases dst with
    | none => cases put
    | some dst => exact opened.fileClose put

/-- A descriptor is two references. -/
theorem refs_cons (fileElem : FileElem) (perm : process.fileList.Perm (fileElem :: process'.fileList))
    (sameExecFile : process.execFile = process'.execFile) :
    process.refs = fileElem.inode ::ₘ fileElem.inode ::ₘ process'.refs := by
  have inodes : (process.fileList.map FileElem.inode : Multiset SectorNo) =
      fileElem.inode ::ₘ (process'.fileList.map FileElem.inode : List SectorNo) :=
    Multiset.coe_eq_coe.mpr (perm.map FileElem.inode)
  rw [Process.refs, Process.refs, inodes, sameExecFile, Multiset.cons_add, Multiset.add_cons, Multiset.cons_add,
    Multiset.cons_add]

/-- A process with its references, among others, and with a current directory that is not the free map. -/
structure Process.Holds (process : Process) (others : Multiset SectorNo) (fs : State) : Prop where
  held : Held (process.refs + others) fs
  isMap : freeMapSector ∈ others
  current : process.currentDir ≠ freeMapSector

section

variable {others : Multiset SectorNo} (holds : process.Holds others fs)

include holds

theorem Process.Holds.mem : freeMapSector ∈ process.refs + others :=
  Multiset.mem_add.mpr (.inr holds.isMap)

/-- A call that changes the file system only. -/
theorem Process.Holds.act {act : State → Option (Bool × State)}
    (acts : ∀ {result fs'}, act fs = some (result, fs') → Held (process.refs + others) fs')
    (ran : ((act fs).bind fun (_, fs) => some (process, fs)) = some (process', fs')) : process'.Holds others fs' := by
  obtain ⟨⟨result, _⟩, acted, same⟩ := bind_eq_some_iff.mp ran
  cases same
  exact ⟨acts acted, holds.isMap, holds.current⟩

theorem Process.Holds.sysOpen (opened : System.sysOpen path process fs = some (process', fs')) :
    process'.Holds others fs' := by
  obtain ⟨⟨file, fs₁⟩, opens, opened⟩ := bind_eq_some_iff.mp opened
  have first := (holds.held.filesysOpen holds.current opens).1
  rcases file with _ | inode
  · cases opened
    exact ⟨first, holds.isMap, holds.current⟩
  obtain ⟨fs₂, reopens, same⟩ := bind_eq_some_iff.mp opened
  cases same
  have twice : Process.refs { process with
      nextFd := process.nextFd + 1, fileList := process.fileList ++ [⟨process.nextFd, inode, 2⟩] } =
      inode ::ₘ inode ::ₘ process.refs :=
    refs_cons ⟨process.nextFd, inode, 2⟩ (perm_append_singleton _ _) rfl
  refine ⟨?_, holds.isMap, holds.current⟩
  rw [twice, Multiset.cons_add, Multiset.cons_add]
  exact first.open reopens

theorem Process.Holds.sysClose (closed : System.sysClose fd process fs = some (process', fs')) :
    process'.Holds others fs' := by
  rw [System.sysClose] at closed
  split at closed
  next =>
    cases closed
    exact holds
  next fileElem found =>
    obtain ⟨fs₁, closesFile, closed⟩ := bind_eq_some_iff.mp closed
    obtain ⟨fs₂, closesDir, same⟩ := bind_eq_some_iff.mp closed
    cases same
    have twice : process.refs = fileElem.inode ::ₘ fileElem.inode ::ₘ
        Process.refs { process with fileList := process.fileList.erase fileElem } :=
      refs_cons fileElem (perm_cons_erase (mem_of_find?_eq_some found)) rfl
    have held := holds.held
    rw [twice, Multiset.cons_add, Multiset.cons_add] at held
    exact ⟨(held.fileClose closesFile).close closesDir, holds.isMap, holds.current⟩

theorem Process.Holds.sysReaddir (read : System.sysReaddir fd process fs = some (process', fs')) :
    process'.Holds others fs' := by
  rw [System.sysReaddir] at read
  split at read
  · cases read
    exact holds
  rename_i fileElem found
  obtain ⟨inode, _, same⟩ := bind_eq_some_iff.mp read
  cases same
  have inodes : ∀ pos, (process.fileList.map fun other => if other = fileElem then { other with pos } else other).map
      FileElem.inode = process.fileList.map FileElem.inode := by
    intro pos
    rw [map_map]
    apply map_congr_left
    intro other _
    simp only [Function.comp]
    split <;> rfl
  refine ⟨?_, holds.isMap, holds.current⟩
  rw [Process.refs]
  dsimp only
  rw [inodes]
  exact holds.held

theorem Process.Holds.sysChdir (changed : System.sysChdir path process fs = some (process', fs')) :
    process'.Holds others fs' := by
  obtain ⟨⟨current, _⟩, changes, same⟩ := bind_eq_some_iff.mp changed
  cases same
  obtain ⟨held, other⟩ := holds.held.chdir holds.current changes
  refine ⟨held, holds.isMap, ?_⟩
  cases current with
  | none => exact holds.current
  | some dir => simpa using other

end

/-! ## Runs -/

/-- Every process has its references, and `load` has left an executable open before the first. -/
structure System.Holding (system : System) : Prop where
  held : Held system.refs system.fs
  current : ∀ {pid process}, system.processes.lookup pid = some process → process.currentDir ≠ freeMapSector
  loaded : ∀ file ∈ system.loaded, file ≠ freeMapSector
  first : system.loaded = [] → ∀ pid, system.processes.lookup pid = none

theorem System.Holding.call (holding : system.Holding)
    (runs : ∀ {process process' fs' others}, process.Holds others system.fs →
      run process system.fs = some (process', fs') → process'.Holds others fs')
    (called : system.call pid run = some system') : system'.Holding ∧ system.loaded <:+ system'.loaded := by
  obtain ⟨process, found, called⟩ := bind_eq_some_iff.mp called
  obtain ⟨⟨process', fs'⟩, ran, same⟩ := bind_eq_some_iff.mp called
  cases same
  have held := holding.held
  rw [System.refs, refsOf_lookup found, add_assoc] at held
  have after := runs ⟨held, by simp, holding.current found⟩ ran
  refine ⟨⟨?_, fun {other _} isOther => ?_, holding.loaded, fun isFirst => ?_⟩, suffix_rfl⟩
  · rw [System.refs, refsOf_insert, add_assoc]
    exact after.held
  · by_cases same : other = pid
    · rw [same, AList.lookup_insert] at isOther
      cases isOther
      exact after.current
    · rw [AList.lookup_insert_ne same] at isOther
      exact holding.current isOther
  · cases (holding.first isFirst pid).symm.trans found

theorem refsOf_new (missing : pid ∉ processes) :
    refsOf (processes.insert pid process) = process.refs + refsOf processes := by
  rw [refsOf, AList.entries_insert_of_notMem missing, map_cons, sum_cons]
  rfl

/-- `load` leaves the executable open. -/
theorem System.Holding.exec {child : Pid} {cmdLine : Name} {loads : Bool} (holding : system.Holding)
    (missing : child ∉ system.processes) (executed : system.exec child cmdLine loads = some system') :
    system'.Holding ∧ system.loaded <:+ system'.loaded := by
  obtain ⟨name, isWord, executed⟩ := bind_eq_some_iff.mp executed
  obtain ⟨⟨file, fs₁⟩, opened, executed⟩ := bind_eq_some_iff.mp executed
  have isRoot : initThread.currentDir ≠ freeMapSector := by decide
  obtain ⟨opens, other⟩ := holding.held.filesysOpen isRoot opened
  rcases file with _ | file
  · cases executed
    exact ⟨⟨opens, holding.current, holding.loaded, holding.first⟩, suffix_rfl⟩
  have leaves : refsOf system.processes + freeMapSector ::ₘ
      ((file :: system.loaded : List SectorNo) : Multiset SectorNo) =
      file ::ₘ system.refs := by
    rw [System.refs, ← Multiset.cons_coe, Multiset.cons_swap, Multiset.add_cons]
  have loaded : ∀ file' ∈ file :: system.loaded, file' ≠ freeMapSector :=
    forall_mem_cons.mpr ⟨by simpa using other, holding.loaded⟩
  dsimp only at executed
  split at executed
  next =>
    obtain ⟨_, reopened, same⟩ := bind_eq_some_iff.mp executed
    cases same
    obtain ⟨fs₂, opensAgain, rfl⟩ := Option.map_eq_some_iff.mp reopened
    have reopens := opens.open opensAgain
    have execFile : Process.refs { initThread with execFile := some file } = {file} := rfl
    refine ⟨⟨?_, fun {pid process} isProcess => ?_, loaded, nofun⟩, suffix_cons file _⟩
    · rw [System.refs, refsOf_new missing, execFile, add_assoc, leaves, Multiset.singleton_add]
      exact ⟨reopens.count, reopens.sectors, reopens.apart⟩
    · by_cases same : pid = child
      · rw [same, AList.lookup_insert] at isProcess
        cases isProcess
        exact isRoot
      · rw [AList.lookup_insert_ne same] at isProcess
        exact holding.current isProcess
  next =>
    cases executed
    refine ⟨⟨?_, holding.current, loaded, nofun⟩, suffix_cons file _⟩
    rw [System.refs, leaves]
    exact opens

theorem System.Holding.exit (holding : system.Holding) (exited : system.exit pid = some system') :
    system'.Holding ∧ system.loaded <:+ system'.loaded := by
  obtain ⟨process, found, exited⟩ := bind_eq_some_iff.mp exited
  obtain ⟨fs, closed, same⟩ := bind_eq_some_iff.mp exited
  cases same
  have others : ∀ {other process'}, (system.processes.erase pid).lookup other = some process' →
      system.processes.lookup other = some process' := by
    intro other process' isOther
    by_cases same : other = pid
    · rw [same, AList.lookup_erase] at isOther
      cases isOther
    · rwa [AList.lookup_erase_ne same] at isOther
  refine ⟨⟨?_, fun isOther => holding.current (others isOther), holding.loaded, fun isFirst => ?_⟩, suffix_rfl⟩
  · have held := holding.held
    rw [System.refs, refsOf_lookup found, add_assoc] at held
    -- The `struct dir`s of the descriptors stay open.
    refine (held.mono (add_le_add_left ?_ _)).closeAll closed
    rw [← Multiset.coe_add, Process.refs, add_assoc]
    exact Multiset.le_add_left _ _
  · cases (holding.first isFirst pid).symm.trans found

theorem System.Holding.step (holding : system.Holding) (stepped : system.step syscall = some system') :
    system'.Holding ∧ system.loaded <:+ system'.loaded := by
  cases syscall with
  | put path size =>
    obtain ⟨fs, put, rfl⟩ := Option.map_eq_some_iff.mp stepped
    have isMap : freeMapSector ∈ system.refs := by simp [System.refs]
    exact ⟨⟨holding.held.fsutilPut isMap put, holding.current, holding.loaded, holding.first⟩, suffix_rfl⟩
  | exit pid => exact holding.exit stepped
  | exec child cmdLine loads =>
    simp only [System.step] at stepped
    split_ifs at stepped with missing
    exact holding.exec missing stepped
  | create pid path initialSize =>
    refine holding.call (fun holds ran => holds.act (fun created => ?_) ran) stepped
    exact holds.held.newName holds.current (fun _ held made => held.createFile holds.mem made) created
  | remove pid path =>
    exact holding.call (fun holds ran => holds.act
      (fun removed => holds.held.filesysRemove holds.current removed) ran) stepped
  | «open» pid path => exact holding.call (fun holds ran => holds.sysOpen ran) stepped
  | close pid fd => exact holding.call (fun holds ran => holds.sysClose ran) stepped
  | chdir pid path => exact holding.call (fun holds ran => holds.sysChdir ran) stepped
  | mkdir pid path =>
    refine holding.call (fun holds ran => holds.act (fun made => ?_) ran) stepped
    exact holds.held.newName holds.current (fun other held made => held.createDir holds.mem other made) made
  | readdir pid fd => exact holding.call (fun holds ran => holds.sysReaddir ran) stepped

/-- A formatted disk: the free map has its own inode open. -/
theorem format_held (formats : format diskSize = some fs) : Held {freeMapSector} fs := by
  unfold format at formats
  split_ifs at formats with large
  obtain ⟨s₁, created, formats⟩ := bind_eq_some_iff.mp formats
  obtain ⟨s₂, opened, formats⟩ := bind_eq_some_iff.mp formats
  obtain ⟨⟨success, s₃⟩, filled, formats⟩ := bind_eq_some_iff.mp formats
  obtain ⟨holds, first, second⟩ := freeMapInit_unowned large
  have none : Held 0 (freeMapInit diskSize) := ⟨fun d => by simp, holds, nofun⟩
  have withFreeMap := (none.create first created).open opened
  rw [State.dirCreate, if_pos rfl] at filled
  have unowned : Unowned rootDirSector s₂ := by
    obtain ⟨sectors, allocated, inodes⟩ := inodeCreate_some created
    exact (second.stays allocated (nodes_of_inodes inodes) (by decide)).same (inodeOpen_same opened)
  cases success with
  | true =>
    cases formats
    exact withFreeMap.dirFill unowned (by decide) (by decide) filled
  | false => cases formats

/-- Once there has been a process, some inode is open more often than the processes that are left have it, whatever they
and the kernel do. -/
theorem executable_stays_open {boot : State} {between : System} (formats : format diskSize = some boot)
    (ran : Reaches System.step (fun _ _ => True) ⟨boot, ∅, []⟩ between) (live : between.processes.keys ≠ [])
    (rest : Reaches System.step (fun _ _ => True) between system) :
    ∃ file inode, file ≠ freeMapSector ∧ system.fs.inodes file = some inode ∧
      (refsOf system.processes).count file < inode.openCnt := by
  have initially : System.Holding ⟨boot, ∅, []⟩ :=
    ⟨format_held formats, nofun, nofun, fun _ pid => AList.lookup_empty pid⟩
  have before : between.Holding := ran.invariant System.Holding initially
    fun holding _ stepped => (holding.step stepped).1
  have isLoaded : between.loaded ≠ [] := by
    intro isFirst
    obtain ⟨pid, isKey⟩ := exists_mem_of_ne_nil _ live
    have found := AList.lookup_isSome.mpr isKey
    rw [before.first isFirst pid] at found
    cases found
  obtain ⟨holding, isLoaded⟩ : system.Holding ∧ system.loaded ≠ [] :=
    rest.invariant (fun system => system.Holding ∧ system.loaded ≠ []) ⟨before, isLoaded⟩
      fun ⟨holding, isLoaded⟩ _ stepped =>
        ⟨(holding.step stepped).1, fun empty => isLoaded (suffix_nil.mp (empty ▸ (holding.step stepped).2))⟩
  obtain ⟨file, isLoaded⟩ := exists_mem_of_ne_nil _ isLoaded
  have count : (refsOf system.processes).count file < system.fs.openCnt file := by
    refine lt_of_lt_of_le ?_ (holding.held.count file)
    rw [System.refs, Multiset.count_add]
    exact Nat.lt_add_of_pos_right (Multiset.count_pos.mpr (Multiset.mem_cons_of_mem isLoaded))
  cases found : system.fs.inodes file with
  | none => simp [State.openCnt, found] at count
  | some inode => exact ⟨file, inode, holding.loaded file isLoaded, found, openCnt_of_some found ▸ count⟩

theorem executable_stays_open_example : ∃ system : System, system.processes.keys = [] ∧
    ∃ file inode, file ≠ freeMapSector ∧ system.fs.inodes file = some inode ∧
      (refsOf system.processes).count file < inode.openCnt := by
  obtain ⟨boot, between, formats, ran, live, exits⟩ := exists_run 16 System.step (⟨·, ∅, []⟩) (fun _ _ => True)
    (fun between => between.processes.keys ≠ [] ∧ (execute System.step (fun _ _ => True) [.exit 1] between).any
      (fun system => decide (system.processes.keys = [])) = true)
    [.put ['e'] 100, .exec 1 ['e', ' ', 'x'] true] (by decide +kernel)
  obtain ⟨system, rest, ended⟩ := exists_reached System.step (fun _ _ => True) between
    (fun system => system.processes.keys = []) [.exit 1] exits
  exact ⟨system, ended, executable_stays_open formats ran live rest⟩

/-- A process ends with an open descriptor of a removed file: this file stays open and keeps its sectors, as does the
executable. -/
theorem exit_leaves_references : ∃ boot system, format 16 = some boot ∧
    Reaches System.step (fun _ _ => True) ⟨boot, ∅, []⟩ system ∧ system.processes.keys = [] ∧
    (system.fs.inodes 4).any (fun inode => inode.openCnt = 1) = true ∧
    (system.fs.inodes 6).any (fun inode => inode.openCnt = 1 && inode.removed) = true ∧
    system.fs.freeMap[6]? = some true :=
  exists_run 16 System.step (⟨·, ∅, []⟩) (fun _ _ => True) (fun system => system.processes.keys = [] ∧
      (system.fs.inodes 4).any (fun inode => inode.openCnt = 1) = true ∧
      (system.fs.inodes 6).any (fun inode => inode.openCnt = 1 && inode.removed) = true ∧
      system.fs.freeMap[6]? = some true)
    [.put ['e'] 100, .exec 1 ['e'] true, .create 1 ['a'] 100, .open 1 ['a'], .remove 1 ['a'], .exit 1]
    (by decide +kernel)

end Pintos.Directory
