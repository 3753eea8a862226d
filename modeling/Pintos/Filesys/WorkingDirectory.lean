import Mathlib.Data.List.AList
import Pintos.Filesys.TreeInvariant

/-! # Current directories

`SYS_CHDIR`, and processes that make system calls on paths from their current directories.  A process keeps the sector
of its current directory, but does not have its inode open.
-/

namespace Pintos.Directory

open Library Option

namespace State

/-- The loop of `SYS_CHDIR`: the open directory at the end, and the new current directory if the loop gets to one. -/
def chdirWalk : List (Name × Bool) → SectorNo → Option SectorNo → State → Option ((SectorNo × Option SectorNo) × State)
  | [], dir, current, s => some ((dir, current), s)
  | (name, last) :: rest, dir, current, s =>
    match s.dirLookup dir name with
    | none => none
    | some (none, s) => some ((dir, current), s)
    | some (some inode, s) =>
      (s.inodeClose dir).bind fun s => chdirWalk rest inode (if last then some inode else current) s

/-- `SYS_CHDIR` -/
def chdir (currentDir : SectorNo) (path : Name) (s : State) : Option (Option SectorNo × State) := do
  let s ← s.inodeOpen (startOf currentDir path)
  let ((dir, current), s) ← s.chdirWalk (tokens path) (startOf currentDir path) none
  let s ← s.inodeClose dir
  some (current, s)

end State

abbrev Pid := Nat

/-- The file system, and the current directories of the live processes. -/
structure Processes where
  fs : State
  currentDirs : AList fun _ : Pid => SectorNo

/-- A new process, its end, `SYS_CHDIR`, the system calls on paths, and closes. -/
inductive Call
  | start (pid : Pid)
  | exit (pid : Pid)
  | chdir (pid : Pid) (path : Name)
  | create (pid : Pid) (path : Name) (initialSize : Nat)
  | mkdir (pid : Pid) (path : Name)
  | open (pid : Pid) (path : Name)
  | remove (pid : Pid) (path : Name)
  | close (file : SectorNo)
  deriving DecidableEq, Repr

/-- The `current_dir` of a process. -/
def Processes.currentDir (p : Processes) (pid : Pid) : Option SectorNo :=
  p.currentDirs.lookup pid

/-- A system call of a live process on the file system. -/
def Processes.call (pid : Pid) (label : SectorNo → Label) (p : Processes) : Option Processes := do
  let currentDir ← p.currentDir pid
  let fs ← step (label currentDir) p.fs
  some { p with fs }

/-- One completed system call. -/
def Processes.step (call : Call) (p : Processes) : Option Processes :=
  match call with
  | .start pid =>
    if p.currentDir pid = none then some { p with currentDirs := p.currentDirs.insert pid rootDirSector } else none
  | .exit pid => some { p with currentDirs := p.currentDirs.erase pid }
  | .chdir pid path => do
    let currentDir ← p.currentDir pid
    let (new, fs) ← p.fs.chdir currentDir path
    some { fs, currentDirs := p.currentDirs.insert pid (new.getD currentDir) }
  | .create pid path initialSize => p.call pid (.create · path initialSize)
  | .mkdir pid path => p.call pid (.mkdir · path)
  | .open pid path => p.call pid (.open · path)
  | .remove pid path => p.call pid (.remove · path)
  | .close file => (p.fs.fileClose file).map fun fs => { p with fs }

/-- The calls that keep current directories: `filesys_create` and `SYS_MKDIR` in directories, with names that `dir_add`
accepts, `SYS_CHDIR` to a directory, and no removal of the current directory of another process or by the name `.`. -/
def keepsCurrent (call : Call) (p : Processes) : Prop :=
  match call with
  | .start _ | .exit _ | .open _ _ | .close _ => True
  | .chdir pid path =>
    (p.currentDir pid).all fun currentDir =>
      (p.fs.chdir currentDir path).all fun (new, _) => new.all fun dir => p.fs.isDirectoryAt dir
  | .create pid path _ =>
    (p.currentDir pid).all fun currentDir =>
      (p.fs.destination currentDir path).all fun (dir, _) => p.fs.isDirectoryAt dir
  | .mkdir pid path =>
    (p.currentDir pid).all fun currentDir =>
      (p.fs.destination currentDir path).all fun (dir, name) => p.fs.isDirectoryAt dir && decide (name.length ≤ nameMax)
  | .remove pid path =>
    (p.currentDir pid).all fun currentDir =>
      ((p.fs.destination currentDir path).all fun (_, name) => decide (name ≠ dot)) &&
      p.currentDirs.keys.all fun other => decide (other = pid ∨ p.currentDir other ≠ p.fs.target currentDir path)

instance (call : Call) (p : Processes) : Decidable (keepsCurrent call p) := by
  unfold keepsCurrent
  split <;> infer_instance

variable {s s' fs : State} {p p' : Processes} {d x currentDir : SectorNo} {path : Name} {pid : Pid}

/-! ## `SYS_CHDIR` -/

theorem chdirWalk_some {tokens : List (Name × Bool)} {dir : SectorNo} {current current' : Option SectorNo}
    (tree : s.IsTree) (live : (hierarchy s.nodes).live d)
    (walked : s.chdirWalk tokens d current = some ((dir, current'), s')) :
    Same s s' ∧ (hierarchy s.nodes).live dir := by
  induction tokens generalizing s d current with
  | nil =>
    cases walked
    exact ⟨.refl, live⟩
  | cons token rest ih =>
    obtain ⟨name, last⟩ := token
    rw [State.chdirWalk] at walked
    split at walked
    next => cases walked
    next s₁ looked =>
      cases walked
      exact ⟨(dirLookup_some tree live looked).1, live⟩
    next inode s₁ looked =>
      obtain ⟨s₂, closed, walked⟩ := bind_eq_some_iff.mp walked
      obtain ⟨looks, liveNext⟩ := dirLookup_some tree live looked
      have both := looks.trans (inodeClose_same (looks.live live) closed)
      obtain ⟨rest, liveDir⟩ := ih (tree.same both) (both.live (liveNext inode rfl)) walked
      exact ⟨both.trans rest, both.nodes ▸ liveDir⟩

theorem chdir_same {new : Option SectorNo} (tree : s.IsTree) (live : (hierarchy s.nodes).live (startOf currentDir path))
    (changed : s.chdir currentDir path = some (new, s')) : Same s s' := by
  obtain ⟨s₁, opened, changed⟩ := bind_eq_some_iff.mp changed
  obtain ⟨⟨⟨dir, current⟩, s₂⟩, walked, changed⟩ := bind_eq_some_iff.mp changed
  obtain ⟨s₃, closed, same⟩ := bind_eq_some_iff.mp changed
  cases same
  have opens := inodeOpen_same opened
  obtain ⟨walks, liveDir⟩ := chdirWalk_some (tree.same opens) (opens.live live) walked
  exact (opens.trans walks).trans (inodeClose_same (walks.live liveDir) closed)

/-! ## Runs -/

/-- The directory tree, and current directories in it. -/
structure Processes.Safe (p : Processes) : Prop where
  tree : p.fs.IsTree
  current : ∀ {pid d}, p.currentDir pid = some d → ∃ level, (hierarchy p.fs.nodes).folder d level

theorem Processes.Safe.start (safe : p.Safe) (found : p.currentDir pid = some currentDir) :
    (hierarchy p.fs.nodes).live (startOf currentDir path) := by
  unfold startOf
  split
  next => exact safe.tree.sound.live safe.tree.sound.rooted
  next =>
    obtain ⟨_, isFolder⟩ := safe.current found
    exact safe.tree.sound.live isFolder

/-- A call that removes no directory. -/
theorem Processes.Safe.grows (safe : p.Safe) (grows : Grows p.fs fs) : Processes.Safe { p with fs } where
  tree := grows.tree
  current found := by
    obtain ⟨level, isFolder⟩ := safe.current found
    exact ⟨level, grows.folders isFolder⟩

/-- The current directory of one process changes, to a directory. -/
theorem Processes.Safe.insert (safe : p.Safe) {level : Nat} (isFolder : (hierarchy p.fs.nodes).folder d level) :
    Processes.Safe { p with currentDirs := p.currentDirs.insert pid d } where
  tree := safe.tree
  current {other dir} found := by
    by_cases same : other = pid
    · subst same
      cases (AList.lookup_insert p.currentDirs).symm.trans found
      exact ⟨level, isFolder⟩
    · exact safe.current ((AList.lookup_insert_ne same).symm.trans found)

/-- A call of a process with a known current directory. -/
theorem Processes.call_some {label : SectorNo → Label} (called : p.call pid label = some p') :
    ∃ currentDir fs, p.currentDir pid = some currentDir ∧ Directory.step (label currentDir) p.fs = some fs ∧
      p' = { p with fs } := by
  obtain ⟨currentDir, found, called⟩ := bind_eq_some_iff.mp called
  obtain ⟨fs, stepped, same⟩ := bind_eq_some_iff.mp called
  cases same
  exact ⟨currentDir, fs, found, stepped, rfl⟩

theorem Processes.Safe.remove {result : Bool} (safe : p.Safe) (found : p.currentDir pid = some currentDir)
    (notDot : (p.fs.destination currentDir path).all fun (_, name) => decide (name ≠ dot))
    (others : ∀ other ∈ p.currentDirs.keys, other = pid ∨ p.currentDir other ≠ p.fs.target currentDir path)
    (removed : p.fs.filesysRemove currentDir path = some (result, fs)) : Processes.Safe { p with fs } := by
  obtain ⟨level, current⟩ := safe.current found
  obtain ⟨tree, folders⟩ := filesysRemove_isTree safe.tree current
    (fun dir name leads => by simpa [leads] using notDot) removed
  refine ⟨tree, fun {other d} isCurrent => ?_⟩
  obtain ⟨l, isFolder⟩ := safe.current isCurrent
  refine ⟨l, folders d l isFolder ?_⟩
  have isKey : other ∈ p.currentDirs.keys :=
    AList.lookup_isSome.mp (by rw [show p.currentDirs.lookup other = some d from isCurrent]; rfl)
  -- `dir_remove` refuses its own current directory, and the others are not found.
  cases others other isKey with
  | inl same =>
    subst same
    exact .inl (some.inj (isCurrent.symm.trans found))
  | inr different => exact .inr fun isTarget => different (isCurrent.trans isTarget.symm)

theorem Processes.Safe.step {call : Call} (safe : p.Safe) (keeps : keepsCurrent call p)
    (stepped : p.step call = some p') : p'.Safe := by
  cases call with
  | start pid =>
    simp only [Processes.step] at stepped
    split_ifs at stepped
    cases stepped
    exact safe.insert safe.tree.sound.rooted
  | exit pid =>
    cases stepped
    refine ⟨safe.tree, fun {other d} found => ?_⟩
    by_cases same : other = pid
    · subst same
      cases (AList.lookup_erase other p.currentDirs).symm.trans found
    · have stays : p.currentDir other = some d := (AList.lookup_erase_ne same).symm.trans found
      exact safe.current stays
  | chdir pid path =>
    obtain ⟨currentDir, found, stepped⟩ := bind_eq_some_iff.mp stepped
    obtain ⟨⟨new, fs⟩, changed, same⟩ := bind_eq_some_iff.mp stepped
    cases same
    have same := chdir_same safe.tree (safe.start found) changed
    have after := safe.grows (safe.tree.grows same)
    have isFolder : ∃ level, (hierarchy p.fs.nodes).folder (new.getD currentDir) level := by
      cases new with
      | none => exact safe.current found
      | some dir => exact folder_of_isDirectoryAt (by simpa [keepsCurrent, found, changed] using keeps)
    obtain ⟨level, isFolder⟩ := isFolder
    exact after.insert (same.nodes ▸ isFolder)
  | create pid path initialSize =>
    obtain ⟨currentDir, fs, found, called, rfl⟩ := Processes.call_some stepped
    obtain ⟨⟨result, _⟩, created, rfl⟩ := map_eq_some_iff.mp called
    exact safe.grows (filesysCreate_grows safe.tree (safe.start found)
      (by simpa [keepsCurrent, found] using keeps) created)
  | mkdir pid path =>
    obtain ⟨currentDir, fs, found, called, rfl⟩ := Processes.call_some stepped
    obtain ⟨⟨result, _⟩, made, rfl⟩ := map_eq_some_iff.mp called
    exact safe.grows (mkdir_grows safe.tree (safe.start found) (by simpa [keepsCurrent, found] using keeps) made)
  | «open» pid path =>
    obtain ⟨currentDir, fs, found, called, rfl⟩ := Processes.call_some stepped
    obtain ⟨⟨file, _⟩, opened, rfl⟩ := map_eq_some_iff.mp called
    exact safe.grows (safe.tree.grows (filesysOpen_same safe.tree (safe.start found) opened))
  | remove pid path =>
    obtain ⟨currentDir, fs, found, called, rfl⟩ := Processes.call_some stepped
    obtain ⟨⟨result, _⟩, removed, rfl⟩ := map_eq_some_iff.mp called
    simp only [keepsCurrent, found, all_some, Bool.and_eq_true, List.all_eq_true, decide_eq_true_eq] at keeps
    exact safe.remove found keeps.1 keeps.2 removed
  | close file =>
    obtain ⟨fs, closed, rfl⟩ := map_eq_some_iff.mp stepped
    exact safe.grows (fileClose_grows safe.tree closed)

/-- The current directory of every live process is a directory that is not removed, and marked used in the free map. -/
theorem current_directory_live {diskSize : Nat} {boot : State} (formats : format diskSize = some boot)
    (reached : Reaches Processes.step keepsCurrent ⟨boot, ∅⟩ p) (isCurrent : p.currentDir pid = some d) :
    ∃ inode, p.fs.inodes d = some inode ∧ inode.isDirectory = true ∧ inode.removed = false ∧
      p.fs.freeMap[d]? = some true := by
  have initially : Processes.Safe ⟨boot, ∅⟩ := ⟨format_isTree formats, fun found => by cases found⟩
  have safe : p.Safe := reached.invariant Processes.Safe initially fun safe keeps stepped => safe.step keeps stepped
  obtain ⟨_, n, isNode, notRemoved, isDirectory, _⟩ := safe.current isCurrent
  obtain ⟨inode, found, rfl⟩ := nodes_eq_some.mp isNode
  refine ⟨inode, found, isDirectory, notRemoved, safe.tree.owned.marked (show d ∈ owned p.fs.nodes d from ?_)⟩
  rw [owned, isNode]
  exact List.mem_cons_self

/-- Process 1 goes to its new directory `a`, and cannot remove it from there. -/
theorem current_directory_live_example : ∃ boot p, format 16 = some boot ∧
    Reaches Processes.step keepsCurrent ⟨boot, ∅⟩ p ∧ p.currentDir 1 = some 4 ∧
    ∃ inode, p.fs.inodes 4 = some inode ∧ inode.isDirectory = true ∧ inode.removed = false ∧
      p.fs.freeMap[4]? = some true := by
  obtain ⟨boot, p, formats, reached, isCurrent⟩ :=
    exists_run 16 Processes.step (⟨·, ∅⟩) keepsCurrent (fun p => p.currentDir 1 = some 4)
    [.start 1, .mkdir 1 ['a'], .chdir 1 ['a'], .remove 1 ['/', 'a'], .start 2, .mkdir 2 ['b'], .remove 1 ['/', 'b']]
    (by decide +kernel)
  exact ⟨boot, p, formats, reached, isCurrent, current_directory_live formats reached isCurrent⟩

/-- `dir_remove` tests the current directory of the caller only: process 2 removes that of process 1. -/
theorem removed_by_other : ∃ boot p, format 16 = some boot ∧ Reaches Processes.step (fun _ _ => True) ⟨boot, ∅⟩ p ∧
    p.currentDir 1 = some 4 ∧ p.fs.inodes 4 = none ∧ p.fs.freeMap[4]? = some false :=
  exists_run 16 Processes.step (⟨·, ∅⟩) (fun _ _ => True)
    (fun p => p.currentDir 1 = some 4 ∧ p.fs.inodes 4 = none ∧ p.fs.freeMap[4]? = some false)
    [.start 1, .start 2, .mkdir 1 ['a'], .chdir 1 ['a'], .remove 2 ['/', 'a']] (by decide +kernel)

end Pintos.Directory
