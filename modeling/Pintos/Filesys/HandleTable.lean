import Pintos.Filesys.Handles

/-! # Runs of handles

A world is a file system together with the handles that have not been closed.  In every run the table of open inodes
counts them, and the sectors of a file are given back when it has been removed and its last handle is closed.
-/

namespace Pintos.Filesys

open Library List Volume

inductive HandleCall
  | inodeOpen (sector : Word) (allocated : Bool)
  | inodeReopen (inode : Word)
  | inodeRemove (inode : Word)
  | inodeClose (inode : Word)
  | fileOpen (inode : Word) (allocated : Bool)
  | fileReopen (file : OpenFile) (allocated : Bool)
  | fileClose (file : OpenFile)
  | fileDenyWrite (file : OpenFile)
  | fileAllowWrite (file : OpenFile)
  | dirOpen (inode : Word) (allocated : Bool)
  | dirClose (dir : Word)
  deriving DecidableEq

/-- The handles that have not been closed; `pointers` are those that no file or directory owns. -/
structure HandleWorld where
  fs : FileSys
  pointers : List Word
  files : List OpenFile
  dirs : List Word

def countRefs (pointers : List Word) (files : List OpenFile) (dirs : List Word) (freeMapFile : Option Word)
    (s : Word) : Nat :=
  pointers.count s + (files.map OpenFile.inode).count s + dirs.count s + freeMapFile.toList.count s

def countDenied (files : List OpenFile) (s : Word) : Nat :=
  files.countP fun file => file.denyWrite && file.inode == s

namespace HandleWorld

def step (call : HandleCall) (w : HandleWorld) : Option HandleWorld :=
  match call with
  | .inodeOpen sector allocated => (inodeOpenIn allocated sector w.fs).map fun ended =>
    { w with fs := ended.2, pointers := ended.1.toList ++ w.pointers }
  | .inodeReopen inode => (inodeReopen inode w.fs).map fun ended =>
    { w with fs := ended.2, pointers := inode :: w.pointers }
  | .inodeRemove inode => (inodeRemove inode w.fs).map fun ended => { w with fs := ended.2 }
  | .inodeClose inode => (inodeClose inode w.fs).map fun ended =>
    { w with fs := ended.2, pointers := w.pointers.erase inode }
  | .fileOpen inode allocated => (fileOpen allocated inode w.fs).map fun ended =>
    { w with fs := ended.2, pointers := w.pointers.erase inode, files := ended.1.toList ++ w.files }
  | .fileReopen file allocated => (fileReopen allocated file w.fs).map fun ended =>
    { w with fs := ended.2, files := ended.1.toList ++ w.files }
  | .fileClose file => (fileClose file w.fs).map fun ended => { w with fs := ended.2, files := w.files.erase file }
  | .fileDenyWrite file => (fileDenyWrite file w.fs).map fun ended =>
    { w with fs := ended.2, files := ended.1 :: w.files.erase file }
  | .fileAllowWrite file => (fileAllowWrite file w.fs).map fun ended =>
    { w with fs := ended.2, files := ended.1 :: w.files.erase file }
  | .dirOpen inode allocated => (dirOpen allocated inode w.fs).map fun ended =>
    { w with fs := ended.2, pointers := w.pointers.erase inode, dirs := ended.1.toList ++ w.dirs }
  | .dirClose dir => (dirClose dir w.fs).map fun ended => { w with fs := ended.2, dirs := w.dirs.erase dir }

/-- How many handles an inode has.  `free_map_file` is one that the calls do not reach. -/
def refs (w : HandleWorld) : Word → Nat :=
  countRefs w.pointers w.files w.dirs w.fs.tables.freeMapFile

/-- How many open files deny writes to an inode. -/
def denied (w : HandleWorld) : Word → Nat :=
  countDenied w.files

/-- The inode whose handle a call closes.  `file_reopen` closes only the handle it has just made. -/
def closes : HandleCall → Option Word
  | .inodeClose inode => some inode
  | .fileOpen inode allocated => if allocated then none else some inode
  | .dirOpen inode allocated => if allocated then none else some inode
  | .fileClose file => some file.inode
  | .dirClose dir => some dir
  | _ => none

/-- The call closes the last handle of an inode that has been removed. -/
def Releases (call : HandleCall) (w : HandleWorld) (s : Word) : Prop :=
  closes call = some s ∧ w.refs s = 1 ∧ ∃ inode ∈ w.fs.tables.openInodes, inode.sector = s ∧ inode.removed = true

/-- The callers use handles that they have not closed.  A pointer to an inode that a handle owns may be used too, but
    not given away. -/
def Legal (call : HandleCall) (w : HandleWorld) : Prop :=
  match call with
  | .inodeOpen _ _ => True
  | .inodeReopen inode => 0 < w.refs inode
  | .inodeRemove inode => 0 < w.refs inode
  | .inodeClose inode => inode ∈ w.pointers
  | .fileOpen inode _ => inode ∈ w.pointers
  | .fileReopen file _ => file ∈ w.files
  | .fileClose file => file ∈ w.files
  | .fileDenyWrite file => file ∈ w.files
  | .fileAllowWrite file => file ∈ w.files
  | .dirOpen inode _ => inode ∈ w.pointers
  | .dirClose dir => dir ∈ w.dirs

end HandleWorld

/-! ## Counting handles -/

variable {files : List OpenFile} {pointers dirs : List Word} {fs : FileSys}

section Counting

variable {pointers dirs : List Word} {files : List OpenFile} {freeMapFile : Option Word} {s : Word} {file : OpenFile}

theorem count_inodes_erase (member : file ∈ files) (t : Word) : (files.map OpenFile.inode).count t =
    ((files.erase file).map OpenFile.inode).count t + if t = file.inode then 1 else 0 := by
  rw [((perm_cons_erase member).map OpenFile.inode).count_eq, map_cons, count_first]

theorem countDenied_cons (file : OpenFile) (files : List OpenFile) (t : Word) :
    countDenied (file :: files) t = countDenied files t + if file.denyWrite ∧ t = file.inode then 1 else 0 := by
  unfold countDenied
  rw [countP_cons]
  by_cases same : t = file.inode
  · simp [same]
  · simp [same, Ne.symm same]

theorem countDenied_erase (member : file ∈ files) (t : Word) : countDenied files t =
    countDenied (files.erase file) t + if file.denyWrite ∧ t = file.inode then 1 else 0 := by
  rw [← countDenied_cons]
  exact (perm_cons_erase member).countP_eq _

theorem countRefs_pointer (pointers : List Word) :
    countRefs (s :: pointers) files dirs freeMapFile = oneMore (countRefs pointers files dirs freeMapFile) s := by
  apply eq_oneMore
  intro t
  rw [countRefs, count_first, countRefs]
  omega

theorem countRefs_erase_pointer (member : s ∈ pointers) :
    countRefs (pointers.erase s) files dirs freeMapFile = oneLess (countRefs pointers files dirs freeMapFile) s := by
  apply eq_oneLess
  intro t
  have erased := count_erase member t
  unfold countRefs
  omega

theorem countRefs_file (file : OpenFile) (files : List OpenFile) :
    countRefs pointers (file :: files) dirs freeMapFile =
      oneMore (countRefs pointers files dirs freeMapFile) file.inode := by
  apply eq_oneMore
  intro t
  rw [countRefs, map_cons, count_first, countRefs]
  omega

theorem countRefs_erase_file (member : file ∈ files) : countRefs pointers (files.erase file) dirs freeMapFile =
    oneLess (countRefs pointers files dirs freeMapFile) file.inode := by
  apply eq_oneLess
  intro t
  have erased := count_inodes_erase member t
  unfold countRefs
  omega

theorem countRefs_dir (dirs : List Word) :
    countRefs pointers files (s :: dirs) freeMapFile = oneMore (countRefs pointers files dirs freeMapFile) s := by
  apply eq_oneMore
  intro t
  rw [countRefs, count_first, countRefs]
  omega

theorem countRefs_erase_dir (member : s ∈ dirs) :
    countRefs pointers files (dirs.erase s) freeMapFile = oneLess (countRefs pointers files dirs freeMapFile) s := by
  apply eq_oneLess
  intro t
  have erased := count_erase member t
  unfold countRefs
  omega

theorem countDenied_undenied {made : OpenFile} (flag : made.denyWrite = false) (files : List OpenFile) :
    countDenied (made :: files) = countDenied files := by
  funext t
  rw [countDenied_cons, if_neg (by simp [flag]), add_zero]

theorem countDenied_close (member : file ∈ files) : countDenied (files.erase file) =
    if file.denyWrite then oneLess (countDenied files) file.inode else countDenied files := by
  cases flag : file.denyWrite with
  | true =>
    apply eq_oneLess
    intro t
    simpa [flag] using countDenied_erase member t
  | false =>
    funext t
    simpa [flag] using (countDenied_erase member t).symm

theorem countDenied_deny (member : file ∈ files) :
    countDenied ({ file with denyWrite := true } :: files.erase file) =
      if file.denyWrite then countDenied files else oneMore (countDenied files) file.inode := by
  cases flag : file.denyWrite with
  | true =>
    funext t
    have erased := countDenied_erase member t
    simpa [flag, countDenied_cons] using erased.symm
  | false =>
    apply eq_oneMore
    intro t
    have erased := countDenied_erase member t
    simp only [flag, Bool.false_eq_true, false_and, if_false, add_zero] at erased
    simp [countDenied_cons, erased]

theorem countDenied_le (files : List OpenFile) (s : Word) :
    countDenied files s ≤ (files.map OpenFile.inode).count s := by
  unfold countDenied List.count
  rw [countP_map]
  apply countP_mono_left
  intro file _ both
  simp only [Bool.and_eq_true] at both
  exact both.2

end Counting

namespace HandleWorld

variable {w w' : HandleWorld} {call : HandleCall} {s : Word} {file : OpenFile}

theorem denied_le (w : HandleWorld) (s : Word) : w.denied s ≤ w.refs s := by
  have within := countDenied_le w.files s
  unfold denied refs countRefs
  omega

theorem denied_pos (member : file ∈ w.files) (flag : file.denyWrite = true) : 0 < w.denied file.inode := by
  have counted := countDenied_erase member file.inode
  rw [if_pos ⟨flag, rfl⟩] at counted
  unfold denied
  omega

/-- A file that denies nothing leaves room for one more. -/
theorem denied_lt (member : file ∈ w.files) (flag : file.denyWrite = false) :
    w.denied file.inode < w.refs file.inode := by
  have counted := countDenied_erase member file.inode
  have opened := count_inodes_erase member file.inode
  have within := countDenied_le (w.files.erase file) file.inode
  rw [if_neg (by simp [flag])] at counted
  rw [if_pos rfl] at opened
  unfold denied refs countRefs
  omega

theorem refs_file (member : file ∈ w.files) : 0 < w.refs file.inode := by
  have opened := count_inodes_erase member file.inode
  rw [if_pos rfl] at opened
  unfold refs countRefs
  omega

theorem refs_pointer (member : s ∈ w.pointers) : 0 < w.refs s := by
  have positive := count_pos_iff.mpr member
  unfold refs countRefs
  omega

theorem refs_dir (member : s ∈ w.dirs) : 0 < w.refs s := by
  have positive := count_pos_iff.mpr member
  unfold refs countRefs
  omega

/-- The table has one record for each inode that has a handle, with counters that say how many handles there are and how
    many of them deny writes. -/
def Counts (w : HandleWorld) : Prop :=
  Exact w.fs.tables.openInodes w.refs w.denied

theorem refs_settle {counted : Word → Nat} (mapFile : fs.tables.freeMapFile = w.fs.tables.freeMapFile)
    (same : countRefs pointers files dirs w.fs.tables.freeMapFile = counted) :
    (HandleWorld.mk fs pointers files dirs).refs = counted := by
  rw [← same, ← mapFile]
  rfl

/-- The handles after a call, and what the call did to the table. -/
theorem moves_settle {released : Prop} {refs' denied' : Word → Nat}
    (moves : Moves (view w.fs) (view fs) released refs' denied')
    (sameRefs : countRefs pointers files dirs w.fs.tables.freeMapFile = refs')
    (sameDenied : countDenied files = denied') (implied : released → ∃ s, Releases call w s) :
    Moves (view w.fs) (view fs) (∃ s, Releases call w s) (HandleWorld.mk fs pointers files dirs).refs
      (HandleWorld.mk fs pointers files dirs).denied := by
  have mapFile : fs.tables.freeMapFile = w.fs.tables.freeMapFile := moves.mapFile
  have deniedNow : (HandleWorld.mk fs pointers files dirs).denied = denied' := sameDenied
  rw [refs_settle mapFile sameRefs, deniedNow]
  exact moves.weaken implied

theorem step_moves (counts : w.Counts) (legal : Legal call w) (taken : step call w = some w') :
    Moves (view w.fs) (view w'.fs) (∃ s, Releases call w s) w'.refs w'.denied := by
  have exact : Exact (view w.fs).tables.openInodes w.refs w.denied := counts
  cases call
  all_goals obtain ⟨⟨result, fs⟩, ran, rfl⟩ := Option.map_eq_some_iff.mp taken
  case inodeOpen sector allocated =>
    cases (inodeOpenIn_moves exact (w.denied_le sector) allocated).ended ran with
    | inl unopened =>
      obtain ⟨rfl, moves⟩ := unopened
      exact moves_settle moves rfl rfl False.elim
    | inr opened =>
      obtain ⟨rfl, moves⟩ := opened
      exact moves_settle moves (countRefs_pointer w.pointers) rfl False.elim
  case inodeReopen inode =>
    obtain ⟨-, moves⟩ := (inodeReopen_recounts exact legal).moves.ended ran
    exact moves_settle moves (countRefs_pointer w.pointers) rfl False.elim
  case inodeRemove inode =>
    have moves := (inodeRemove_moves exact legal).ended ran
    exact moves_settle moves rfl rfl False.elim
  case inodeClose inode =>
    have moves := (inodeClose_moves exact (refs_pointer legal)).ended ran
    exact moves_settle moves (countRefs_erase_pointer legal) rfl fun last => ⟨inode, rfl, last⟩
  case fileOpen inode allocated =>
    have held : 0 < w.refs inode := refs_pointer legal
    cases (handOver_moves exact held allocated _).ended ran with
    | inl made =>
      obtain ⟨-, rfl, same⟩ := made
      have owned : countRefs (w.pointers.erase inode)
          ({ inode := inode, pos := 0, denyWrite := false } :: w.files) w.dirs
          w.fs.tables.freeMapFile = w.refs := by
        rw [countRefs_file, countRefs_erase_pointer legal]
        exact oneMore_oneLess held
      have moves : Moves (view w.fs) (view fs) False w.refs w.denied := same ▸ exact.stays False
      exact moves_settle moves owned (countDenied_undenied rfl w.files) False.elim
    | inr closed =>
      obtain ⟨rfl, rfl, moves⟩ := closed
      exact moves_settle moves (countRefs_erase_pointer legal) rfl fun last => ⟨inode, rfl, last⟩
  case fileReopen file allocated =>
    cases (fileReopen_moves exact (refs_file legal) allocated).ended ran with
    | inl made =>
      obtain ⟨rfl, moves⟩ := made
      exact moves_settle moves (countRefs_file _ w.files) (countDenied_undenied rfl w.files) False.elim
    | inr unopened =>
      obtain ⟨rfl, moves⟩ := unopened
      exact moves_settle moves rfl rfl False.elim
  case fileClose file =>
    have moves := (fileClose_moves exact (refs_file legal) (denied_pos legal) (w.denied_le file.inode)).ended ran
    exact moves_settle moves (countRefs_erase_file legal) (countDenied_close legal) fun last => ⟨file.inode, rfl, last⟩
  case fileDenyWrite file =>
    obtain ⟨rfl, moves⟩ := (fileDenyWrite_recounts exact (denied_lt legal)).moves.ended ran
    refine moves_settle moves ?_ (countDenied_deny legal) False.elim
    rw [countRefs_file, countRefs_erase_file legal]
    exact oneMore_oneLess (refs_file legal)
  case fileAllowWrite file =>
    obtain ⟨rfl, moves⟩ :=
      (fileAllowWrite_recounts exact (denied_pos legal) (w.denied_le file.inode)).moves.ended ran
    refine moves_settle moves ?_ ((countDenied_undenied rfl _).trans (countDenied_close legal)) False.elim
    rw [countRefs_file, countRefs_erase_file legal]
    exact oneMore_oneLess (refs_file legal)
  case dirOpen inode allocated =>
    have held : 0 < w.refs inode := refs_pointer legal
    cases (handOver_moves exact held allocated inode).ended ran with
    | inl made =>
      obtain ⟨-, rfl, same⟩ := made
      have owned : countRefs (w.pointers.erase inode) w.files (inode :: w.dirs) w.fs.tables.freeMapFile = w.refs := by
        rw [countRefs_dir, countRefs_erase_pointer legal]
        exact oneMore_oneLess held
      have moves : Moves (view w.fs) (view fs) False w.refs w.denied := same ▸ exact.stays False
      exact moves_settle moves owned rfl False.elim
    | inr closed =>
      obtain ⟨rfl, rfl, moves⟩ := closed
      exact moves_settle moves (countRefs_erase_pointer legal) rfl fun last => ⟨inode, rfl, last⟩
  case dirClose dir =>
    have moves := (inodeClose_moves exact (refs_dir legal)).ended ran
    exact moves_settle moves (countRefs_erase_dir legal) rfl fun last => ⟨dir, rfl, last⟩

end HandleWorld

/-! ## The sectors of a removed inode -/

section Release

variable {safe : Prop} {v : View} {a : Volume} {s : Word} {f : File} {handle : Handle}

/-- The sector is that of a file, or free. -/
def Volume.Settled (a : Volume) (s : Word) : Prop :=
  (a.files s).isSome ∨ ¬ Used a.freeMap s

theorem Volume.Settled.close (settled : a.Settled s) (t : Word) : (a.close t).Settled s := by
  unfold Volume.close delete
  split
  next => exact settled
  split
  next =>
    dsimp only
    split
    next =>
      split
      next => exact settled
      next f found =>
        by_cases same : s = t
        · exact .inr fun used => (used_clearAll.mp used).2 (same ▸ mem_cons_self)
        · refine settled.imp (fun isFile => ?_) fun free used => free (used_clearAll.mp used).1
          simpa [setMap, same] using isFile
    next => exact settled
  next => exact settled

/-- The disk and the table of open inodes are in order, and every file of the given volume that is not on the disk any
    more has been given back. -/
def Follows (a : Volume) (v : View) : Prop :=
  ∃ b, Represents v b ∧ b.Sound ∧ ∀ s, (a.files s).isSome → b.Settled s

section

variable (follows : Follows a v)

include follows

theorem Follows.change {change : Inode → Inode} (change' : Handle → Handle)
    (allowed : ∀ handle, (change' handle).sector = handle.sector ∧ (s = freeMapSector → handle.denyWriteCnt = 0 →
      (change' handle).denyWriteCnt = 0) := by exact fun _ => ⟨rfl, fun _ => id⟩)
    (same : ∀ inode, (change inode).handle = change' inode.handle := by exact fun _ => rfl)
    (keeps : ∀ inode, (change inode).sector = inode.sector ∧ (change inode).data = inode.data := by
      exact fun _ => ⟨rfl, rfl⟩) :
    Yields False (modifyInode s change) v fun _ w => Follows a w := by
  obtain ⟨b, rep, sound, settled⟩ := follows
  apply (modifyInode_returns s _).yields
  exact ⟨_, rep.modifyInode same keeps, sound.setHandle allowed, settled⟩

theorem Follows.find : Yields False (findInode s) v fun _ w => Follows a w := by
  apply getTables_returns.bind
  split
  next => exact Yields.pure follows
  next => exact fun _ _ => id

theorem Follows.reopen : Yields False (inodeReopen s) v fun _ w => Follows a w :=
  follows.find.bind fun _ _ found => found.change fun handle => { handle with openCnt := handle.openCnt + 1 }

theorem Follows.deny (notMap : s ≠ freeMapSector) : Yields False (inodeDenyWrite s) v fun _ w => Follows a w := by
  apply (follows.change (fun handle => { handle with denyWriteCnt := handle.denyWriteCnt + 1 })
    fun _ => ⟨rfl, fun isMap => absurd isMap notMap⟩).bind
  intro _ _ changed
  apply changed.find.bind
  intro _ _ found
  split
  next => exact Yields.pure found
  next => exact fun _ _ => id

variable {refs denied : Word → Nat} (exact : Exact v.tables.openInodes refs denied) (held : 0 < refs s)
  (own : s = freeMapSector → refs s ≠ 1)

include exact held own

theorem Follows.close : Yields False (inodeClose s) v fun _ w => Follows a w := by
  obtain ⟨b, rep, sound, settled⟩ := follows
  obtain ⟨inode, found, member, named⟩ := exact.find held
  have isOpen : b.handle s = some inode.handle := by
    rw [rep.find_handle, found]
    rfl
  have own : s = freeMapSector → inode.handle.openCnt ≠ 1 := by
    show _ → inode.openCnt ≠ 1
    rwa [exact.counted inode member, named]
  apply (inodeClose_represents rep sound isOpen own).mono
  intro _ w repAfter
  exact ⟨_, repAfter, sound.close isOpen own, fun s isFile => (settled s isFile).close _⟩

end

namespace HandleWorld

variable {w w' : HandleWorld} {call : HandleCall}

/-- No call has been made: at most the file of the free map is open. -/
@[mk_iff] structure Initial (w : HandleWorld) : Prop where
  pointers : w.pointers = []
  files : w.files = []
  dirs : w.dirs = []
  table : w.fs.tables.openInodes.map (fun inode => (inode.sector, inode.openCnt, inode.denyWriteCnt)) =
    w.fs.tables.freeMapFile.toList.map fun sector => (sector, 1, 0)

theorem Initial.counts (initial : w.Initial) : w.Counts := by
  have refs : ∀ s, w.refs s = w.fs.tables.freeMapFile.toList.count s := by
    intro s
    simp [HandleWorld.refs, countRefs, initial.pointers, initial.files, initial.dirs]
  have denied : ∀ s, w.denied s = 0 := by
    intro s
    simp [HandleWorld.denied, countDenied, initial.files]
  have once : w.fs.tables.freeMapFile.toList.Nodup := by cases w.fs.tables.freeMapFile <;> simp
  have sectors : w.fs.tables.openInodes.map Inode.sector = w.fs.tables.freeMapFile.toList := by
    simpa [Function.comp_def] using congrArg (map Prod.fst) initial.table
  have records : ∀ inode ∈ w.fs.tables.openInodes,
      inode.sector ∈ w.fs.tables.freeMapFile.toList ∧ inode.openCnt = 1 ∧ inode.denyWriteCnt = 0 := by
    intro inode member
    have listed := mem_map_of_mem (f := fun inode : Inode => (inode.sector, inode.openCnt, inode.denyWriteCnt)) member
    rw [initial.table] at listed
    simpa [eq_comm] using listed
  constructor
  case once => exact sectors ▸ once
  case present =>
    intro s held
    rwa [refs, count_pos_iff, ← sectors, mem_map] at held
  case counted =>
    intro inode member
    obtain ⟨listed, openCnt, -⟩ := records inode member
    rw [openCnt, refs, count_eq_one_of_mem once listed]
  case positive =>
    intro inode member
    rw [(records inode member).2.1]
    exact one_pos
  case denies =>
    intro inode member
    rw [(records inode member).2.2, denied]

instance (call : HandleCall) (w : HandleWorld) : Decidable (Legal call w) :=
  match call with
  | .inodeOpen _ _ => .isTrue trivial
  | .inodeReopen inode | .inodeRemove inode => Nat.decLt 0 (w.refs inode)
  | .inodeClose inode | .fileOpen inode _ | .dirOpen inode _ =>
    decidable_of_iff (0 < w.pointers.count inode) count_pos_iff
  | .fileReopen file _ | .fileClose file | .fileDenyWrite file | .fileAllowWrite file =>
    decidable_of_iff (0 < w.files.count file) count_pos_iff
  | .dirClose dir => decidable_of_iff (0 < w.dirs.count dir) count_pos_iff

instance (w : HandleWorld) : Decidable w.Initial :=
  decidable_of_iff _ (initial_iff w).symm

end HandleWorld

end Release

end Pintos.Filesys
