import Pintos.Filesys.DirectoryTree

/-! # The directory tree along runs

What holds of the directory tree after any run of `filesys_create`, `SYS_MKDIR`, `filesys_open`, `filesys_remove` and
closes.
-/

namespace Pintos.Directory

open Library Function List State
open Option (bind_eq_some_iff bind_some map_eq_some_iff some)

/-! ## Where paths lead -/

/-- Where a path leads: the directory, and the last name. -/
def State.destination (currentDir : SectorNo) (path : Name) (s : State) : Option (SectorNo × Name) :=
  match s.openPath currentDir path with
  | some ((dir, some name), _) => some (dir, name)
  | _ => none

def State.isDirectoryAt (s : State) (sector : SectorNo) : Bool :=
  (s.inodes sector).any fun inode => inode.isDirectory && !inode.removed

/-- The inode that `dir_remove` finds under a name. -/
def Inode.target (inode : Inode) (name : Name) : Option SectorNo :=
  (inode.lookup name).map fun found => found.2.inodeSector

/-- The inode that `filesys_remove` finds at the end of a path. -/
def State.target (currentDir : SectorNo) (path : Name) (s : State) : Option SectorNo := do
  let (dir, name) ← s.destination currentDir path
  let inode ← s.inodes dir
  inode.target name

variable {s s' : State} {nodes : SectorNo → Option Node} {freeMap freeMap' : Bitmap} {d x dir currentDir : SectorNo}
  {n : Node} {e : DirEntry} {name path : Name} {inode : Inode} {result : Bool}

/-! ## New inodes -/

variable {sectors : List SectorNo}

variable {level length : Nat}

theorem inodeCreate_some {isDirectory : Bool} (created : s.inodeCreate x length isDirectory level = some s') :
    ∃ sectors, Allocated s.freeMap s'.freeMap sectors ∧ s'.inodes = update s.inodes x
      (some { isDirectory, level, entries := replicate (length / entrySize) .zero, tail := length % entrySize, sectors
              openCnt := 0, removed := false }) := by
  obtain ⟨⟨sectors, marked⟩, allocated, same⟩ := bind_eq_some_iff.mp created
  cases same
  obtain ⟨taken, inodes⟩ := allocateSectors_some allocated
  exact ⟨sectors, taken, by rw [← inodes]; rfl⟩

theorem nodes_of_inodes (changed : s'.inodes = update s.inodes x (some inode)) :
    s'.nodes = update s.nodes x (some inode.node) := by
  have same : s'.nodes = (s.setInode x inode).nodes := by
    funext y
    rw [nodes, changed]
    rfl
  rw [same, nodes_setInode]

theorem inodeRelease_some (released : s.inodeRelease x = some s') :
    ∃ inode, s.inodes x = some inode ∧ s'.nodes = update s.nodes x none ∧
      ∀ i : Nat, i ∉ x :: inode.sectors → s'.freeMap[i]? = s.freeMap[i]? := by
  obtain ⟨inode, found, released⟩ := bind_eq_some_iff.mp released
  obtain ⟨cleared, freed, same⟩ := bind_eq_some_iff.mp released
  cases same
  obtain ⟨kept, inodes⟩ := freeMapRelease_some freed
  refine ⟨inode, found, ?_, fun i outside => kept i fun inside => outside ?_⟩
  · funext y
    by_cases same : y = x
    · subst same
      simp [nodes]
    · simp [nodes, same, inodes]
  · simpa [or_comm] using inside

/-- The entries of a new directory. -/
def newEntries (sector parent : SectorNo) : List DirEntry :=
  ⟨sector, dot, true⟩ :: ⟨parent, dotDot, true⟩ :: replicate 14 .zero

theorem dirAdd_free {k : Nat} (found : s.inodes d = some inode) (valid : ¬ (name = [] ∨ nameMax < name.length))
    (missing : inode.lookup name = none) (free : (inode.entries.findIdx? fun e => !e.inUse) = some k) :
    s.dirAdd d name x = some (true, s.setInode d { inode with entries := inode.entries.set k ⟨x, name, true⟩ }) := by
  have invalid : ¬ (name = [] ∨ nameMax < name.length ∨ (inode.lookup name).isSome) := by
    rw [missing, ← or_assoc]
    simpa using valid
  simp only [dirAdd, found, Option.bind_eq_bind, bind_some, if_neg invalid, free]

variable {parent : SectorNo} {count : Nat}

/-- A new directory gets its first two entries. -/
theorem dirFill_some (filled : s.dirFill x parent level = some (result, s')) :
    result = true ∧ ∃ sectors, Allocated s.freeMap s'.freeMap sectors ∧ s'.nodes = update s.nodes x
      (some { isDirectory := true, level, entries := newEntries x parent, sectors, removed := false }) := by
  obtain ⟨s₁, created, filled⟩ := bind_eq_some_iff.mp filled
  obtain ⟨sectors, allocated, inodes⟩ := inodeCreate_some created
  obtain ⟨s₂, opened, filled⟩ := bind_eq_some_iff.mp filled
  obtain ⟨inode, found, rfl⟩ := map_eq_some_iff.mp opened
  rw [inodes, update_self] at found
  cases found
  rw [dirAdd_free (update_self ..) (by decide) rfl rfl] at filled
  obtain ⟨⟨_, s₃⟩, same, filled⟩ := bind_eq_some_iff.mp filled
  cases same
  dsimp only at filled
  rw [if_pos rfl, dirAdd_free (update_self ..) (by decide) rfl rfl] at filled
  obtain ⟨⟨_, s₄⟩, same, filled⟩ := bind_eq_some_iff.mp filled
  cases same
  have isResult : result = true := by
    obtain ⟨_, _, same⟩ := map_eq_some_iff.mp filled
    exact (Prod.mk.inj same).1.symm
  have closed := closeDir_same ⟨_, by rw [nodes_setInode, update_self], rfl⟩ filled
  refine ⟨isResult, sectors, closed.freeMap ▸ allocated, ?_⟩
  rw [closed.nodes, nodes_setInode, nodes_setInode, nodes_setInode, nodes_of_inodes inodes]
  simp only [update_idem]
  rfl

/-- A sector that is marked, but not one of an inode. -/
structure Unowned (x : SectorNo) (s : State) : Prop where
  nobody : ∀ d, x ∉ owned s.nodes d
  marked : s.freeMap[x]? = some true

theorem Unowned.same (unowned : Unowned x s) (same : Same s s') : Unowned x s' := by
  refine ⟨fun d => ?_, ?_⟩
  · rw [same.nodes]
    exact unowned.nobody d
  · rw [same.freeMap]
    exact unowned.marked

section

variable {s₁ : State} (allocated : Allocated s.freeMap s₁.freeMap n.sectors)
    (created : s₁.nodes = update s.nodes x (some n))

include allocated created

/-- A new inode in such a sector. -/
theorem Unowned.holds (unowned : Unowned x s) (holds : Holds (owned s.nodes) s.freeMap) :
    Holds (owned s₁.nodes) s₁.freeMap := by
  have here : owned s₁.nodes x = x :: n.sectors := by rw [owned, created, update_self]
  have elsewhere : ∀ y, y ≠ x → owned s₁.nodes y = owned s.nodes y := fun y other => by rw [created, owned_update other]
  refine holds.gain elsewhere allocated.kept (fun i isNew => .inr fun other isOwner => ?_) fun i isNew => ?_
  · cases mem_cons.mp (here ▸ isNew) with
    | inl isHead => exact unowned.nobody other (isHead ▸ isOwner)
    | inr isSector => cases (allocated.clear i isSector).symm.trans (holds.marked isOwner)
  · cases mem_cons.mp (here ▸ isNew) with
    | inl isHead => exact isHead ▸ allocated.kept x unowned.marked
    | inr isSector => exact allocated.marked i isSector

theorem Unowned.stays (unowned : Unowned d s) (other : d ≠ x) : Unowned d s₁ := by
  refine ⟨fun y isOwner => ?_, allocated.kept d unowned.marked⟩
  rw [created] at isOwner
  by_cases same : y = x
  · rw [same, owned, update_self] at isOwner
    cases mem_cons.mp isOwner with
    | inl isHead => exact other isHead
    | inr isSector => cases (allocated.clear d isSector).symm.trans unowned.marked
  · rw [owned_update same] at isOwner
    exact unowned.nobody y isOwner

end

/-! ## The calls -/

/-- The directory tree of a state, with nothing under way. -/
def State.IsTree (s : State) : Prop :=
  Tree none s.nodes s.freeMap

theorem State.IsTree.same (tree : s.IsTree) (same : Same s s') : s'.IsTree := by
  rw [State.IsTree, same.nodes, same.freeMap]
  exact tree

/-- A step of a run that removes nothing. -/
structure Grows (s s' : State) : Prop where
  tree : s'.IsTree
  folders : ∀ {y level}, (hierarchy s.nodes).folder y level → (hierarchy s'.nodes).folder y level

theorem State.IsTree.grows (tree : s.IsTree) (same : Same s s') : Grows s s' := by
  refine ⟨tree.same same, fun isFolder => ?_⟩
  rw [same.nodes]
  exact isFolder

theorem Grows.same {s'' : State} (grows : Grows s s') (same : Same s' s'') : Grows s s'' := by
  refine ⟨grows.tree.same same, fun isFolder => ?_⟩
  rw [same.nodes]
  exact grows.folders isFolder

theorem Grows.live (grows : Grows s s') (isFolder : (hierarchy s.nodes).folder x level) : (hierarchy s'.nodes).live x :=
  grows.tree.sound.live (grows.folders isFolder)

theorem Same.live (same : Same s s') (live : (hierarchy s.nodes).live x) : (hierarchy s'.nodes).live x := by
  rw [same.nodes]
  exact live

theorem openPath_some {last : Option Name} (tree : s.IsTree) (live : (hierarchy s.nodes).live (startOf currentDir path))
    (walked : s.openPath currentDir path = some ((dir, last), s')) : Same s s' ∧ (hierarchy s.nodes).live dir := by
  obtain ⟨opened, isOpen, walked⟩ := bind_eq_some_iff.mp walked
  have opens := inodeOpen_same isOpen
  obtain ⟨walks, liveDir⟩ := walk_some (tree.same opens) (opens.live live) walked
  exact ⟨opens.trans walks, opens.nodes ▸ liveDir⟩

/-- A directory has no entry of another name for itself or for the one above it. -/
theorem valid_of_lookup (formed : inode.node.Formed d) (isDirectory : inode.isDirectory = true)
    (missing : inode.lookup name = none) : name ≠ dot ∧ name ≠ dotDot := by
  have absent := lookupFrom_none missing
  refine ⟨?_, ?_⟩
  · rintro rfl
    exact absent _ (mem_of_getElem? (formed.isDot isDirectory)) rfl rfl
  · rintro rfl
    obtain ⟨upper, isUp⟩ := formed.isDotDot isDirectory
    exact absent _ (mem_of_getElem? isUp) rfl rfl

/-- A new inode is not one of those that the disk is formatted with. -/
theorem State.IsTree.new_ne (tree : s.IsTree) (clear : s.freeMap[x]? = some false) :
    s.nodes x = none ∧ x ≠ rootDirSector ∧ x ≠ freeMapSector := by
  have new := tree.absent clear
  have notLive : ¬ (hierarchy s.nodes).live x := by
    rintro ⟨n, found, _⟩
    cases new.symm.trans found
  refine ⟨new, ?_, ?_⟩
  · rintro rfl
    exact notLive (tree.sound.live tree.sound.rooted)
  · rintro rfl
    exact notLive tree.freeMapFile

/-- A new inode, and `dir_add` of a name for it. -/
theorem State.IsTree.link {s₁ : State} (tree : s.IsTree) (isFolder : (hierarchy s.nodes).folder dir level)
    (allocated : Allocated s.freeMap s₁.freeMap (x :: n.sectors)) (created : s₁.nodes = update s.nodes x (some n))
    (formed : n.Formed x) (notRemoved : n.removed = false) (empty : ∀ i y, ¬ n.Child i y)
    (above : n.isDirectory = true → n.entries[1]? = some ⟨dir, dotDot, true⟩ ∧ n.level = level + 1)
    (adds : s₁.dirAdd dir name x = some (true, s')) : Grows s s' := by
  obtain ⟨new, notRoot, notFreeMap⟩ := tree.new_ne (allocated.clear x mem_cons_self)
  have other : dir ≠ x := by
    rintro rfl
    obtain ⟨_, found, _⟩ := isFolder
    cases new.symm.trans found
  have added : Tree (some x) s₁.nodes s₁.freeMap := by
    rw [created]
    refine tree.add formed notRemoved empty allocated fun isDirectory => ?_
    exact ⟨dir, level, (above isDirectory).1, isFolder, (above isDirectory).2⟩
  have here : s₁.nodes x = some n := by rw [created, update_self]
  obtain ⟨inode, found, outcome⟩ := dirAdd_cases adds
  obtain ⟨_, missing, k, entries, sectors, puts, taken, inodes⟩ := outcome.resolve_left fun failed => nomatch failed.1
  have isNode := nodes_of_inode found
  have dirStays : inode.node.removed = false ∧ inode.node.isDirectory = true := by
    obtain ⟨m, before, dirNotRemoved, isDirectory, _⟩ := isFolder
    rw [created, update_of_ne other, before] at isNode
    cases isNode
    exact ⟨dirNotRemoved, isDirectory⟩
  have after := nodes_of_inodes inodes
  refine ⟨?_, ?_⟩
  · rw [State.IsTree, after]
    refine added.link isNode dirStays.1 dirStays.2 puts (valid_of_lookup (added.formed isNode) dirStays.2 missing) taken
      ⟨n, here, notRemoved⟩ notRoot notFreeMap fun level upper newFolder isUp => ?_
    -- The way up from a new directory is where it is added.
    obtain ⟨n', found', _, isDirectory, _⟩ := newFolder
    obtain ⟨n'', found'', isUp⟩ := isUp
    cases here.symm.trans found'
    cases here.symm.trans found''
    cases isUp.symm.trans (above isDirectory).1
    rfl
  · intro y level isFolder
    have others : (hierarchy s₁.nodes).folder y level := by
      rw [created]
      exact (exists_update_new new).mpr (.inl isFolder)
    have kept : (hierarchy (update s₁.nodes dir
        (some (Inode.node { inode with entries, sectors := inode.sectors ++ sectors })))).folder y level ↔
        (hierarchy s₁.nodes).folder y level := exists_update_some isNode Iff.rfl
    rw [after]
    exact kept.mpr others

theorem formed_file :
    Node.Formed x { isDirectory := false, level, entries := replicate count .zero, sectors, removed := false } where
  isDot isDirectory := by cases isDirectory
  isDotDot isDirectory := by cases isDirectory
  proper {i e} entry inUse := by
    rw [eq_of_mem_replicate (mem_of_getElem? entry)] at inUse
    cases inUse
  file _ {i e} entry := by rw [eq_of_mem_replicate (mem_of_getElem? entry)]; rfl

variable {i : Nat} {string : Name}

theorem newEntries_unused (entry : (newEntries x parent)[i + 2]? = some e) : e.inUse = false := by
  have isZero : e ∈ replicate 14 DirEntry.zero := mem_of_getElem? (i := i) entry
  rw [eq_of_mem_replicate isZero]
  rfl

theorem formed_directory :
    Node.Formed x { isDirectory := true, level, entries := newEntries x parent, sectors, removed := false } where
  isDot _ := rfl
  isDotDot _ := ⟨parent, rfl⟩
  proper {i e} entry inUse := by cases inUse.symm.trans (newEntries_unused entry)
  file isFile := by cases isFile

theorem child_file (i : Nat) (y : SectorNo) :
    ¬ Node.Child { isDirectory := false, level, entries := replicate count .zero, sectors, removed := false } i y := by
  rintro ⟨e, entry, inUse, _⟩
  rw [eq_of_mem_replicate (mem_of_getElem? entry)] at inUse
  cases inUse

theorem child_directory (i : Nat) (y : SectorNo) :
    ¬ Node.Child { isDirectory := true, level, entries := newEntries x parent, sectors, removed := false } i y := by
  rintro ⟨e, entry, inUse, _⟩
  cases inUse.symm.trans (newEntries_unused entry)

theorem folder_of_isDirectoryAt (isDirectory : s.isDirectoryAt x = true) :
    ∃ level, (hierarchy s.nodes).folder x level := by
  unfold isDirectoryAt at isDirectory
  cases found : s.inodes x with
  | none => simp [found] at isDirectory
  | some inode =>
    rw [found, Option.any_some, Bool.and_eq_true, Bool.not_eq_true'] at isDirectory
    exact ⟨_, inode.node, nodes_of_inode found, isDirectory.2, isDirectory.1, rfl⟩

theorem dirLookup_none (looked : s.dirLookup d name = some (none, s')) (found : s.nodes d = some n) :
    lookupFrom name 0 n.entries = none := by
  obtain ⟨inode, isInode, looked⟩ := bind_eq_some_iff.mp looked
  obtain ⟨inode', isInode', rfl⟩ := nodes_eq_some.mp found
  cases isInode.symm.trans isInode'
  split at looked
  next missing => exact missing
  next =>
    obtain ⟨_, _, same⟩ := map_eq_some_iff.mp looked
    cases same

section

variable (tree : s.IsTree)

include tree

/-- A path to a new name keeps the tree if what is made there does. -/
theorem newName_grows {make : SectorNo → Name → State → Option (Bool × State)}
    (live : (hierarchy s.nodes).live (startOf currentDir path))
    (makes : ∀ dir name s₁, s.destination currentDir path = some (dir, name) → Same s s₁ →
      (∀ n, s.nodes dir = some n → lookupFrom name 0 n.entries = none) →
        make dir name s₁ = some (result, s') → Grows s s')
    (made : s.newName currentDir path make = some (result, s')) : Grows s s' := by
  obtain ⟨⟨⟨dir, last⟩, s₁⟩, opened, made⟩ := bind_eq_some_iff.mp made
  obtain ⟨walks, liveDir⟩ := openPath_some tree live opened
  rcases last with _ | name
  · exact tree.grows (walks.trans (closeDir_same (walks.live liveDir) made))
  obtain ⟨⟨found, s₂⟩, looked, made⟩ := bind_eq_some_iff.mp made
  have looks := walks.trans (dirLookup_some (tree.same walks) (walks.live liveDir) looked).1
  cases found with
  | some x => exact tree.grows (looks.trans (closeDir_same (looks.live liveDir) made))
  | none =>
    refine makes dir name s₂ (by rw [destination, opened]) looks (fun n found => ?_) made
    rw [← walks.nodes] at found
    exact dirLookup_none looked found

/-- `filesys_create`, in a directory. -/
theorem createFile_grows {initialSize : Nat} (isFolder : (hierarchy s.nodes).folder dir level)
    (made : s.createFile initialSize dir name = some (result, s')) : Grows s s' := by
  have live := tree.sound.live isFolder
  obtain ⟨dirInode, _, made⟩ := bind_eq_some_iff.mp made
  split at made
  · exact tree.grows (closeDir_same live made)
  split at made
  · exact tree.grows (closeDir_same live made)
  rename_i x s₁ allocated
  obtain ⟨clear, rfl⟩ := freeMapAllocate_some allocated
  obtain ⟨s₂, created, made⟩ := bind_eq_some_iff.mp made
  obtain ⟨⟨added, s₃⟩, adds, made⟩ := bind_eq_some_iff.mp made
  obtain ⟨sectors, taken, inodes⟩ := inodeCreate_some created
  have allocated : Allocated s.freeMap s₂.freeMap (x :: sectors) := taken.cons clear
  cases added with
  | true =>
    have linked := tree.link isFolder allocated (nodes_of_inodes inodes) formed_file rfl child_file nofun adds
    exact linked.same (closeDir_same (linked.live isFolder) made)
  | false =>
    -- The inode goes again, and leaves the tree as it was.
    dsimp only at made
    rw [if_neg Bool.false_ne_true] at made
    obtain ⟨s₄, released, closes⟩ := bind_eq_some_iff.mp made
    obtain ⟨_, _, outcome⟩ := dirAdd_cases adds
    obtain ⟨_, rfl, _⟩ := outcome.resolve_right fun succeeded => nomatch succeeded.1
    obtain ⟨inode, found, nodes, kept⟩ := inodeRelease_some released
    rw [inodes, update_self] at found
    cases found
    have same : s₄.nodes = s.nodes := by
      rw [nodes, nodes_of_inodes inodes, update_idem]
      exact update_eq_self_iff.mpr (tree.new_ne clear).1.symm
    have restored : Grows s s₄ := by
      refine ⟨?_, fun isFolder => same.symm ▸ isFolder⟩
      rw [State.IsTree, same]
      refine tree.mono fun i marked => ?_
      have other : i ∉ x :: sectors := fun isNew => nomatch marked.symm.trans (allocated.clear i isNew)
      rw [kept i other]
      exact allocated.kept i marked
    exact restored.same (closeDir_same (same ▸ live) closes)

/-- `SYS_MKDIR`, in a directory and with a name that `dir_add` accepts. -/
theorem createDir_grows (isFolder : (hierarchy s.nodes).folder dir level) (valid : name ≠ [] ∧ name.length ≤ nameMax)
    (missing : ∀ n, s.nodes dir = some n → lookupFrom name 0 n.entries = none)
    (made : s.createDir dir name = some (result, s')) : Grows s s' := by
  have live := tree.sound.live isFolder
  unfold createDir at made
  split at made
  · exact tree.grows (closeDir_same live made)
  rename_i x s₁ allocated
  obtain ⟨clear, rfl⟩ := freeMapAllocate_some allocated
  obtain ⟨⟨created, s₂⟩, creates, made⟩ := bind_eq_some_iff.mp made
  obtain ⟨new, notRoot, _⟩ := tree.new_ne clear
  have marked : Grows s { s with freeMap := s.freeMap.set x true } := ⟨tree.mono (kept_mark clear), id⟩
  unfold dirCreate at creates
  rw [if_neg notRoot] at creates
  obtain ⟨s₃, opened, creates⟩ := bind_eq_some_iff.mp creates
  obtain ⟨parentInode, isParent, creates⟩ := bind_eq_some_iff.mp creates
  obtain ⟨s₄, closed, creates⟩ := bind_eq_some_iff.mp creates
  have opens := inodeOpen_same opened
  have same := opens.trans (inodeClose_same (opens.live live) closed)
  have isLevel : parentInode.level = level := by
    obtain ⟨n, found, _, _, rfl⟩ := isFolder
    have isNode := nodes_of_inode isParent
    rw [opens.nodes] at isNode
    cases found.symm.trans isNode
    rfl
  split at creates
  · cases creates
    exact marked.same (same.trans (closeDir_same (same.live live) made))
  obtain ⟨rfl, sectors, taken, nodes⟩ := dirFill_some creates
  dsimp only at made
  rw [if_pos rfl] at made
  obtain ⟨⟨added, s₅⟩, adds, made⟩ := bind_eq_some_iff.mp made
  rw [same.freeMap] at taken
  rw [same.nodes] at nodes
  have isAdded : added = true := by
    obtain ⟨inode, found, outcome⟩ := dirAdd_cases adds
    refine (outcome.resolve_left fun failed => ?_).1
    have other : dir ≠ x := by
      rintro rfl
      obtain ⟨_, found, _⟩ := isFolder
      cases new.symm.trans found
    have isNode := nodes_of_inode found
    rw [nodes, update_of_ne other] at isNode
    obtain ⟨_, _, empty | long | present⟩ := failed
    · exact valid.1 empty
    · exact absurd long (Nat.not_lt.mpr valid.2)
    · rw [show inode.lookup name = none from missing _ isNode] at present
      cases present
  subst isAdded
  have linked := tree.link isFolder (taken.cons clear) nodes formed_directory rfl child_directory
    (fun _ => ⟨rfl, congrArg (· + 1) isLevel⟩) adds
  exact linked.same (closeDir_same (linked.live isFolder) made)

/-! ### `filesys_open` and closes -/

theorem openWalk_same {path : List (Name × Bool)} {before after : Option SectorNo} (live : (hierarchy s.nodes).live d)
    (walked : s.openWalk path d before = some (after, s')) : Same s s' := by
  induction path generalizing s d before with
  | nil =>
    cases walked
    exact .refl
  | cons token rest ih =>
    obtain ⟨name, isLast⟩ := token
    rw [openWalk] at walked
    split at walked
    next => cases walked
    next s₁ looked =>
      obtain ⟨s₂, closed, same⟩ := map_eq_some_iff.mp walked
      cases same
      have looks := (dirLookup_some tree live looked).1
      exact looks.trans (inodeClose_same (looks.live live) closed)
    next x s₁ looked =>
      obtain ⟨s₂, closed, walked⟩ := bind_eq_some_iff.mp walked
      obtain ⟨looks, liveNext⟩ := dirLookup_some tree live looked
      have both := looks.trans (inodeClose_same (looks.live live) closed)
      exact both.trans (ih (tree.same both) (both.live (liveNext x rfl)) walked)

theorem filesysOpen_same {file : Option SectorNo} (live : (hierarchy s.nodes).live (startOf currentDir path))
    (opened : s.filesysOpen currentDir path = some (file, s')) : Same s s' := by
  obtain ⟨s₁, isOpen, opened⟩ := bind_eq_some_iff.mp opened
  obtain ⟨⟨inode, s₂⟩, walked, opened⟩ := bind_eq_some_iff.mp opened
  have opens := inodeOpen_same isOpen
  have walks := opens.trans (openWalk_same (tree.same opens) (opens.live live) walked)
  cases inode with
  | some inode =>
    cases opened
    exact ⟨walks.nodes, walks.freeMap⟩
  | none =>
    dsimp only at opened
    split at opened
    next =>
      obtain ⟨s₃, isRoot, same⟩ := bind_eq_some_iff.mp opened
      cases same
      have opens := walks.trans (inodeOpen_same isRoot)
      exact ⟨opens.nodes, opens.freeMap⟩
    next =>
      cases opened
      exact walks

/-- A close keeps the tree, also where it is the last one of a removed inode. -/
theorem inodeClose_grows (closed : s.inodeClose x = some s') : Grows s s' := by
  cases inodeClose_cases closed with
  | inl same => exact tree.grows same
  | inr gone =>
    obtain ⟨n, found, removed, released⟩ := gone
    obtain ⟨inode, isInode, nodes, kept⟩ := inodeRelease_some released
    have isNode := nodes_of_inode isInode
    cases found.symm.trans isNode
    have isOwned : owned s.nodes x = x :: inode.sectors := by
      rw [owned, isNode]
      rfl
    refine ⟨?_, fun {y level} isFolder => ?_⟩
    · rw [State.IsTree, nodes]
      exact tree.free isNode removed (isOwned ▸ kept)
    · rw [nodes]
      refine (exists_update_none fun n' found' isFolder' => ?_).mpr isFolder
      cases isNode.symm.trans found'
      cases removed.symm.trans isFolder'.1

theorem fileClose_grows {file : SectorNo} (closed : s.fileClose file = some s') : Grows s s' := by
  unfold fileClose at closed
  split_ifs at closed
  have grows : Grows { s with files := s.files.erase file } s' := inodeClose_grows tree closed
  exact ⟨grows.tree, grows.folders⟩

/-! ### `filesys_remove` -/

omit tree in
theorem lookup_dotDot (formed : inode.node.Formed d) (isDirectory : inode.isDirectory = true)
    (found : inode.lookup name = some (i, e)) :
    name = dot ∨ (∃ upper, inode.entries[1]? = some ⟨upper, dotDot, true⟩ ∧ e.inodeSector = upper) ∨
      ∃ j, i = j + 2 := by
  obtain ⟨entry, _, isName⟩ := lookup_some found
  match i with
  | 0 =>
    cases entry.symm.trans (formed.isDot isDirectory)
    exact .inl isName.symm
  | 1 =>
    obtain ⟨upper, isUp⟩ := formed.isDotDot isDirectory
    cases entry.symm.trans isUp
    exact .inr (.inl ⟨upper, isUp, rfl⟩)
  | j + 2 => exact .inr (.inr ⟨j, rfl⟩)

omit tree in
theorem not_child_of_dirIsEmpty (empty : inode.dirIsEmpty = true) (i : Nat) (y : SectorNo) :
    ¬ inode.node.Child i y := by
  rintro ⟨e, entry, inUse, _⟩
  have isEntry : e ∈ inode.entries.drop 2 := by
    apply mem_of_getElem? (i := i)
    rw [getElem?_drop, Nat.add_comm]
    exact entry
  have unused := all_eq_true.mp empty e isEntry
  rw [inUse] at unused
  cases unused

section

variable (current : (hierarchy s.nodes).folder currentDir level)

include current

/-- The directory above one that is not removed has an entry for it, and so does the root if there is any other. -/
theorem State.IsTree.upper_names {upper : SectorNo} (isFolder : ∃ level, (hierarchy s.nodes).folder dir level)
    (isUp : (hierarchy s.nodes).up dir upper)
    (other : upper ≠ currentDir) : (∃ level, (hierarchy s.nodes).folder upper level) ∧
      ∃ i y, (hierarchy s.nodes).names upper i y := by
  obtain ⟨level, isFolder⟩ := isFolder
  cases tree.sound.up isFolder isUp with
  | inl isRoot =>
    obtain ⟨_, rfl⟩ := isRoot
    exact ⟨⟨0, tree.sound.rooted⟩, tree.sound.root_names current other.symm⟩
  | inr above =>
    obtain ⟨⟨level', isUpper, _⟩, linked⟩ := above
    obtain ⟨i, named⟩ := linked.resolve_right nofun
    exact ⟨⟨level', isUpper⟩, i, dir, named⟩

/-- An accepted `dir_remove` of a name other than `.` is of an entry after the first two. -/
theorem State.IsTree.removable {found : Inode} (live : (hierarchy s.nodes).live dir) (notDot : name ≠ dot)
    (isDir : s.inodes dir = some inode) (looked : inode.lookup name = some (i, e))
    (isTarget : s.nodes e.inodeSector = some found.node)
    (accepted : ¬ (e.inodeSector = currentDir ∨ (found.isDirectory ∧ !found.dirIsEmpty))) :
    (∃ j, i = j + 2) ∧ ∀ j y, ¬ found.node.Child j y := by
  have isNode := nodes_of_inode isDir
  obtain ⟨entry, inUse, _⟩ := lookup_some looked
  have isDirectory : inode.isDirectory = true := by
    by_contra isFile
    cases inUse.symm.trans ((tree.formed isNode).file (Bool.eq_false_iff.mpr isFile) entry)
  have empty : ∀ j y, ¬ found.node.Child j y := by
    cases kind : found.isDirectory with
    | true =>
      apply not_child_of_dirIsEmpty
      by_contra full
      exact accepted (.inr ⟨kind, by simpa using full⟩)
    | false =>
      rintro j y ⟨e', entry', inUse', _⟩
      cases inUse'.symm.trans ((tree.formed isTarget).file kind entry')
  refine ⟨?_, empty⟩
  obtain isDot | ⟨upper, isUp, isUpper⟩ | later := lookup_dotDot (tree.formed isNode) isDirectory looked
  · exact absurd isDot notDot
  · -- The directory above is not empty.
    obtain ⟨n, isNode', notRemoved⟩ := live
    cases isNode.symm.trans isNode'
    have isFolder : (hierarchy s.nodes).folder dir inode.level := ⟨inode.node, isNode, notRemoved, isDirectory, rfl⟩
    obtain ⟨_, j, y, m, isTarget', child⟩ := tree.upper_names current ⟨_, isFolder⟩ ⟨inode.node, isNode, isUp⟩
      fun same => accepted (.inl (isUpper.trans same))
    rw [← isUpper, isTarget] at isTarget'
    cases isTarget'
    exact absurd child (empty j y)
  · exact later

theorem dirRemove_isTree (live : (hierarchy s.nodes).live dir) (notDot : name ≠ dot)
    (removed : s.dirRemove currentDir dir name = some (result, s')) :
    s'.IsTree ∧ (hierarchy s'.nodes).live dir ∧ ∀ y l, (hierarchy s.nodes).folder y l →
      y = currentDir ∨ (∀ inode, s.inodes dir = some inode → inode.target name ≠ some y) →
      (hierarchy s'.nodes).folder y l := by
  obtain ⟨dirInode, isDir, removed⟩ := bind_eq_some_iff.mp removed
  split at removed
  · cases removed
    exact ⟨tree, live, fun y l isFolder _ => isFolder⟩
  rename_i i e looked
  have isNode := nodes_of_inode isDir
  obtain ⟨entry, inUse, _⟩ := lookup_some looked
  have liveTarget := tree.live_of_entry live isNode entry inUse
  obtain ⟨s₁, opened, removed⟩ := bind_eq_some_iff.mp removed
  have opens := inodeOpen_same opened
  obtain ⟨inode, isInode, removed⟩ := bind_eq_some_iff.mp removed
  have isTarget := nodes_of_inode isInode
  rw [opens.nodes] at isTarget
  split at removed
  next =>
    obtain ⟨s₂, closed, same⟩ := bind_eq_some_iff.mp removed
    cases same
    have same := opens.trans (inodeClose_same (opens.live liveTarget) closed)
    exact ⟨tree.same same, same.live live, fun y l isFolder _ => same.nodes ▸ isFolder⟩
  next accepted =>
    obtain ⟨⟨j, rfl⟩, empty⟩ := tree.removable current live notDot isDir looked isTarget accepted
    have other : e.inodeSector ≠ dir := tree.sound.names_ne ⟨_, isNode, e, entry, inUse, rfl⟩
    obtain ⟨dirInode₁, isDir₁, removed⟩ := bind_eq_some_iff.mp removed
    obtain ⟨inode₁, isInode₁, removed⟩ := bind_eq_some_iff.mp removed
    obtain ⟨s₂, closed, same⟩ := bind_eq_some_iff.mp removed
    cases same
    -- Opening the inode has changed neither of the two.
    have sameInode : inode₁ = inode := by
      have kept := (update_of_ne other _ s₁.inodes).symm.trans isInode₁
      exact some.inj (kept.symm.trans isInode)
    have sameDir : dirInode₁.node = dirInode.node := by
      have isNode₁ := nodes_of_inode isDir₁
      rw [opens.nodes, isNode] at isNode₁
      exact (some.inj isNode₁).symm
    subst sameInode
    have unlinked := tree.unlink isNode entry inUse isTarget empty
    generalize erased : s₁.setInode dir _ = s₃ at closed
    generalize marked : s₃.setInode e.inodeSector _ = s₄ at closed
    have nodes : s₄.nodes = update (update s.nodes dir (some { dirInode.node with
        entries := dirInode.entries.set (j + 2) { e with inUse := false } }))
        e.inodeSector (some { inode₁.node with removed := true }) := by
      rw [← marked, nodes_setInode, ← erased, nodes_setInode, opens.nodes]
      show update (update s.nodes dir (some { dirInode₁.node with
        entries := dirInode₁.node.entries.set (j + 2) { e with inUse := false } })) _ _ = _
      rw [sameDir]
      rfl
    have freeMap : s₄.freeMap = s.freeMap := by
      rw [← marked, ← erased]
      exact opens.freeMap
    have treeAfter : s₄.IsTree := by
      rw [State.IsTree, nodes, freeMap]
      exact unlinked
    have closes := inodeClose_grows treeAfter closed
    have folders : ∀ y l, (hierarchy s.nodes).folder y l → y ≠ e.inodeSector → (hierarchy s'.nodes).folder y l := by
      intro y l isFolder different
      apply closes.folders
      rw [nodes]
      have kept : (hierarchy (update s.nodes dir (some { dirInode.node with
          entries := dirInode.entries.set (j + 2) { e with inUse := false } }))).folder y l ↔
          (hierarchy s.nodes).folder y l := exists_update_some isNode Iff.rfl
      exact (exists_update_gone (by simp)).mpr ⟨kept.mpr isFolder, different⟩
    obtain ⟨dirLevel, dirFolder⟩ := tree.sound.container ⟨_, isNode, e, entry, inUse, rfl⟩
    refine ⟨closes.tree, closes.tree.sound.live (folders dir dirLevel dirFolder other.symm),
      fun y l isFolder safe => ?_⟩
    refine folders y l isFolder ?_
    cases safe with
    | inl isCurrent =>
      intro same
      exact accepted (.inl (same.symm.trans isCurrent))
    | inr notTarget =>
      intro same
      exact notTarget dirInode isDir (by rw [Inode.target, looked, same]; rfl)

theorem filesysRemove_isTree (notDot : ∀ dir name, s.destination currentDir path = some (dir, name) → name ≠ dot)
    (removed : s.filesysRemove currentDir path = some (result, s')) :
    s'.IsTree ∧ ∀ y l, (hierarchy s.nodes).folder y l → y = currentDir ∨ s.target currentDir path ≠ some y →
      (hierarchy s'.nodes).folder y l := by
  have live : (hierarchy s.nodes).live (startOf currentDir path) := by
    unfold startOf
    split
    next => exact tree.sound.live tree.sound.rooted
    next => exact tree.sound.live current
  obtain ⟨⟨⟨dir, last⟩, s₁⟩, opened, removed⟩ := bind_eq_some_iff.mp removed
  obtain ⟨walks, liveDir⟩ := openPath_some tree live opened
  rcases last with _ | name
  · have same := walks.trans (closeDir_same (walks.live liveDir) removed)
    exact ⟨tree.same same, fun y l isFolder _ => same.nodes ▸ isFolder⟩
  have leads : s.destination currentDir path = some (dir, name) := by rw [destination, opened]
  obtain ⟨⟨success, s₂⟩, removes, closed⟩ := bind_eq_some_iff.mp removed
  obtain ⟨treeAfter, liveAfter, folders⟩ := dirRemove_isTree (tree.same walks) (walks.nodes ▸ current)
    (walks.live liveDir) (notDot dir name leads) removes
  have closes := closeDir_same liveAfter closed
  refine ⟨treeAfter.same closes, fun y l isFolder safe => ?_⟩
  rw [closes.nodes]
  refine folders y l (walks.nodes ▸ isFolder) (safe.imp_right fun notTarget inode isInode isTarget => notTarget ?_)
  -- The walk has not changed the entries of the directory.
  have isNode := nodes_of_inode isInode
  rw [walks.nodes] at isNode
  obtain ⟨inode', isInode', same⟩ := nodes_eq_some.mp isNode
  have sameEntries : inode'.entries = inode.entries := congrArg Node.entries same
  simp only [target, leads, isInode', Option.bind_eq_bind, bind_some]
  rw [Inode.target, Inode.lookup, sameEntries]
  exact isTarget

end

end

/-! ### Names -/

theorem strtokR_ne_nil {token next : Name} (found : strtokR string = some (token, next)) : token ≠ [] := by
  unfold strtokR at found
  split at found
  next => cases found
  next rest notEmpty =>
    cases found
    cases start : string.dropWhile (· = '/') with
    | nil => exact absurd start notEmpty
    | cons first rest =>
      -- The first character is not a delimiter.
      have notSlash := head?_dropWhile_not (fun c : Char => decide (c = '/')) string
      rw [start] at notSlash
      simp only [head?_cons, decide_eq_false_iff_not] at notSlash
      simp [notSlash]

theorem tokensUpTo_ne_nil : ∀ token ∈ tokensUpTo length string, token.1 ≠ [] := by
  induction length generalizing string with
  | zero => exact nofun
  | succ length ih =>
    rw [tokensUpTo]
    split
    next => exact nofun
    next token next found =>
      intro other isToken
      cases mem_cons.mp isToken with
      | inl isFirst =>
        subst isFirst
        exact strtokR_ne_nil found
      | inr later => exact ih other later

theorem walk_mem {path : List (Name × Bool)} (walked : s.walk path d = some ((dir, some name), s')) :
    (name, true) ∈ path := by
  induction path generalizing s d with
  | nil => cases walked
  | cons token rest ih =>
    obtain ⟨first, isLast⟩ := token
    cases isLast with
    | true =>
      cases walked
      exact mem_cons_self
    | false =>
      rw [walk] at walked
      split at walked
      next => cases walked
      next => cases walked
      next =>
        obtain ⟨_, _, walked⟩ := bind_eq_some_iff.mp walked
        exact mem_cons_of_mem _ (ih walked)

theorem destination_ne_nil (leads : s.destination currentDir path = some (dir, name)) : name ≠ [] := by
  unfold destination at leads
  split at leads
  next opened =>
    cases leads
    obtain ⟨_, _, walked⟩ := bind_eq_some_iff.mp opened
    exact tokensUpTo_ne_nil _ (walk_mem walked)
  next => cases leads

end Pintos.Directory
