import Pintos.Filesys.DirectorySteps

/-! # The directory tree invariant

Which calls keep the directory tree, and what it is in every state that they lead to from a formatted disk.
-/

namespace Pintos.Directory

open Kernel Library Function List Option

variable {s s' : State} {d x dir currentDir : SectorNo} {n : Node} {e : DirEntry} {name path : Name} {inode : Inode}

/-! ## A formatted disk -/

/-- The inodes of a formatted disk. -/
def formatted (freeMapSectors rootSectors : List SectorNo) (count : Nat) : SectorNo → Option Node :=
  update (update (fun _ => none) freeMapSector (some
      { isDirectory := false, level := 0, entries := replicate count .zero, sectors := freeMapSectors,
        removed := false }))
    rootDirSector (some
      { isDirectory := true, level := 0, entries := newEntries rootDirSector rootDirSector, sectors := rootSectors
        removed := false })

variable {freeMapSectors rootSectors : List SectorNo} {count diskSize : Nat} {result : Bool}

theorem formatted_cases (found : formatted freeMapSectors rootSectors count x = some n) :
    x = freeMapSector ∧ n = { isDirectory := false, level := 0, entries := replicate count .zero
                              sectors := freeMapSectors, removed := false } ∨
    x = rootDirSector ∧ n = { isDirectory := true, level := 0, entries := newEntries rootDirSector rootDirSector
                              sectors := rootSectors, removed := false } := by
  unfold formatted at found
  by_cases isRoot : x = rootDirSector
  · subst isRoot
    rw [update_self] at found
    exact .inr ⟨rfl, (some.inj found).symm⟩
  · rw [update_of_ne isRoot] at found
    by_cases isFreeMap : x = freeMapSector
    · subst isFreeMap
      rw [update_self] at found
      exact .inl ⟨rfl, (some.inj found).symm⟩
    · rw [update_of_ne isFreeMap] at found
      cases found

theorem formatted_formed (found : formatted freeMapSectors rootSectors count x = some n) : n.Formed x := by
  obtain ⟨rfl, rfl⟩ | ⟨rfl, rfl⟩ := formatted_cases found
  · exact formed_file
  · exact formed_directory

theorem formatted_names (d : SectorNo) (i : Nat) (y : SectorNo) :
    ¬ (hierarchy (formatted freeMapSectors rootSectors count)).names d i y := by
  rintro ⟨n, found, child⟩
  obtain ⟨rfl, rfl⟩ | ⟨rfl, rfl⟩ := formatted_cases found
  · exact child_file i y child
  · exact child_directory i y child

theorem formatted_folder {level : Nat}
    (isFolder : (hierarchy (formatted freeMapSectors rootSectors count)).folder d level) :
    d = rootDirSector ∧ level = 0 := by
  obtain ⟨n, found, _, isDirectory, rfl⟩ := isFolder
  obtain ⟨rfl, rfl⟩ | ⟨rfl, rfl⟩ := formatted_cases found
  · cases isDirectory
  · exact ⟨rfl, rfl⟩

theorem formatted_sound : (hierarchy (formatted freeMapSectors rootSectors count)).Sound rootDirSector none where
  rooted := ⟨_, update_self .., rfl, rfl, rfl⟩
  live := by
    rintro d level ⟨n, found, notRemoved, _⟩
    exact ⟨n, found, notRemoved⟩
  level first second := (formatted_folder first).2.trans (formatted_folder second).2.symm
  container named := absurd named (formatted_names _ _ _)
  item named := absurd named (formatted_names _ _ _)
  below := formatted_names _ _ _
  unlinked := nofun
  once named := absurd named (formatted_names _ _ _)
  up := by
    rintro d level upper isFolder ⟨n, found, isUp⟩
    obtain ⟨rfl, _⟩ := formatted_folder isFolder
    obtain ⟨impossible, _⟩ | ⟨_, rfl⟩ := formatted_cases found
    · cases impossible
    · cases isUp
      exact .inl ⟨rfl, rfl⟩
  hasUp := by
    intro d level isFolder
    obtain ⟨rfl, _⟩ := formatted_folder isFolder
    exact ⟨rootDirSector, _, update_self .., rfl⟩

/-- The sectors of the two first inodes are marked. -/
theorem freeMapInit_unowned (large : ¬ diskSize ≤ rootDirSector) :
    Holds (owned (freeMapInit diskSize).nodes) (freeMapInit diskSize).freeMap ∧
      Unowned freeMapSector (freeMapInit diskSize) ∧ Unowned rootDirSector (freeMapInit diskSize) := by
  have inside : 1 < diskSize := Nat.lt_of_not_le large
  refine ⟨⟨nofun, nofun⟩, ⟨nofun, ?_⟩, nofun, ?_⟩
  · show (((replicate diskSize false).set 0 true).set 1 true)[0]? = some true
    rw [getElem?_set_ne (by decide), getElem?_set_self (by simp; omega)]
  · simp [freeMapInit, bitmapMark, bitmapCreate, rootDirSector, inside]

theorem format_isTree (formats : format diskSize = some s) : s.IsTree := by
  unfold format at formats
  split_ifs at formats with large
  obtain ⟨s₁, created, formats⟩ := bind_eq_some_iff.mp formats
  obtain ⟨s₂, opened, formats⟩ := bind_eq_some_iff.mp formats
  obtain ⟨⟨success, s₃⟩, filled, formats⟩ := bind_eq_some_iff.mp formats
  obtain ⟨freeMapSectors, allocated, inodes⟩ := inodeCreate_some created
  have opens := inodeOpen_same opened
  rw [State.dirCreate, if_pos rfl] at filled
  obtain ⟨rfl, rootSectors, allocated', nodes⟩ := dirFill_some filled
  cases formats
  obtain ⟨holds, first, second⟩ := freeMapInit_unowned large
  have made := nodes_of_inodes inodes
  have withFreeMap := first.holds allocated made holds
  rw [← opens.nodes, ← opens.freeMap] at withFreeMap
  have holds := ((second.stays allocated made (by decide)).same opens).holds allocated' nodes withFreeMap
  have isFormatted : s.nodes = formatted freeMapSectors rootSectors (byteCnt diskSize / entrySize) := by
    rw [nodes, opens.nodes, made]
    rfl
  rw [isFormatted] at holds
  rw [State.IsTree, isFormatted]
  refine ⟨formatted_sound, formatted_formed, holds, ?_, formatted_names _ _ _⟩
  exact ⟨_, (update_of_ne (by decide) _ _).trans (update_self ..), rfl⟩

/-! ## Runs -/

/-- When the directory tree is kept. -/
def keepsTree (label : Label) (s : State) : Prop :=
  match label with
  -- The path starts from a directory that is not removed, and goes to a name in a directory.
  | .create currentDir path _ =>
    s.isDirectoryAt (startOf currentDir path) ∧ (s.destination currentDir path).all fun (dir, _) => s.isDirectoryAt dir
  -- And `dir_add` accepts the name.
  | .mkdir currentDir path =>
    s.isDirectoryAt (startOf currentDir path) ∧
      (s.destination currentDir path).all fun (dir, name) => s.isDirectoryAt dir && decide (name.length ≤ nameMax)
  | .open currentDir path => s.isDirectoryAt (startOf currentDir path)
  -- The current directory is not removed, and the name is not that of the directory itself.
  | .remove currentDir path =>
    s.isDirectoryAt currentDir ∧ (s.destination currentDir path).all fun (_, name) => decide (name ≠ dot)
  | .close _ => True

instance (label : Label) (s : State) : Decidable (keepsTree label s) := by
  unfold keepsTree
  split <;> infer_instance

theorem live_of_isDirectoryAt (tree : s.IsTree) (isDirectory : s.isDirectoryAt x = true) :
    (hierarchy s.nodes).live x := by
  obtain ⟨_, isFolder⟩ := folder_of_isDirectoryAt isDirectory
  exact tree.sound.live isFolder

theorem filesysCreate_grows {initialSize : Nat} (tree : s.IsTree)
    (live : (hierarchy s.nodes).live (startOf currentDir path))
    (inDirectory : (s.destination currentDir path).all fun (dir, _) => s.isDirectoryAt dir)
    (created : s.filesysCreate currentDir path initialSize = some (result, s')) : Grows s s' := by
  refine newName_grows tree live (fun dir name s₁ leads same _ made => ?_) created
  obtain ⟨level, isFolder⟩ := folder_of_isDirectoryAt (by simpa [leads] using inDirectory)
  have grows := createFile_grows (tree.same same) (same.nodes ▸ isFolder) made
  exact ⟨grows.tree, fun isFolder => grows.folders (same.nodes ▸ isFolder)⟩

theorem mkdir_grows (tree : s.IsTree) (live : (hierarchy s.nodes).live (startOf currentDir path))
    (valid : (s.destination currentDir path).all fun (dir, name) => s.isDirectoryAt
      dir && decide (name.length ≤ nameMax))
    (made : s.mkdir currentDir path = some (result, s')) : Grows s s' := by
  refine newName_grows tree live (fun dir name s₁ leads same missing made => ?_) made
  have valid : s.isDirectoryAt dir = true ∧ name.length ≤ nameMax := by simpa [leads] using valid
  obtain ⟨level, isFolder⟩ := folder_of_isDirectoryAt valid.1
  have grows := createDir_grows (tree.same same) (same.nodes ▸ isFolder) ⟨destination_ne_nil leads, valid.2⟩
    (same.nodes ▸ missing) made
  exact ⟨grows.tree, fun isFolder => grows.folders (same.nodes ▸ isFolder)⟩

theorem step_isTree {label : Label} (tree : s.IsTree) (keeps : keepsTree label s) (stepped : step label s = some s') :
    s'.IsTree := by
  cases label with
  | create currentDir path initialSize =>
    obtain ⟨⟨result, _⟩, created, rfl⟩ := map_eq_some_iff.mp stepped
    exact (filesysCreate_grows tree (live_of_isDirectoryAt tree keeps.1) keeps.2 created).tree
  | mkdir currentDir path =>
    obtain ⟨⟨result, _⟩, made, rfl⟩ := map_eq_some_iff.mp stepped
    exact (mkdir_grows tree (live_of_isDirectoryAt tree keeps.1) keeps.2 made).tree
  | «open» currentDir path =>
    obtain ⟨⟨file, _⟩, opened, rfl⟩ := map_eq_some_iff.mp stepped
    exact tree.same (filesysOpen_same tree (live_of_isDirectoryAt tree keeps) opened)
  | remove currentDir path =>
    obtain ⟨⟨result, _⟩, removed, rfl⟩ := map_eq_some_iff.mp stepped
    obtain ⟨level, current⟩ := folder_of_isDirectoryAt keeps.1
    refine (filesysRemove_isTree tree current (fun dir name leads => ?_) removed).1
    simpa [leads] using keeps.2
  | close file => exact (fileClose_grows tree stepped).tree

/-- The directory tree. -/
structure DirectoryTree (s : State) : Prop where
  /-- Every entry in use names an inode that is not removed and is marked used in the free map. -/
  names : ∀ {d inode} {i : Nat} {e : DirEntry}, s.inodes d = some inode → inode.isDirectory = true →
    inode.removed = false →
    inode.entries[i]? = some e → e.inUse = true →
    (∃ child, s.inodes e.inodeSector = some child ∧ child.removed = false) ∧ s.freeMap[e.inodeSector]? = some true
  /-- Apart from `.` and `..`, every inode is named at most once. -/
  once : ∀ {d d' inode inode'} {i i' : Nat} {e e' : DirEntry}, s.inodes d = some inode → s.inodes d' = some inode' →
    inode.entries[i]? = some e → inode'.entries[i']? = some e' → e.inUse = true → e'.inUse = true →
    e.name ∉ [dot, dotDot] → e'.name ∉ [dot, dotDot] → e.inodeSector = e'.inodeSector → d = d' ∧ i = i'
  /-- The free map and the root are not named otherwise. -/
  special : ∀ {d inode} {i : Nat} {e : DirEntry}, s.inodes d = some inode → inode.entries[i]? = some e →
    e.inUse = true →
    e.name ∉ [dot, dotDot] → e.inodeSector ≠ freeMapSector ∧ e.inodeSector ≠ rootDirSector
  isDot : ∀ {d inode}, s.inodes d = some inode → inode.isDirectory = true → inode.target dot = some d
  /-- `..` names the directory that contains the directory; in the root, the root. -/
  isDotDot : ∀ {d inode}, s.inodes d = some inode → inode.isDirectory = true → inode.removed = false →
    ∃ upper parent, inode.target dotDot = some upper ∧ s.inodes upper = some parent ∧ parent.isDirectory = true ∧
      parent.removed = false ∧ (d = rootDirSector ∧ upper = rootDirSector ∨
        ∃ e ∈ parent.entries, e.inUse = true ∧ e.name ∉ [dot, dotDot] ∧ e.inodeSector = d)
  /-- A directory that is removed and still open has no other entries. -/
  removed : ∀ {d inode} {e : DirEntry}, s.inodes d = some inode → inode.removed = true → e ∈ inode.entries →
    e.inUse = true → e.name ∈ [dot, dotDot]
  root : ∃ root, s.inodes rootDirSector = some root ∧ root.isDirectory = true ∧ root.removed = false

theorem lookup_dot (formed : inode.node.Formed d) (isDirectory : inode.isDirectory = true) :
    inode.target dot = some d := by
  have first := formed.isDot isDirectory
  change inode.entries[0]? = _ at first
  rw [Inode.target, Inode.lookup]
  cases entries : inode.entries with
  | nil => simp [entries] at first
  | cons e rest =>
    rw [entries] at first
    cases first
    rfl

theorem lookup_dotDot_target {upper : SectorNo} (formed : inode.node.Formed d) (isDirectory : inode.isDirectory = true)
    (isUp : inode.entries[1]? = some ⟨upper, dotDot, true⟩) : inode.target dotDot = some upper := by
  have first := formed.isDot isDirectory
  change inode.entries[0]? = _ at first
  rw [Inode.target, Inode.lookup]
  cases entries : inode.entries with
  | nil => simp [entries] at first
  | cons e others =>
    rw [entries] at first isUp
    cases others with
    | nil => simp at isUp
    | cons e' rest =>
      cases first
      cases isUp
      rfl

/-- An entry in use under another name is one of a directory, after the first two. -/
theorem State.IsTree.named {i : Nat} (tree : s.IsTree) (found : s.inodes d = some inode)
    (entry : inode.entries[i]? = some e) (inUse : e.inUse = true) (other : e.name ∉ [dot, dotDot]) :
    ∃ j, i = j + 2 ∧ (hierarchy s.nodes).names d j e.inodeSector := by
  have isNode := nodes_of_inode found
  have formed := tree.formed isNode
  have isDirectory : inode.isDirectory = true := by
    by_contra isFile
    cases inUse.symm.trans (formed.file (Bool.eq_false_iff.mpr isFile) entry)
  match i with
  | 0 =>
    cases entry.symm.trans (formed.isDot isDirectory)
    simp at other
  | 1 =>
    obtain ⟨upper, isUp⟩ := formed.isDotDot isDirectory
    cases entry.symm.trans isUp
    simp at other
  | j + 2 => exact ⟨j, rfl, inode.node, isNode, e, entry, inUse, rfl⟩

theorem State.IsTree.directoryTree (tree : s.IsTree) : DirectoryTree s where
  names {d inode i e} found isDirectory notRemoved entry inUse := by
    have isNode := nodes_of_inode found
    obtain ⟨n, isChild, childNotRemoved⟩ := tree.live_of_entry ⟨_, isNode, notRemoved⟩ isNode entry inUse
    obtain ⟨child, found', rfl⟩ := nodes_eq_some.mp isChild
    refine ⟨⟨child, found', childNotRemoved⟩,
      tree.owned.marked (show e.inodeSector ∈ owned s.nodes e.inodeSector from ?_)⟩
    rw [owned, isChild]
    exact mem_cons_self
  once {d d' inode inode' i i' e e'} found found' entry entry' inUse inUse' other other' same := by
    obtain ⟨j, rfl, named⟩ := tree.named found entry inUse other
    obtain ⟨j', rfl, named'⟩ := tree.named found' entry' inUse' other'
    obtain ⟨sameDir, rfl⟩ := tree.sound.once (same ▸ named) named'
    exact ⟨sameDir, rfl⟩
  special {d inode i e} found entry inUse other := by
    obtain ⟨j, rfl, named⟩ := tree.named found entry inUse other
    refine ⟨fun isFreeMap => ?_, fun isRoot => ?_⟩
    · exact tree.unnamed (isFreeMap ▸ named)
    · exact tree.sound.below (isRoot ▸ named)
  isDot {d inode} found isDirectory := lookup_dot (tree.formed (nodes_of_inode found)) isDirectory
  isDotDot {d inode} found isDirectory notRemoved := by
    have isNode := nodes_of_inode found
    have formed := tree.formed isNode
    obtain ⟨upper, isUp⟩ := formed.isDotDot isDirectory
    have isFolder : (hierarchy s.nodes).folder d inode.level := ⟨_, isNode, notRemoved, isDirectory, rfl⟩
    have isTarget := lookup_dotDot_target formed isDirectory isUp
    cases tree.sound.up isFolder ⟨_, isNode, isUp⟩ with
    | inl isRoot =>
      obtain ⟨rfl, rfl⟩ := isRoot
      exact ⟨_, inode, isTarget, found, isDirectory, notRemoved, .inl ⟨rfl, rfl⟩⟩
    | inr above =>
      obtain ⟨⟨_, ⟨p, isUpper, upperNotRemoved, upperIsDirectory, _⟩, _⟩, linked⟩ := above
      obtain ⟨i, p', isUpper', e, entry, inUse, isChild⟩ := linked.resolve_right (by simp)
      cases isUpper.symm.trans isUpper'
      obtain ⟨parent, isParent, rfl⟩ := nodes_eq_some.mp isUpper
      refine ⟨upper, parent, isTarget, isParent, upperIsDirectory, upperNotRemoved, .inr ⟨e, ?_, inUse, ?_, isChild⟩⟩
      · exact mem_of_getElem? entry
      · simpa using (tree.formed isUpper).proper entry inUse
  removed {d inode e} found isRemoved isEntry inUse := by
    by_contra other
    obtain ⟨i, entry⟩ := mem_iff_getElem?.mp isEntry
    obtain ⟨j, _, named⟩ := tree.named found entry inUse other
    obtain ⟨_, n, isNode, notRemoved, _⟩ := tree.sound.container named
    cases isNode.symm.trans (nodes_of_inode found)
    cases isRemoved.symm.trans notRemoved
  root := by
    obtain ⟨n, isNode, notRemoved, isDirectory, _⟩ := tree.sound.rooted
    obtain ⟨root, found, rfl⟩ := nodes_eq_some.mp isNode
    exact ⟨root, found, isDirectory, notRemoved⟩

/-- The directory tree invariant. -/
theorem directory_tree {diskSize : Nat} {boot : State} (formats : format diskSize = some boot)
    (reached : Reaches step keepsTree boot s) : DirectoryTree s := by
  have tree : s.IsTree :=
    reached.invariant State.IsTree (format_isTree formats) fun tree keeps stepped => step_isTree tree keeps stepped
  exact tree.directoryTree

/-- A replayed run from a formatted disk. -/
theorem exists_run {Call World : Type} (diskSize : Nat) (step : Call → World → Option World) (start : State → World)
    (allowed : Call → World → Prop) [∀ call w, Decidable (allowed call w)] (property : World → Prop)
    [DecidablePred property] (calls : List Call)
    (found : ((format diskSize).bind fun boot => execute step allowed calls (start boot)).any
      (fun w => decide (property w)) = true) :
    ∃ boot w, format diskSize = some boot ∧ Reaches step allowed (start boot) w ∧ property w := by
  cases formats : format diskSize with
  | none => simp [formats] at found
  | some boot =>
    rw [formats] at found
    obtain ⟨w, reached, holds⟩ := exists_reached step allowed (start boot) property calls found
    exact ⟨boot, w, rfl, reached, holds⟩

/-- A directory and a file in it, which stays open when both are removed. -/
theorem directory_tree_example : ∃ boot s, format 16 = some boot ∧ Reaches step keepsTree boot s ∧
    (s.inodes 4 = none ∧ (s.inodes 6).isSome) ∧ DirectoryTree s := by
  obtain ⟨boot, s, formats, reached, holds⟩ :=
    exists_run 16 step (fun boot => boot) keepsTree (fun s => s.inodes 4 = none ∧ (s.inodes 6).isSome)
    [.mkdir 1 ['a'], .create 1 ['a', '/', 'f'] 100, .open 4 ['f'], .remove 1 ['a', '/', 'f'], .remove 1 ['/', 'a', '/']]
    (by decide +kernel)
  exact ⟨boot, s, formats, reached, holds, directory_tree formats reached⟩

/-- An empty directory is removed by the name `.` in it: the entry for it in the root stays. -/
theorem remove_dot_leaves_entry : ∃ boot s, format 16 = some boot ∧ Reaches step (fun _ _ => True) boot s ∧
    (s.inodes 1).any (fun root => root.entries[2]? = some ⟨4, ['a'], true⟩) = true ∧ s.inodes 4 = none :=
  exists_run 16 step (fun boot => boot) (fun _ _ => True)
    (fun s => (s.inodes 1).any (fun root => root.entries[2]? = some ⟨4, ['a'], true⟩) = true ∧ s.inodes 4 = none)
    [.mkdir 1 ['a'], .remove 1 ['a', '/', '.']] (by decide +kernel)

end Pintos.Directory
