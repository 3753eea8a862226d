import Pintos.Filesys.Directory
import Pintos.Library.Hierarchy
import Pintos.Library.Ownership

/-! # The directory tree

What the functions on directories do to the tree of directories and to the free map.  How often an inode is open is no
matter here, except that a removed inode goes when it is closed for the last time.
-/

namespace Pintos.Directory

open Kernel Library Function List State
open Option hiding or_assoc

/-- An inode, without what only its openers need. -/
structure Node where
  isDirectory : Bool
  level : Nat
  entries : List DirEntry
  sectors : List SectorNo
  removed : Bool

def Inode.node (inode : Inode) : Node where
  isDirectory := inode.isDirectory
  level := inode.level
  entries := inode.entries
  sectors := inode.sectors
  removed := inode.removed

def State.nodes (s : State) (sector : SectorNo) : Option Node :=
  (s.inodes sector).map Inode.node

/-- An entry in use after the first two. -/
def Node.Child (n : Node) (i : Nat) (x : SectorNo) : Prop :=
  ∃ e, n.entries[i + 2]? = some e ∧ e.inUse = true ∧ e.inodeSector = x

/-- Inodes that are not removed, with the entries of directories that come after the first two. -/
def hierarchy (nodes : SectorNo → Option Node) : Hierarchy SectorNo Nat where
  live x := ∃ n, nodes x = some n ∧ n.removed = false
  folder d level := ∃ n, nodes d = some n ∧ n.removed = false ∧ n.isDirectory = true ∧ n.level = level
  up d upper := ∃ n, nodes d = some n ∧ n.entries[1]? = some ⟨upper, dotDot, true⟩
  names d i x := ∃ n, nodes d = some n ∧ n.Child i x

/-- The sectors of an inode. -/
def owned (nodes : SectorNo → Option Node) (sector : SectorNo) : List SectorNo :=
  match nodes sector with
  | some n => sector :: n.sectors
  | none => []

/-- The entries of the directory or file at a sector. -/
structure Node.Formed (d : SectorNo) (n : Node) : Prop where
  isDot : n.isDirectory = true → n.entries[0]? = some ⟨d, dot, true⟩
  isDotDot : n.isDirectory = true → ∃ upper, n.entries[1]? = some ⟨upper, dotDot, true⟩
  proper : ∀ {i : Nat} {e : DirEntry}, n.entries[i + 2]? = some e → e.inUse = true → e.name ≠ dot ∧ e.name ≠ dotDot
  file : n.isDirectory = false → ∀ {i : Nat} {e : DirEntry}, n.entries[i]? = some e → e.inUse = false

/-- The tree, with at most one inode that is not named yet. -/
structure Tree (pending : Option SectorNo) (nodes : SectorNo → Option Node) (freeMap : Bitmap) : Prop where
  sound : (hierarchy nodes).Sound rootDirSector pending
  formed : ∀ {d n}, nodes d = some n → n.Formed d
  owned : Holds (owned nodes) freeMap
  freeMapFile : (hierarchy nodes).live freeMapSector
  unnamed : ∀ {d i}, ¬ (hierarchy nodes).names d i freeMapSector

variable {s s' : State} {nodes : SectorNo → Option Node} {freeMap freeMap' : Bitmap} {d x dir sector : SectorNo}
  {n : Node} {e : DirEntry} {name : Name} {inode : Inode}

/-! ## The functions -/

/-- Only counts of openers differ. -/
structure Same (s s' : State) : Prop where
  nodes : s'.nodes = s.nodes
  freeMap : s'.freeMap = s.freeMap

theorem Same.refl : Same s s :=
  ⟨rfl, rfl⟩

theorem Same.trans {s'' : State} (first : Same s s') (second : Same s' s'') : Same s s'' :=
  ⟨second.nodes.trans first.nodes, second.freeMap.trans first.freeMap⟩

theorem nodes_eq_some : s.nodes x = some n ↔ ∃ inode, s.inodes x = some inode ∧ inode.node = n :=
  map_eq_some_iff

theorem nodes_of_inode (found : s.inodes x = some inode) : s.nodes x = some inode.node :=
  nodes_eq_some.mpr ⟨inode, found, rfl⟩

theorem nodes_setInode : (s.setInode x inode).nodes = update s.nodes x (some inode.node) := by
  funext y
  by_cases same : y = x
  · subst same
    simp [nodes, setInode]
  · simp [nodes, setInode, update_of_ne same]

/-- An inode that is changed only in its openers. -/
theorem same_setInode (found : s.inodes x = some inode) (count : Nat) :
    Same s (s.setInode x { inode with openCnt := count }) := by
  refine ⟨?_, rfl⟩
  rw [nodes_setInode]
  apply update_eq_self_iff.mpr
  simp [nodes, found, Inode.node]

theorem inodeOpen_same (opened : s.inodeOpen x = some s') : Same s s' := by
  obtain ⟨inode, found, rfl⟩ := map_eq_some_iff.mp opened
  exact same_setInode found _

/-- A closed inode that has been removed can be gone. -/
theorem inodeClose_cases (closed : s.inodeClose x = some s') :
    Same s s' ∨ ∃ n, s.nodes x = some n ∧ n.removed = true ∧ s.inodeRelease x = some s' := by
  obtain ⟨inode, found, closed⟩ := bind_eq_some_iff.mp closed
  split at closed
  next => cases closed
  next =>
    split at closed
    next last => exact .inr ⟨inode.node, nodes_of_inode found, last.2, closed⟩
    next => cases closed; exact .inl (same_setInode found _)

theorem inodeClose_same (live : (hierarchy s.nodes).live x) (closed : s.inodeClose x = some s') : Same s s' := by
  refine (inodeClose_cases closed).resolve_right ?_
  rintro ⟨n, found, removed, _⟩
  obtain ⟨n', found', notRemoved⟩ := live
  cases found.symm.trans found'
  cases removed.symm.trans notRemoved

theorem closeDir_same {result result' : Bool} (live : (hierarchy s.nodes).live dir)
    (closed : s.closeDir dir result = some (result', s')) : Same s s' := by
  obtain ⟨after, closed, same⟩ := map_eq_some_iff.mp closed
  cases same
  exact inodeClose_same live closed

/-! ### The free map -/

theorem freeMapAllocate_some (allocated : s.freeMapAllocate = some (x, s')) :
    s.freeMap[x]? = some false ∧ s' = { s with freeMap := s.freeMap.set x true } := by
  obtain ⟨⟨i, freeMap⟩, found, same⟩ := map_eq_some_iff.mp allocated
  cases same
  obtain ⟨clear, rfl⟩ := bitmapScanAndFlip_some found
  exact ⟨clear, rfl⟩

section

variable (clear : freeMap[x]? = some false)

include clear

theorem marked_mark : (freeMap.set x true)[x]? = some true :=
  List.getElem?_set_self (List.getElem?_eq_some_iff.mp clear).1

theorem kept_mark (i : Nat) (used : freeMap[i]? = some true) :
    (freeMap.set x true)[i]? = some true := by
  have different : x ≠ i := by
    rintro rfl
    cases clear.symm.trans used
  rwa [getElem?_set_ne different]

/-- Sectors have been marked. -/
structure Allocated (freeMap freeMap' : Bitmap) (sectors : List SectorNo) : Prop where
  elsewhere : ∀ i : Nat, i ∉ sectors → freeMap'[i]? = freeMap[i]?
  clear : ∀ i ∈ sectors, freeMap[i]? = some false
  marked : ∀ i ∈ sectors, freeMap'[i]? = some true
  distinct : sectors.Nodup

variable {sectors : List SectorNo}

omit clear in
theorem Allocated.kept (allocated : Allocated freeMap freeMap' sectors) (i : Nat) (used : freeMap[i]? = some true) :
    freeMap'[i]? = some true := by
  rw [allocated.elsewhere, used]
  intro isNew
  cases (allocated.clear i isNew).symm.trans used

theorem Allocated.cons
    (rest : Allocated (freeMap.set x true) freeMap' sectors) : Allocated freeMap freeMap' (x :: sectors) := by
  have different : ∀ i ∈ sectors, x ≠ i := by
    rintro i later rfl
    cases (rest.clear x later).symm.trans (marked_mark clear)
  constructor
  case elsewhere =>
    intro i other
    rw [rest.elsewhere i (not_mem_of_not_mem_cons other), getElem?_set_ne (Ne.symm (ne_of_not_mem_cons other))]
  case clear =>
    rintro i (_ | ⟨_, later⟩)
    · exact clear
    · rw [← rest.clear i later, getElem?_set_ne (different i later)]
  case marked =>
    rintro i (_ | ⟨_, later⟩)
    · exact rest.kept x (marked_mark clear)
    · exact rest.marked i later
  case distinct => exact nodup_cons.mpr ⟨fun later => different x later rfl, rest.distinct⟩

end

theorem allocated_nothing : Allocated freeMap freeMap [] :=
  ⟨fun _ _ => rfl, nofun, nofun, nodup_nil⟩

theorem allocateSectors_some {count : Nat} (allocated : s.allocateSectors count = some (sectors, s')) :
    Allocated s.freeMap s'.freeMap sectors ∧ s'.inodes = s.inodes := by
  induction count generalizing s sectors with
  | zero =>
    cases allocated
    exact ⟨allocated_nothing, rfl⟩
  | succ count ih =>
    obtain ⟨⟨first, marked⟩, found, allocated⟩ := bind_eq_some_iff.mp allocated
    obtain ⟨⟨others, last⟩, rest, same⟩ := bind_eq_some_iff.mp allocated
    cases same
    obtain ⟨clear, rfl⟩ := freeMapAllocate_some found
    obtain ⟨others, inodes⟩ := ih rest
    exact ⟨others.cons clear, inodes⟩

theorem freeMapRelease_some (released : s.freeMapRelease sectors = some s') :
    (∀ i : Nat, i ∉ sectors → s'.freeMap[i]? = s.freeMap[i]?) ∧ s'.inodes = s.inodes := by
  obtain ⟨freeMap, folded, rfl⟩ := map_eq_some_iff.mp released
  refine ⟨?_, rfl⟩
  show ∀ i : Nat, i ∉ sectors → freeMap[i]? = s.freeMap[i]?
  generalize s.freeMap = before at folded ⊢
  clear released
  induction sectors generalizing before with
  | nil =>
    cases folded
    exact fun _ _ => rfl
  | cons first rest ih =>
    obtain ⟨between, released, folded⟩ := bind_eq_some_iff.mp folded
    dsimp only at released
    split_ifs at released
    cases released
    intro i other
    rw [ih _ folded i (not_mem_of_not_mem_cons other), getElem?_set_ne (Ne.symm (ne_of_not_mem_cons other))]

/-! ### Entries -/

variable {entries : List DirEntry} {i ofs : Nat}

theorem lookupFrom_none (missing : lookupFrom name ofs entries = none) :
    ∀ e ∈ entries, e.inUse = true → e.name ≠ name := by
  intro e isEntry inUse named
  rw [lookupFrom_eq] at missing
  cases index : entries.findIdx? fun e => e.inUse && e.name = name with
  | none => simpa [inUse, named] using findIdx?_eq_none_iff.mp index e isEntry
  | some j =>
    obtain ⟨inside, -⟩ := findIdx?_eq_some_iff_getElem.mp index
    simp [index, inside] at missing

theorem lookup_some (found : inode.lookup name = some (i, e)) :
    inode.entries[i]? = some e ∧ e.inUse = true ∧ e.name = name := by
  rw [Inode.lookup, lookupFrom_eq] at found
  obtain ⟨j, index, found⟩ := bind_eq_some_iff.mp found
  obtain ⟨_, entry, same⟩ := map_eq_some_iff.mp found
  cases same
  obtain ⟨_, used, -⟩ := findIdx?_eq_some_iff_getElem.mp index
  rw [(List.getElem?_eq_some_iff.mp entry).2] at used
  exact ⟨by simpa using entry, by simpa using used⟩

/-- An entry has been put in a slot that was not in use, or after the last one. -/
structure Puts (entries : List DirEntry) (k : Nat) (e : DirEntry) (entries' : List DirEntry) : Prop where
  here : entries'[k]? = some e
  elsewhere : ∀ j : Nat, j ≠ k → entries'[j]? = entries[j]?
  unused : ∀ old : DirEntry, entries[k]? = some old → old.inUse = false

variable {k : Nat} {pending : Option SectorNo} {new : Option Node} {y : SectorNo}

theorem puts_set (free : (entries.findIdx? fun e => !e.inUse) = some k) : Puts entries k e (entries.set k e) := by
  obtain ⟨inside, unused, _⟩ := findIdx?_eq_some_iff_getElem.mp free
  refine ⟨getElem?_set_self inside, fun j other => getElem?_set_ne (Ne.symm other), fun old isOld => ?_⟩
  cases (getElem?_eq_getElem inside).symm.trans isOld
  simpa using unused

theorem puts_append : Puts entries entries.length e (entries ++ [e]) := by
  refine ⟨by simp, fun j other => ?_, fun old isOld => by simp at isOld⟩
  rw [getElem?_append]
  split
  next => rfl
  next outside => rw [getElem?_eq_none (by simp; omega), getElem?_eq_none (by omega)]

/-- What `dir_add` does. -/
theorem dirAdd_cases {added : Bool} (adds : s.dirAdd d name x = some (added, s')) : ∃ inode, s.inodes d = some inode ∧
      (added = false ∧ s' = s ∧ (name = [] ∨ nameMax < name.length ∨ (inode.lookup name).isSome) ∨
       added = true ∧ inode.lookup name = none ∧ ∃ k entries sectors,
        Puts inode.entries k ⟨x, name, true⟩ entries ∧ Allocated s.freeMap s'.freeMap sectors ∧
        s'.inodes = update s.inodes d (some { inode with entries, sectors := inode.sectors ++ sectors })) := by
  obtain ⟨inode, found, adds⟩ := bind_eq_some_iff.mp adds
  refine ⟨inode, found, ?_⟩
  split at adds
  next invalid =>
    cases adds
    exact .inl ⟨rfl, rfl, invalid⟩
  next valid =>
    have missing : inode.lookup name = none := by
      cases looked : inode.lookup name with
      | none => rfl
      | some _ => exact absurd (.inr (.inr (by rw [looked]; rfl))) valid
    dsimp only at adds
    split at adds
    next k free =>
      cases adds
      refine .inr ⟨rfl, missing, k, _, [], puts_set free, allocated_nothing, ?_⟩
      simp [setInode]
    next =>
      split_ifs at adds
      obtain ⟨⟨sectors, grown⟩, allocated, same⟩ := bind_eq_some_iff.mp adds
      cases same
      obtain ⟨taken, inodes⟩ := allocateSectors_some allocated
      refine .inr ⟨rfl, missing, inode.entries.length, _, sectors, puts_append, taken, ?_⟩
      rw [← inodes]
      rfl

/-! ## Paths -/

/-- The entries of an inode that is not removed name such inodes. -/
theorem Tree.live_of_entry (tree : Tree pending nodes freeMap) (live : (hierarchy nodes).live d)
    (found : nodes d = some n) (entry : n.entries[i]? = some e) (inUse : e.inUse = true) :
    (hierarchy nodes).live e.inodeSector := by
  cases isDirectory : n.isDirectory with
  | false => cases inUse.symm.trans ((tree.formed found).file isDirectory entry)
  | true =>
    match i with
    | 0 =>
      cases entry.symm.trans ((tree.formed found).isDot isDirectory)
      exact live
    | 1 =>
      obtain ⟨upper, isUp⟩ := (tree.formed found).isDotDot isDirectory
      cases entry.symm.trans isUp
      obtain ⟨n', found', notRemoved⟩ := live
      cases found.symm.trans found'
      have isFolder : (hierarchy nodes).folder d n.level := ⟨n, found, notRemoved, isDirectory, rfl⟩
      cases tree.sound.up isFolder ⟨n, found, isUp⟩ with
      | inl isRoot =>
        obtain ⟨_, rfl⟩ := isRoot
        exact tree.sound.live tree.sound.rooted
      | inr above =>
        obtain ⟨⟨_, isUpper, _⟩, _⟩ := above
        exact tree.sound.live isUpper
    | i + 2 => exact tree.sound.item ⟨n, found, e, entry, inUse, rfl⟩

theorem dirLookup_some {found : Option SectorNo} (tree : Tree none s.nodes s.freeMap)
    (live : (hierarchy s.nodes).live d) (looked : s.dirLookup d name = some (found, s')) :
    Same s s' ∧ ∀ y, found = some y → (hierarchy s.nodes).live y := by
  obtain ⟨inode, isInode, looked⟩ := bind_eq_some_iff.mp looked
  split at looked
  next =>
    cases looked
    exact ⟨.refl, nofun⟩
  next i e isEntry =>
    obtain ⟨opened, isOpen, same⟩ := map_eq_some_iff.mp looked
    cases same
    obtain ⟨entry, inUse, _⟩ := lookup_some isEntry
    refine ⟨inodeOpen_same isOpen, fun y isFound => ?_⟩
    cases isFound
    exact tree.live_of_entry live (nodes_of_inode isInode) entry inUse

/-- The loops over a path change only counts of openers, and stay at inodes that are not removed. -/
theorem walk_some {path : List (Name × Bool)} {last : Option Name} (tree : Tree none s.nodes s.freeMap)
    (live : (hierarchy s.nodes).live d) (walked : s.walk path d = some ((dir, last), s')) :
    Same s s' ∧ (hierarchy s.nodes).live dir := by
  induction path generalizing s d with
  | nil =>
    cases walked
    exact ⟨.refl, live⟩
  | cons token rest ih =>
    obtain ⟨name, isLast⟩ := token
    cases isLast with
    | true =>
      cases walked
      exact ⟨.refl, live⟩
    | false =>
      rw [walk] at walked
      split at walked
      next => cases walked
      next after looked =>
        cases walked
        exact ⟨(dirLookup_some tree live looked).1, live⟩
      next x opened looked =>
        obtain ⟨closed, isClosed, walked⟩ := bind_eq_some_iff.mp walked
        obtain ⟨same, liveNext⟩ := dirLookup_some tree live looked
        have closes := inodeClose_same (same.nodes.symm ▸ live) isClosed
        have both := same.trans closes
        obtain ⟨rest, liveDir⟩ := ih (s := closed) (by rw [both.nodes, both.freeMap]; exact tree)
          (by rw [both.nodes]; exact liveNext x rfl) walked
        exact ⟨both.trans rest, both.nodes ▸ liveDir⟩

/-! ## Changes of the tree -/

section Update

variable {P : Node → Prop} {n' : Node} {y : SectorNo}

theorem exists_update_none (absent : ∀ n, nodes x = some n → ¬ P n) :
    (∃ m, update nodes x none y = some m ∧ P m) ↔ ∃ m, nodes y = some m ∧ P m := by
  by_cases same : y = x
  · subst same
    simp only [update_self, reduceCtorEq, false_and, exists_false, false_iff]
    rintro ⟨m, found, holds⟩
    exact absent m found holds
  · rw [update_of_ne same]

/-- A node that is changed, but not in the property. -/
theorem exists_update_some (found : nodes x = some n) (kept : P n' ↔ P n) :
    (∃ m, update nodes x (some n') y = some m ∧ P m) ↔ ∃ m, nodes y = some m ∧ P m := by
  by_cases same : y = x
  · subst same
    simp [found, kept]
  · rw [update_of_ne same]

theorem exists_update_new (new : nodes x = none) :
    (∃ m, update nodes x (some n') y = some m ∧ P m) ↔ (∃ m, nodes y = some m ∧ P m) ∨ y = x ∧ P n' := by
  by_cases same : y = x
  · subst same
    simp [new]
  · simp [same]

theorem exists_update_gone (lost : ¬ P n') :
    (∃ m, update nodes x (some n') y = some m ∧ P m) ↔ (∃ m, nodes y = some m ∧ P m) ∧ y ≠ x := by
  by_cases same : y = x
  · subst same
    simp [lost]
  · simp [same]

end Update

theorem owned_update (other : y ≠ x) : owned (update nodes x new) y = owned nodes y := by
  rw [owned, owned, update_of_ne other]

/-- One inode has more sectors. -/
theorem Allocated.holds {owned owned' : SectorNo → List SectorNo} (allocated : Allocated freeMap freeMap' sectors)
    (holds : Holds owned freeMap) (here : ∀ i ∈ owned' x, i ∈ owned x ∨ i ∈ sectors)
    (elsewhere : ∀ y, y ≠ x → owned' y = owned y) : Holds owned' freeMap' := by
  refine holds.take elsewhere allocated.kept (fun i isNew => (here i isNew).imp_right (allocated.clear i))
    fun i isNew => ?_
  cases here i isNew with
  | inl old => exact allocated.kept i (holds.marked old)
  | inr new => exact allocated.marked i new

theorem forall_update {P : SectorNo → Node → Prop} (before : ∀ {y n}, nodes y = some n → P y n)
    (here : ∀ n, new = some n → P x n) (found : update nodes x new y = some n) : P y n := by
  by_cases same : y = x
  · subst same
    rw [update_self] at found
    exact here n found
  · rw [update_of_ne same] at found
    exact before found

theorem Tree.mono (tree : Tree pending nodes freeMap)
    (kept : ∀ i : Nat, freeMap[i]? = some true → freeMap'[i]? = some true) : Tree pending nodes freeMap' :=
  { tree with owned := tree.owned.mono kept }

/-- There is no inode yet at a sector that is not marked. -/
theorem Tree.absent (tree : Tree pending nodes freeMap) (clear : freeMap[x]? = some false) : nodes x = none := by
  cases found : nodes x with
  | none => rfl
  | some n =>
    have marked : freeMap[x]? = some true := tree.owned.marked (by rw [Directory.owned, found]; exact mem_cons_self)
    cases marked.symm.trans clear

/-- A removed inode goes, with its sectors. -/
theorem Tree.free (tree : Tree none nodes freeMap) (found : nodes x = some n) (removed : n.removed = true)
    (kept : ∀ i : Nat, i ∉ Directory.owned nodes x → freeMap'[i]? = freeMap[i]?) :
    Tree none (update nodes x none) freeMap' := by
  have notLive : ¬ (hierarchy nodes).live x := by
    rintro ⟨n', found', notRemoved⟩
    cases found.symm.trans found'
    cases removed.symm.trans notRemoved
  have notFolder : ∀ level, ¬ (hierarchy nodes).folder x level := fun level isFolder =>
    notLive (tree.sound.live isFolder)
  have live : ∀ y, (hierarchy (update nodes x none)).live y ↔ (hierarchy nodes).live y := fun y =>
    exists_update_none fun n' found' notRemoved => notLive ⟨n', found', notRemoved⟩
  have names : ∀ d i y, (hierarchy (update nodes x none)).names d i y ↔ (hierarchy nodes).names d i y := by
    intro d i y
    refine exists_update_none fun n' found' child => ?_
    obtain ⟨level, isFolder⟩ := tree.sound.container ⟨n', found', child⟩
    exact notLive (tree.sound.live isFolder)
  constructor
  case sound =>
    refine tree.sound.congr live (fun d level => ?_) names fun d level y isFolder => ?_
    · exact exists_update_none fun n' found' isFolder => notLive ⟨n', found', isFolder.1⟩
    · have other : d ≠ x := by
        rintro rfl
        exact notLive (tree.sound.live isFolder)
      show (∃ n, update nodes x none d = some n ∧ _) ↔ _
      rw [update_of_ne other]
      rfl
  case formed => exact forall_update tree.formed fun _ isNone => by cases isNone
  case owned => exact tree.owned.release (fun y other => owned_update other) kept (by simp [Directory.owned])
  case freeMapFile => exact (live _).mpr tree.freeMapFile
  case unnamed => exact fun named => tree.unnamed ((names _ _ _).mp named)

/-- A new inode. -/
theorem Tree.add (tree : Tree none nodes freeMap) (formed : n.Formed x) (notRemoved : n.removed = false)
    (empty : ∀ i y, ¬ n.Child i y) (allocated : Allocated freeMap freeMap' (x :: n.sectors))
    (above : n.isDirectory = true → ∃ upper level, n.entries[1]? = some ⟨upper, dotDot, true⟩ ∧
      (hierarchy nodes).folder upper level ∧ n.level = level + 1) :
    Tree (some x) (update nodes x (some n)) freeMap' := by
  have new := tree.absent (allocated.clear x mem_cons_self)
  have names : ∀ d i y, (hierarchy (update nodes x (some n))).names d i y ↔ (hierarchy nodes).names d i y := by
    intro d i y
    refine (exists_update_new new).trans (or_iff_left ?_)
    rintro ⟨_, child⟩
    exact empty i y child
  have live : ∀ y, (hierarchy (update nodes x (some n))).live y ↔ (hierarchy nodes).live y ∨ y = x := fun y =>
    (exists_update_new new).trans (or_congr_right (and_iff_left notRemoved))
  constructor
  case sound =>
    have here : update nodes x (some n) x = some n := update_self ..
    refine tree.sound.add ?_ live names ?_ ?_ ?_ ?_ ?_
    · rintro ⟨n', found, _⟩
      cases new.symm.trans found
    · intro d level isFolder
      refine ((exists_update_new new).mp isFolder).imp_right fun isNew => ?_
      obtain ⟨isNew, _, isDirectory, rfl⟩ := isNew
      obtain ⟨upper, level, isUp, isUpper, next⟩ := above isDirectory
      exact ⟨isNew, upper, level, ⟨n, here, isUp⟩, isUpper, next⟩
    · exact fun d level isFolder => (exists_update_new new).mpr (.inl isFolder)
    · rintro level level' ⟨n₁, first, _, _, rfl⟩ ⟨n₂, second, _, _, rfl⟩
      cases first.symm.trans second
      rfl
    · intro d y other
      show (∃ n', update nodes x (some n) d = some n' ∧ _) ↔ _
      rw [update_of_ne other]
      rfl
    · rintro y y' ⟨n₁, first, isUp⟩ ⟨n₂, second, isUp'⟩
      cases first.symm.trans second
      cases isUp.symm.trans isUp'
      rfl
  case formed =>
    refine forall_update tree.formed fun n' isNew => ?_
    cases isNew
    exact formed
  case owned =>
    refine allocated.holds tree.owned (fun i isNew => .inr ?_) fun y other => owned_update other
    simpa [Directory.owned] using isNew
  case freeMapFile => exact (live _).mpr (.inl tree.freeMapFile)
  case unnamed => exact fun named => tree.unnamed ((names _ _ _).mp named)

theorem Node.Formed.two_le (formed : n.Formed d) (isDirectory : n.isDirectory = true)
    (puts : Puts n.entries k e entries) : 2 ≤ k := by
  match k with
  | 0 => cases puts.unused _ (formed.isDot isDirectory)
  | 1 =>
    obtain ⟨upper, isUp⟩ := formed.isDotDot isDirectory
    cases puts.unused _ isUp
  | k + 2 => exact Nat.le_add_left 2 k

/-- The new inode is named. -/
theorem Tree.link (tree : Tree (some x) nodes freeMap) (found : nodes d = some n) (notRemoved : n.removed = false)
    (isDirectory : n.isDirectory = true) (puts : Puts n.entries k ⟨x, name, true⟩ entries)
    (valid : name ≠ dot ∧ name ≠ dotDot) (allocated : Allocated freeMap freeMap' sectors)
    (live : (hierarchy nodes).live x) (notRoot : x ≠ rootDirSector) (notFreeMap : x ≠ freeMapSector)
    (above : ∀ level upper, (hierarchy nodes).folder x level → (hierarchy nodes).up x upper → upper = d) :
    Tree none (update nodes d (some { n with entries, sectors := n.sectors ++ sectors })) freeMap' := by
  generalize changed : update nodes d _ = nodes'
  have formed := tree.formed found
  obtain ⟨k, rfl⟩ := Nat.exists_eq_add_of_le' (formed.two_le isDirectory puts)
  -- The first two entries stay.
  have first : entries[0]? = n.entries[0]? := puts.elsewhere 0 (by omega)
  have second : entries[1]? = n.entries[1]? := puts.elsewhere 1 (by omega)
  have child : ∀ i y, Node.Child { n with entries, sectors := n.sectors ++ sectors } i y ↔
      n.Child i y ∨ i = k ∧ y = x := by
    intro i y
    by_cases same : i = k
    · subst same
      have empty : ¬ n.Child i y := by
        rintro ⟨old, isOld, inUse, _⟩
        cases inUse.symm.trans (puts.unused old isOld)
      constructor
      · rintro ⟨e, entry, _, rfl⟩
        cases puts.here.symm.trans entry
        exact .inr ⟨rfl, rfl⟩
      · intro isNew
        obtain ⟨_, rfl⟩ := isNew.resolve_left empty
        exact ⟨_, puts.here, rfl, rfl⟩
    · simp only [Node.Child, puts.elsewhere (i + 2) (by omega), same, false_and, or_false]
  have names : ∀ a i y, (hierarchy nodes').names a i y ↔ (hierarchy nodes).names a i y ∨ a = d ∧ i = k ∧ y = x := by
    subst changed
    intro a i y
    by_cases same : a = d
    · subst same
      simp [hierarchy, found, child]
    · simp [hierarchy, same]
  have isFolder : (hierarchy nodes).folder d n.level := ⟨n, found, notRemoved, isDirectory, rfl⟩
  have lives : ∀ y, (hierarchy nodes').live y ↔ (hierarchy nodes).live y := fun y => by
    subst changed
    exact exists_update_some found Iff.rfl
  constructor
  case sound =>
    subst changed
    refine (tree.sound.link isFolder live notRoot above).congr lives (fun a level => ?_) names fun a _ y _ => ?_
    · exact exists_update_some found Iff.rfl
    · exact exists_update_some found (by simp only [second])
  case formed =>
    subst changed
    refine forall_update tree.formed fun n' isNew => ?_
    cases isNew
    refine ⟨fun _ => first.trans (formed.isDot isDirectory), fun _ => ?_, fun {i e} entry inUse => ?_, fun isFile => ?_⟩
    · obtain ⟨upper, isUp⟩ := formed.isDotDot isDirectory
      exact ⟨upper, second.trans isUp⟩
    · by_cases same : i = k
      · subst same
        cases puts.here.symm.trans entry
        exact valid
      · exact formed.proper ((puts.elsewhere (i + 2) (by omega)).symm.trans entry) inUse
    · cases isDirectory.symm.trans isFile
  case owned =>
    subst changed
    refine allocated.holds tree.owned (fun i isOwned => ?_) fun y other => owned_update other
    simpa [Directory.owned, found, ← or_assoc] using isOwned
  case freeMapFile => exact (lives _).mpr tree.freeMapFile
  case unnamed =>
    intro a i named
    cases (names a i _).mp named with
    | inl old => exact tree.unnamed old
    | inr new => exact notFreeMap new.2.2.symm

/-- An entry is erased, and its inode, which names nothing, is removed. -/
theorem Tree.unlink {m : Node} (tree : Tree none nodes freeMap) (found : nodes d = some n)
    (entry : n.entries[i + 2]? = some e) (inUse : e.inUse = true) (target : nodes e.inodeSector = some m)
    (empty : ∀ j y, ¬ m.Child j y) :
    Tree none (update (update nodes d (some { n with entries := n.entries.set (i + 2) { e with inUse := false } }))
      e.inodeSector (some { m with removed := true })) freeMap := by
  have named : (hierarchy nodes).names d i e.inodeSector := ⟨n, found, e, entry, inUse, rfl⟩
  have other : e.inodeSector ≠ d := tree.sound.names_ne named
  have formed := tree.formed found
  have inside : i + 2 < n.entries.length := (List.getElem?_eq_some_iff.mp entry).1
  generalize erased : n.entries.set (i + 2) { e with inUse := false } = entries
  have here : entries[i + 2]? = some { e with inUse := false } := by rw [← erased, getElem?_set_self inside]
  have elsewhere : ∀ j : Nat, j ≠ i + 2 → entries[j]? = n.entries[j]? := by
    intro j different
    rw [← erased, getElem?_set_ne (Ne.symm different)]
  have between : update nodes d (some { n with entries }) e.inodeSector = some m := by
    rw [update_of_ne other, target]
  have child : ∀ j y, y ≠ e.inodeSector → (Node.Child { n with entries } j y ↔ n.Child j y) := by
    intro j y different
    by_cases same : j = i
    · subst same
      constructor
      · rintro ⟨e', entry', inUse', _⟩
        cases here.symm.trans entry'
        cases inUse'
      · rintro ⟨e', entry', _, rfl⟩
        cases entry.symm.trans entry'
        exact absurd rfl different
    · simp only [Node.Child, elsewhere (j + 2) (by omega)]
  have lost : ∀ j, ¬ Node.Child { n with entries } j e.inodeSector := by
    rintro j ⟨e', entry', inUse', same⟩
    by_cases isSlot : j = i
    · subst isSlot
      cases here.symm.trans entry'
      cases inUse'
    · -- No other entry names the inode.
      rw [elsewhere (j + 2) (by omega)] at entry'
      exact isSlot (tree.sound.once ⟨n, found, e', entry', inUse', same⟩ named).2
  generalize changed : update (update nodes d (some { n with entries })) e.inodeSector
    (some { m with removed := true }) =
    nodes'
  have live : ∀ y, (hierarchy nodes').live y ↔ (hierarchy nodes).live y ∧ y ≠ e.inodeSector := fun y => by
    subst changed
    exact (exists_update_gone (by simp)).trans (and_congr_left' (exists_update_some found Iff.rfl))
  have names : ∀ a j y, (hierarchy nodes').names a j y ↔ (hierarchy nodes).names a j y ∧ y ≠ e.inodeSector := by
    subst changed
    intro a j y
    refine .trans (exists_update_some between Iff.rfl) ?_
    by_cases isTarget : y = e.inodeSector
    · subst isTarget
      simp only [ne_eq, not_true, and_false, iff_false]
      rintro ⟨n', found', child'⟩
      by_cases same : a = d
      · subst same
        rw [update_self] at found'
        cases found'
        exact lost j child'
      · rw [update_of_ne same] at found'
        exact same (tree.sound.once ⟨n', found', child'⟩ named).1
    · rw [and_iff_left isTarget]
      exact exists_update_some found (child j y isTarget)
  constructor
  case sound =>
    subst changed
    refine (tree.sound.unlink named ?_).congr live (fun a level => ?_) names fun a _ y _ => ?_
    · rintro j y ⟨m', target', child'⟩
      cases target.symm.trans target'
      exact empty j y child'
    · exact (exists_update_gone (by simp)).trans (and_congr_left' (exists_update_some found Iff.rfl))
    · refine .trans (exists_update_some between Iff.rfl) ?_
      exact exists_update_some found (by simp only [elsewhere 1 (by omega)])
  case formed =>
    subst changed
    refine forall_update (forall_update tree.formed fun n' isNew => ?_) fun m' isNew => ?_
    · cases isNew
      refine ⟨fun isDirectory => ?_, fun isDirectory => ?_, fun {j e'} entry' inUse' => ?_,
        fun isFile {j e'} entry' => ?_⟩
      · exact (elsewhere 0 (by omega)).trans (formed.isDot isDirectory)
      · obtain ⟨upper, isUp⟩ := formed.isDotDot isDirectory
        exact ⟨upper, (elsewhere 1 (by omega)).trans isUp⟩
      · by_cases same : j = i
        · subst same
          cases here.symm.trans entry'
          cases inUse'
        · exact formed.proper ((elsewhere (j + 2) (by omega)).symm.trans entry') inUse'
      · cases inUse.symm.trans (formed.file isFile entry)
    · cases isNew
      exact { tree.formed target with }
  case owned =>
    have same : Directory.owned nodes' = Directory.owned nodes := by
      subst changed
      funext y
      by_cases isTarget : y = e.inodeSector
      · subst isTarget
        simp [Directory.owned, target]
      · rw [owned_update isTarget]
        by_cases isDir : y = d
        · subst isDir
          simp [Directory.owned, found]
        · rw [owned_update isDir]
    exact same ▸ tree.owned
  case freeMapFile => exact (live _).mpr ⟨tree.freeMapFile, fun same => tree.unnamed (same ▸ named)⟩
  case unnamed => exact fun named => tree.unnamed ((names _ _ _).mp named).1

end Pintos.Directory
