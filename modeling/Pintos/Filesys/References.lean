import Pintos.Filesys.WorkingDirectory

/-! # References to inodes

What the functions on directories and paths do to the counts of openers.  `Held refs s` says that the inodes are open at
least as often as they are in `refs`; each function adds the references that it leaves open to those who know of them,
and takes away those that it closes.
-/

namespace Pintos.Directory

open Library Function State
open Option (map_eq_some_iff bind_eq_some_iff)

/-- How often an inode is open. -/
def State.openCnt (s : State) (sector : SectorNo) : Nat :=
  ((s.inodes sector).map Inode.openCnt).getD 0

/-- The entries in use name other sectors than the free map's. -/
def Apart (entries : List DirEntry) : Prop :=
  ∀ e ∈ entries, e.inUse = true → e.inodeSector ≠ freeMapSector

structure Held (refs : Multiset SectorNo) (s : State) : Prop where
  count : ∀ d, refs.count d ≤ s.openCnt d
  sectors : Holds (owned s.nodes) s.freeMap
  apart : ∀ {d inode}, s.inodes d = some inode → Apart inode.entries

variable {s s' : State} {refs refs' : Multiset SectorNo} {d x dir currentDir : SectorNo} {name path : Name}
  {inode : Inode} {result : Bool} {current found : Option SectorNo} {last : Option Name} {level : Nat}
  {entries entries' : List DirEntry} {e : DirEntry} {k : Nat}

theorem openCnt_of_inodes (changed : s'.inodes = update s.inodes d (some inode)) :
    s'.openCnt = update s.openCnt d inode.openCnt := by
  funext y
  by_cases same : y = d
  · subst same
    simp [openCnt, changed]
  · simp [openCnt, changed, same]

theorem openCnt_of_some (found : s.inodes d = some inode) : s.openCnt d = inode.openCnt := by
  rw [openCnt, found]
  rfl

theorem Apart.set (apart : Apart entries) (other : e.inUse = true → e.inodeSector ≠ freeMapSector) (k : Nat) :
    Apart (entries.set k e) := by
  intro e' isEntry
  obtain isEntry | rfl := List.mem_or_eq_of_mem_set isEntry
  · exact apart e' isEntry
  · exact other

theorem Apart.puts (apart : Apart entries) (other : e.inodeSector ≠ freeMapSector) (puts : Puts entries k e entries') :
    Apart entries' := by
  intro e' isEntry inUse
  obtain ⟨i, isEntry⟩ := List.mem_iff_getElem?.mp isEntry
  by_cases same : i = k
  · cases isEntry.symm.trans (same ▸ puts.here)
    exact other
  · exact apart e' (List.mem_iff_getElem?.mpr ⟨i, puts.elsewhere i same ▸ isEntry⟩) inUse

/-- There may be more references. -/
theorem Held.mono (held : Held refs s) (fewer : refs' ≤ refs) : Held refs' s :=
  ⟨fun d => (Multiset.count_le_of_le d fewer).trans (held.count d), held.sectors, held.apart⟩

theorem Held.exists_inode (held : Held refs s) (isRef : d ∈ refs) : ∃ inode, s.inodes d = some inode ∧
    0 < inode.openCnt := by
  have count := (Multiset.count_pos.mpr isRef).trans_le (held.count d)
  cases found : s.inodes d with
  | none => simp [openCnt, found] at count
  | some inode => exact ⟨inode, rfl, openCnt_of_some found ▸ count⟩

/-- One inode changes. -/
theorem Held.change (held : Held refs s) (changed : s'.inodes = update s.inodes d (some inode))
    (here : refs'.count d ≤ inode.openCnt) (elsewhere : ∀ y, y ≠ d → refs'.count y = refs.count y)
    (apart : Apart inode.entries) (sectors : Holds (owned s'.nodes) s'.freeMap) : Held refs' s' := by
  refine ⟨fun y => ?_, sectors, fun {y inode'} found => ?_⟩
  · rw [openCnt_of_inodes changed]
    by_cases same : y = d
    · subst same
      rwa [update_self]
    · rw [update_of_ne same, elsewhere y same]
      exact held.count y
  · rw [changed] at found
    by_cases same : y = d
    · subst same
      rw [update_self] at found
      cases found
      exact apart
    · rw [update_of_ne same] at found
      exact held.apart found

/-! ## Inodes -/

theorem Held.open (held : Held refs s) (opened : s.inodeOpen d = some s') : Held (d ::ₘ refs) s' := by
  have same := inodeOpen_same opened
  obtain ⟨inode, found, rfl⟩ := map_eq_some_iff.mp opened
  have apart : Apart inode.entries := held.apart found
  refine held.change rfl ?_ (fun y different => Multiset.count_cons_of_ne different refs) apart ?_
  · rw [Multiset.count_cons_self]
    exact Nat.succ_le_succ (openCnt_of_some found ▸ held.count d)
  · rw [same.nodes, same.freeMap]
    exact held.sectors

theorem inodeRelease_inodes (released : s.inodeRelease d = some s') : s'.inodes = update s.inodes d none := by
  obtain ⟨inode, found, released⟩ := bind_eq_some_iff.mp released
  obtain ⟨cleared, freed, same⟩ := bind_eq_some_iff.mp released
  cases same
  rw [← (freeMapRelease_some freed).2]

/-- An inode whose sectors are free again. -/
theorem Held.release (held : Held refs s) (here : refs'.count d = 0)
    (elsewhere : ∀ y, y ≠ d → refs'.count y = refs.count y) (released : s.inodeRelease d = some s') :
    Held refs' s' := by
  have inodes := inodeRelease_inodes released
  refine ⟨fun y => ?_, ?_, fun {y inode} found => ?_⟩
  · by_cases same : y = d
    · subst same
      rw [here]
      exact Nat.zero_le _
    · rw [elsewhere y same, openCnt, inodes, update_of_ne same]
      exact held.count y
  · obtain ⟨inode, found, nodes, kept⟩ := inodeRelease_some released
    have empty : owned s'.nodes d = [] := by rw [owned, nodes, update_self]
    refine held.sectors.release (fun y different => ?_) (fun i outside => kept i ?_) empty
    · rw [owned, owned, nodes, update_of_ne different]
    · rw [owned, nodes_of_inode found] at outside
      exact outside
  · rw [inodes] at found
    by_cases same : y = d
    · rw [same, update_self] at found
      cases found
    · rw [update_of_ne same] at found
      exact held.apart found

theorem Held.close (held : Held (d ::ₘ refs) s) (closed : s.inodeClose d = some s') : Held refs s' := by
  obtain ⟨inode, found, closed⟩ := bind_eq_some_iff.mp closed
  have count : refs.count d + 1 ≤ inode.openCnt := by
    rw [← openCnt_of_some found, ← Multiset.count_cons_self]
    exact held.count d
  split at closed
  · omega
  split at closed
  next last =>
    exact held.release (by omega) (fun y different => (Multiset.count_cons_of_ne different refs).symm) closed
  next notLast =>
    cases closed
    have same := same_setInode found (inode.openCnt - 1)
    have apart : Apart inode.entries := held.apart found
    refine held.change rfl ?_ (fun y different => (Multiset.count_cons_of_ne different refs).symm) apart ?_
    · show refs.count d ≤ inode.openCnt - 1
      omega
    · rw [same.nodes, same.freeMap]
      exact held.sectors

theorem Held.closeDir {result' : Bool} (held : Held (dir ::ₘ refs) s)
    (closed : s.closeDir dir result = some (result', s')) : Held refs s' := by
  obtain ⟨_, closed, same⟩ := map_eq_some_iff.mp closed
  cases same
  exact held.close closed

/-- Another opener keeps an inode. -/
theorem Held.close_same (held : Held (d ::ₘ d ::ₘ refs) s) (closed : s.inodeClose d = some s') : Same s s' := by
  obtain ⟨inode, found, closed⟩ := bind_eq_some_iff.mp closed
  have count : refs.count d + 2 ≤ inode.openCnt := by
    have := held.count d
    rwa [openCnt_of_some found, Multiset.count_cons_self, Multiset.count_cons_self] at this
  rw [if_neg (by omega), if_neg (by omega)] at closed
  cases closed
  exact same_setInode found _

theorem Unowned.inodes (unowned : Unowned x s) : s.inodes x = none := by
  cases found : s.inodes x with
  | none => rfl
  | some inode =>
    refine absurd ?_ (unowned.nobody x)
    rw [owned, nodes_of_inode found]
    exact List.mem_cons_self

section

variable (held : Held refs s)

include held

theorem Held.unused (unowned : Unowned x s) : refs.count x = 0 := by
  have count := held.count x
  rwa [openCnt, unowned.inodes, Option.map_none, Option.getD_none, Nat.le_zero] at count

theorem Held.allocate (allocated : s.freeMapAllocate = some (x, s')) : Held refs s' ∧ Unowned x s' := by
  obtain ⟨clear, rfl⟩ := freeMapAllocate_some allocated
  refine ⟨⟨held.count, held.sectors.mono (kept_mark clear), held.apart⟩, fun d isOwner => ?_, marked_mark clear⟩
  cases clear.symm.trans (held.sectors.marked isOwner)

theorem Held.create {length : Nat} {isDirectory : Bool} (unowned : Unowned x s)
    (created : s.inodeCreate x length isDirectory level = some s') : Held refs s' := by
  obtain ⟨sectors, allocated, inodes⟩ := inodeCreate_some created
  refine held.change inodes ?_ (fun _ _ => rfl) (fun e isEntry => ?_) ?_
  · exact (held.unused unowned).le
  · rw [List.eq_of_mem_replicate isEntry]
    exact nofun
  · exact unowned.holds allocated (nodes_of_inodes inodes) held.sectors

/-! ## Directories -/

theorem Held.found_ne (isInode : s.inodes d = some inode) (looked : inode.lookup name = some (k, e)) :
    e.inodeSector ≠ freeMapSector := by
  obtain ⟨isEntry, inUse, _⟩ := lookup_some looked
  exact held.apart isInode e (List.mem_of_getElem? isEntry) inUse

theorem Held.lookup (looked : s.dirLookup dir name = some (found, s')) :
    Held (found.elim refs (· ::ₘ refs)) s' ∧ found ≠ some freeMapSector := by
  obtain ⟨inode, isInode, looked⟩ := bind_eq_some_iff.mp looked
  split at looked
  next =>
    cases looked
    exact ⟨held, nofun⟩
  next found =>
    obtain ⟨_, opened, same⟩ := map_eq_some_iff.mp looked
    cases same
    exact ⟨held.open opened, by simpa using held.found_ne isInode found⟩

theorem Held.add {added : Bool} (other : x ≠ freeMapSector) (adds : s.dirAdd dir name x = some (added, s')) :
    Held refs s' := by
  obtain ⟨inode, found, cases⟩ := dirAdd_cases adds
  cases cases with
  | inl failed =>
    obtain ⟨_, rfl, _⟩ := failed
    exact held
  | inr done =>
    obtain ⟨_, _, k, entries, sectors, puts, allocated, inodes⟩ := done
    refine held.change inodes ?_ (fun _ _ => rfl) ((held.apart found).puts other puts) ?_
    · exact openCnt_of_some found ▸ held.count dir
    · rw [nodes_of_inodes inodes]
      refine allocated.holds held.sectors (fun i isNew => ?_) fun y other => owned_update other
      simpa [owned, nodes_of_inode found, Inode.node, or_assoc] using isNew

/-- An inode may be marked as removed, and entries change. -/
theorem Held.set (found : s.inodes d = some inode) (apart : Apart entries) (removed : Bool) :
    Held refs (s.setInode d { inode with entries, removed }) := by
  refine held.change rfl ?_ (fun _ _ => rfl) apart ?_
  · exact openCnt_of_some found ▸ held.count d
  · have same : owned (s.setInode d { inode with entries, removed }).nodes = owned s.nodes := by
      funext y
      by_cases same : y = d
      · subst same
        rw [owned, owned, nodes_setInode, update_self, nodes_of_inode found]
        rfl
      · rw [owned, owned, nodes_setInode, update_of_ne same]
    rw [same]
    exact held.sectors

theorem Held.remove (removed : s.dirRemove currentDir dir name = some (result, s')) : Held refs s' := by
  obtain ⟨dirInode, isDir, removed⟩ := bind_eq_some_iff.mp removed
  split at removed
  · cases removed
    exact held
  rename_i i e looked
  obtain ⟨s₁, opened, removed⟩ := bind_eq_some_iff.mp removed
  have opens := held.open opened
  obtain ⟨inode, isInode, removed⟩ := bind_eq_some_iff.mp removed
  split at removed
  · obtain ⟨s₂, closed, same⟩ := bind_eq_some_iff.mp removed
    cases same
    exact opens.close closed
  obtain ⟨dirInode₁, isDir₁, removed⟩ := bind_eq_some_iff.mp removed
  obtain ⟨inode₁, isInode₁, removed⟩ := bind_eq_some_iff.mp removed
  obtain ⟨s₂, closed, same⟩ := bind_eq_some_iff.mp removed
  cases same
  have erased := opens.set isDir₁ ((opens.apart isDir₁).set (e := { e with inUse := false }) nofun i) dirInode₁.removed
  exact (erased.set isInode₁ (erased.apart isInode₁) true).close closed

end

/-! ## Paths -/

section

variable (held : Held (d ::ₘ refs) s)

include held

/-- The loops over a path go from a directory to the inode found in it. -/
theorem Held.next {s₁ : State} (looked : s.dirLookup d name = some (some x, s₁))
    (closed : s₁.inodeClose d = some s') : Held (x ::ₘ refs) s' ∧ x ≠ freeMapSector := by
  obtain ⟨both, other⟩ := held.lookup looked
  have both : Held (d ::ₘ x ::ₘ refs) s₁ := Multiset.cons_swap x d refs ▸ both
  exact ⟨both.close closed, by simpa using other⟩

/-- What a lookup leaves open of a name that does not matter. -/
theorem Held.lookup_mono (looked : s.dirLookup dir name = some (found, s')) : Held (d ::ₘ refs) s' := by
  refine (held.lookup looked).1.mono ?_
  cases found with
  | none => exact le_rfl
  | some x => exact Multiset.le_cons_self _ x

variable (other : d ≠ freeMapSector) {tokens : List (Name × Bool)}

include other

theorem Held.walk (walked : s.walk tokens d = some ((dir, last), s')) :
    Held (dir ::ₘ refs) s' ∧ dir ≠ freeMapSector := by
  induction tokens generalizing s d with
  | nil =>
    cases walked
    exact ⟨held, other⟩
  | cons token rest ih =>
    obtain ⟨name, isLast⟩ := token
    cases isLast with
    | true =>
      cases walked
      exact ⟨held, other⟩
    | false =>
      rw [State.walk] at walked
      split at walked
      next => cases walked
      next s₁ looked =>
        cases walked
        exact ⟨held.lookup_mono looked, other⟩
      next x s₁ looked =>
        obtain ⟨s₂, closed, walked⟩ := bind_eq_some_iff.mp walked
        obtain ⟨held, other⟩ := held.next looked closed
        exact ih held other walked

/-- The directory that the walk starts from stays open where there is no name in the path. -/
theorem Held.openWalk {before : Option SectorNo} (start : before = none ∨ before = some d)
    (walked : s.openWalk tokens d before = some (found, s')) :
    Held (found.elim refs (· ::ₘ refs)) s' ∧ found ≠ some freeMapSector := by
  induction tokens generalizing s d before with
  | nil =>
    cases walked
    obtain rfl | rfl := start
    · exact ⟨held.mono (Multiset.le_cons_self _ d), nofun⟩
    · exact ⟨held, by simpa using other⟩
  | cons token rest ih =>
    obtain ⟨name, isLast⟩ := token
    rw [State.openWalk] at walked
    split at walked
    next => cases walked
    next s₁ looked =>
      obtain ⟨s₂, closed, same⟩ := map_eq_some_iff.mp walked
      cases same
      exact ⟨(held.lookup_mono looked).close closed, nofun⟩
    next x s₁ looked =>
      obtain ⟨s₂, closed, walked⟩ := bind_eq_some_iff.mp walked
      obtain ⟨held, other⟩ := held.next looked closed
      exact ih held other (.inr rfl) walked

theorem Held.chdirWalk {current' : Option SectorNo} (before : current ≠ some freeMapSector)
    (walked : s.chdirWalk tokens d current = some ((dir, current'), s')) :
    Held (dir ::ₘ refs) s' ∧ current' ≠ some freeMapSector := by
  induction tokens generalizing s d current with
  | nil =>
    cases walked
    exact ⟨held, before⟩
  | cons token rest ih =>
    obtain ⟨name, isLast⟩ := token
    rw [State.chdirWalk] at walked
    split at walked
    next => cases walked
    next s₁ looked =>
      cases walked
      exact ⟨held.lookup_mono looked, before⟩
    next x s₁ looked =>
      obtain ⟨s₂, closed, walked⟩ := bind_eq_some_iff.mp walked
      obtain ⟨held, other⟩ := held.next looked closed
      refine ih held other ?_ walked
      split
      · simpa using other
      · exact before

end

/-! ## The calls -/

section

variable (held : Held refs s) (isMap : freeMapSector ∈ refs) (other : currentDir ≠ freeMapSector)

include held

/-- The sector of the free map's inode is not allocated again. -/
theorem Held.allocate_ne (isMap : freeMapSector ∈ refs) (allocated : s.freeMapAllocate = some (x, s')) :
    x ≠ freeMapSector := by
  rintro rfl
  obtain ⟨allocates, unowned⟩ := held.allocate allocated
  obtain ⟨inode, found, _⟩ := allocates.exists_inode isMap
  cases unowned.inodes.symm.trans found

include other

omit held in
theorem startOf_ne (path : Name) : startOf currentDir path ≠ freeMapSector := by
  rw [startOf]
  split
  · decide
  · exact other

theorem Held.openPath (opened : s.openPath currentDir path = some ((dir, last), s')) :
    Held (dir ::ₘ refs) s' ∧ dir ≠ freeMapSector := by
  obtain ⟨s₁, isOpen, walked⟩ := bind_eq_some_iff.mp opened
  exact (held.open isOpen).walk (startOf_ne other path) walked

theorem Held.chdir (changed : s.chdir currentDir path = some (current, s')) :
    Held refs s' ∧ current ≠ some freeMapSector := by
  obtain ⟨s₁, isOpen, changed⟩ := bind_eq_some_iff.mp changed
  obtain ⟨⟨⟨dir, current'⟩, s₂⟩, walked, changed⟩ := bind_eq_some_iff.mp changed
  obtain ⟨s₃, closed, same⟩ := bind_eq_some_iff.mp changed
  cases same
  obtain ⟨held, other⟩ := (held.open isOpen).chdirWalk (startOf_ne other path) (by decide) walked
  exact ⟨held.close closed, other⟩

theorem Held.newName {make : SectorNo → Name → State → Option (Bool × State)}
    (makes : ∀ {dir name s₁ result s₂}, dir ≠ freeMapSector → Held (dir ::ₘ refs) s₁ →
      make dir name s₁ = some (result, s₂) → Held refs s₂)
    (made : s.newName currentDir path make = some (result, s')) : Held refs s' := by
  obtain ⟨⟨⟨dir, last⟩, s₁⟩, opened, made⟩ := bind_eq_some_iff.mp made
  obtain ⟨opens, other⟩ := held.openPath other opened
  rcases last with _ | name
  · exact opens.closeDir made
  obtain ⟨⟨found, s₂⟩, looked, made⟩ := bind_eq_some_iff.mp made
  have looks := opens.lookup_mono looked
  cases found with
  | none => exact makes other looks made
  | some x => exact looks.closeDir made

theorem Held.filesysOpen {file : Option SectorNo} (opened : s.filesysOpen currentDir path = some (file, s')) :
    Held (file.elim refs (· ::ₘ refs)) s' ∧ file ≠ some freeMapSector := by
  obtain ⟨s₁, isOpen, opened⟩ := bind_eq_some_iff.mp opened
  obtain ⟨⟨inode, s₂⟩, walked, opened⟩ := bind_eq_some_iff.mp opened
  obtain ⟨walks, isOther⟩ := (held.open isOpen).openWalk (startOf_ne other path) (.inl rfl) walked
  cases inode with
  | some inode =>
    cases opened
    exact ⟨⟨walks.count, walks.sectors, walks.apart⟩, isOther⟩
  | none =>
    dsimp only at opened
    split at opened
    · obtain ⟨s₃, isRoot, same⟩ := bind_eq_some_iff.mp opened
      cases same
      have opens := walks.open isRoot
      exact ⟨⟨opens.count, opens.sectors, opens.apart⟩, by decide⟩
    · cases opened
      exact ⟨walks, nofun⟩

theorem Held.filesysRemove (removed : s.filesysRemove currentDir path = some (result, s')) : Held refs s' := by
  obtain ⟨⟨⟨dir, last⟩, s₁⟩, opened, removed⟩ := bind_eq_some_iff.mp removed
  obtain ⟨opens, _⟩ := held.openPath other opened
  cases last with
  | none => exact opens.closeDir removed
  | some name =>
    obtain ⟨⟨success, s₂⟩, removed, closed⟩ := bind_eq_some_iff.mp removed
    exact (opens.remove removed).closeDir closed

end

theorem Held.createFile {initialSize : Nat} (isMap : freeMapSector ∈ refs) (held : Held (dir ::ₘ refs) s)
    (created : s.createFile initialSize dir name = some (result, s')) : Held refs s' := by
  obtain ⟨dirInode, _, created⟩ := bind_eq_some_iff.mp created
  split at created
  · exact held.closeDir created
  split at created
  next => exact held.closeDir created
  next x s₁ allocated =>
    obtain ⟨allocates, unowned⟩ := held.allocate allocated
    obtain ⟨s₂, made, created⟩ := bind_eq_some_iff.mp created
    obtain ⟨⟨added, s₃⟩, adds, created⟩ := bind_eq_some_iff.mp created
    have after := (allocates.create unowned made).add (held.allocate_ne (Multiset.mem_cons_of_mem isMap) allocated) adds
    dsimp only at created
    split at created
    next => exact after.closeDir created
    next =>
      obtain ⟨s₄, released, closed⟩ := bind_eq_some_iff.mp created
      exact (after.release (allocates.unused unowned) (fun _ _ => rfl) released).closeDir closed

theorem Held.dirFill {parent : SectorNo} (held : Held refs s) (unowned : Unowned x s) (other : x ≠ freeMapSector)
    (isParent : parent ≠ freeMapSector) (filled : s.dirFill x parent level = some (result, s')) : Held refs s' := by
  obtain ⟨s₁, created, filled⟩ := bind_eq_some_iff.mp filled
  obtain ⟨s₂, opened, filled⟩ := bind_eq_some_iff.mp filled
  obtain ⟨⟨addedDot, s₃⟩, addsDot, filled⟩ := bind_eq_some_iff.mp filled
  have withDot := ((held.create unowned created).open opened).add other addsDot
  dsimp only at filled
  split at filled
  next =>
    obtain ⟨⟨addedDotDot, s₄⟩, addsDotDot, closed⟩ := bind_eq_some_iff.mp filled
    exact (withDot.add isParent addsDotDot).closeDir closed
  next => exact withDot.closeDir filled

theorem Held.dirCreate (held : Held (dir ::ₘ refs) s) (unowned : Unowned x s) (other : x ≠ freeMapSector)
    (isParent : dir ≠ freeMapSector) (created : s.dirCreate x dir = some (result, s')) : Held (dir ::ₘ refs) s' := by
  simp only [State.dirCreate] at created
  split at created
  · exact held.dirFill unowned other isParent created
  obtain ⟨s₁, opened, created⟩ := bind_eq_some_iff.mp created
  obtain ⟨inode, _, created⟩ := bind_eq_some_iff.mp created
  obtain ⟨s₂, closed, created⟩ := bind_eq_some_iff.mp created
  have opens := held.open opened
  have after := opens.close closed
  split at created
  next =>
    cases created
    exact after
  next =>
    exact after.dirFill (unowned.same ((inodeOpen_same opened).trans (opens.close_same closed))) other isParent created

theorem Held.createDir (isMap : freeMapSector ∈ refs) (isParent : dir ≠ freeMapSector) (held : Held (dir ::ₘ refs) s)
    (created : s.createDir dir name = some (result, s')) : Held refs s' := by
  simp only [State.createDir] at created
  split at created
  next => exact held.closeDir created
  next x s₁ allocated =>
    obtain ⟨allocates, unowned⟩ := held.allocate allocated
    have other := held.allocate_ne (Multiset.mem_cons_of_mem isMap) allocated
    obtain ⟨⟨isCreated, s₂⟩, made, created⟩ := bind_eq_some_iff.mp created
    have makes := allocates.dirCreate unowned other isParent made
    dsimp only at created
    split at created
    next =>
      obtain ⟨⟨added, s₃⟩, adds, closed⟩ := bind_eq_some_iff.mp created
      exact (makes.add other adds).closeDir closed
    next => exact makes.closeDir created

end Pintos.Directory
