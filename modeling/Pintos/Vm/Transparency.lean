import Pintos.Vm.Contents
import Pintos.Vm.Loading

/-! # Demand paging is transparent

`State.image` is a memory in which every page is always resident: a page gets its initial bytes when it is made
(`State.addPage`) and changes with the stores of its process only.  What a process finds in its pages agrees with it.
-/

namespace Pintos.Vm

open Kernel Library Function State

structure Transparent (s : State) : Prop where
  made : ∀ (i : FrameElem) page, s.pageLookup i.pd i.vaddr = some page → page.writable = (s.image i.pd i.vaddr).writable
  found : ∀ (i : FrameElem) page, s.pageLookup i.pd i.vaddr = some page → page.mmaped = false →
    (s.view i page).Agrees (s.image i.pd i.vaddr)

variable {label : Label}

section Steps

variable {s s' : State}

theorem Transparent.quiet (h : Transparent s) (quiet : Quiet s s') : Transparent s' := by
  constructor
  · intro i page' entry
    cases quiet.pages i with
    | inl keeps =>
      obtain ⟨page, before, source, -⟩ := keeps.entry page' entry
      rw [keeps.image, Page.writable_of_source source]
      exact h.made i page before
    | inr creates => rw [(creates page' entry).2.1]
  · intro i page' entry notMapped
    cases quiet.pages i with
    | inl keeps =>
      obtain ⟨page, before, source, same | out⟩ := keeps.entry page' entry
      · rw [keeps.image]
        exact same.trans (h.found i page before ((Page.mmaped_of_source source).symm.trans notMapped))
      · have agrees := h.found i page before ((Page.mmaped_of_source source).symm.trans notMapped)
        rw [keeps.image]
        exact out.trans ⟨agrees.bytes, h.made i page before⟩
    | inr creates =>
      obtain ⟨-, image, agrees⟩ := creates page' entry
      rw [image]
      exact agrees

theorem Transparent.stores (h : Transparent s) {i : FrameElem} {ofs : Nat} {byte : UInt8}
    (stores : Stores s s' i ofs byte) : Transparent s' := by
  have lookup := pageLookup_congr stores.tables
  constructor
  · intro j page entry
    rw [lookup] at entry
    by_cases same : j = i
    · subst same
      rw [stores.image]
      exact h.made j page entry
    · rw [stores.images j same]
      exact h.made j page entry
  · intro j page entry notMapped
    rw [lookup] at entry
    have agrees := h.found j page entry notMapped
    by_cases same : j = i
    · subst same
      rw [stores.image, stores.view page]
      refine ⟨?_, agrees.writable⟩
      intro n inside
      simp only [update_apply, agrees.bytes n inside]
    · rw [stores.images j same]
      exact (stores.views j same page entry).trans agrees

theorem Transparent.writesBack (isolated : Isolated s) (backed : Backed s) (h : Transparent s)
    (writes : WritesBack s s') : Transparent s' := by
  obtain ⟨task, rest, top, isTask⟩ := writes.busy
  have settled : Settled s := by
    obtain ⟨a, n, rfl⟩ | ⟨mi, count, rfl⟩ := isTask
    · exact backed.settled top
    · exact backed.settled top
  have lookup := pageLookup_congr writes.tables
  constructor
  · intro i page entry
    rw [writes.image]
    exact h.made i page (lookup ▸ entry)
  · intro i page entry notMapped
    rw [lookup] at entry
    rw [writes.image]
    refine (writes.pages i page entry notMapped ?_).trans (h.found i page entry notMapped)
    -- The page's file is the executable of a live process, which denies writes.
    intro file isFile
    apply writes.denied
    have executes := settled i.pd i.vaddr page file entry notMapped isFile
    have live : i.pd ∈ s.processes := by
      by_contra isDead
      exact absurd (entry.symm.trans (isolated.dead i.pd i.vaddr isDead)) (by simp)
    exact List.any_eq_true.mpr ⟨i.pd, live, by simp [executes]⟩

theorem Transparent.moves (isolated : Isolated s) (backed : Backed s) (h : Transparent s)
    (available : s.slotAvailable = true) (moves : Moves label s s') : Transparent s' := by
  obtain quiet | ⟨i, ofs, byte, stores⟩ | writes := isolated.contents available moves
  · exact h.quiet quiet
  · exact h.stores stores
  · exact h.writesBack isolated backed writes

end Steps

theorem transparent_boot (poolSize swapSize : Nat) (files : File → FileData) :
    Transparent (boot poolSize swapSize files) := by
  constructor
  · intro i page found
    cases found
  · intro i page found
    cases found

/-! ## The always-resident memory -/

/-- A page after a step of the always-resident memory: its process may store to it. -/
def residentStep (label : Label) (s : State) (pid : Pid) (u : Upage) : Image :=
  match label with
  | .access pid' addr (some byte) _ =>
    if pid' = pid ∧ addr / pgSize = u ∧ (s.lookupPage pid u).any fun pte => pte.present && pte.writable then
      ⟨update (s.image pid u).bytes (addr % pgSize) byte, (s.image pid u).writable⟩
    else s.image pid u
  | _ => s.image pid u

/-- The page is a new one, with its initial bytes.  The stack page can take the place of a page of the executable while
a process is being loaded. -/
def NewPage (s s' : State) (pid : Pid) (u : Upage) : Prop :=
  (s.pageLookup pid u = none ∨ s.loading.isSome) ∧
  ∃ page, s'.pageLookup pid u = some page ∧ s'.image pid u = ⟨s.initialBytes page, page.writable⟩

section Resident

variable {s s' : State}

/-- An access that faults, or that is a read. -/
theorem residentStep_same (pid q : Pid) (u : Upage) (addr esp : Nat) {write : Option UInt8}
    (noStore : ∀ byte, write = some byte →
      ((s.lookupPage pid (addr / pgSize)).any fun pte => pte.present && pte.writable) = false) :
    residentStep (.access pid addr write esp) s q u = s.image q u := by
  cases write with
  | none => rfl
  | some byte =>
    simp only [residentStep]
    split
    next stores =>
      obtain ⟨rfl, rfl, isWritable⟩ := stores
      rw [noStore byte rfl] at isWritable
      cases isWritable
    next => rfl

theorem image_access (pid q : Pid) (u : Upage) (addr esp : Nat) (write : Option UInt8) :
    (s.access pid addr write esp).image q u = residentStep (.access pid addr write esp) s q u := by
  have unchanged : (s.setNewDirtyPage esp pid).image = s.image :=
    setNewDirtyPage_cases (motive := fun t => t.image = s.image) esp pid fun _ _ _ => rfl
  have faults : ∀ n, ((s.lookupPage pid (addr / pgSize)).any fun pte => pte.present && pte.writable) = false →
      image { s.setNewDirtyPage esp pid with current := pid, tasks := [.fault addr n] } q u =
        residentStep (.access pid addr write esp) s q u := by
    intro n notWritable
    rw [residentStep_same pid q u addr esp fun _ _ => notWritable]
    exact congrFun (congrFun unchanged q) u
  simp only [access]
  rcases isPte : s.lookupPage pid (addr / pgSize) with _ | pte
  · exact faults true (by rw [isPte]; rfl)
  obtain ⟨_ | _, k, writable, dirty, accessed, stack⟩ := pte
  · exact faults true (by rw [isPte]; rfl)
  rcases write with _ | byte
  · rfl
  cases writable with
  | false => exact faults false (by rw [isPte]; rfl)
  | true =>
    simp only [if_true, residentStep, store]
    by_cases same : pid = q ∧ addr / pgSize = u
    · obtain ⟨rfl, rfl⟩ := same
      rw [if_pos ⟨rfl, rfl, by rw [isPte]; rfl⟩, update_self, update_self]
      rfl
    · rw [if_neg fun stores => same ⟨stores.1, stores.2.1⟩]
      by_cases samePid : q = pid
      · have otherPage : u ≠ addr / pgSize := fun isPage => same ⟨samePid.symm, isPage.symm⟩
        rw [samePid, update_self, update_of_ne otherPage]
        rfl
      · rw [update_of_ne samePid]
        rfl

theorem image_stack {pid : Pid} {u : Upage} (isNew : s.pageLookup pid u = none ∨ s.loading.isSome)
    (tables : s'.supplementaryPageTable = (s.addPage pid u zeroPage).supplementaryPageTable)
    (image : s'.image = (s.addPage pid u zeroPage).image) (q : Pid) (v : Upage) :
    s'.image q v = s.image q v ∨ NewPage s s' q v := by
  by_cases here : q = pid ∧ v = u
  · obtain ⟨rfl, rfl⟩ := here
    refine .inr ⟨isNew, zeroPage, (Replaces.insert zeroPage tables).here, ?_⟩
    rw [image]
    simp [addPage]
  · refine .inl ?_
    rw [image]
    by_cases same : q = pid
    · subst same
      have otherPage : v ≠ u := fun isPage => here ⟨rfl, isPage⟩
      simp [addPage, otherPage]
    · simp [addPage, same]

theorem image_moves (isolated : Isolated s) (moves : Moves label s s')
    (notStore : ∀ pid addr byte esp, label ≠ .access pid addr (some byte) esp) (q : Pid) (u : Upage) :
    s'.image q u = s.image q u ∨ NewPage s s' q u := by
  cases moves with
  | store idle found present writable inside changes isAccess =>
    obtain ⟨addr, esp, isAccess⟩ := isAccess
    exact absurd isAccess (notStore _ addr _ esp)
  | @load pid file _ idle fresh added =>
    by_cases same : q = pid
    · subst same
      obtain ⟨-, image⟩ | ⟨page, found, -, image⟩ := added.page u
      · exact .inl image
      · exact .inr ⟨.inl (isolated.dead q u fresh), page, found, image⟩
    · exact .inl (congrFun (added.others q same).2 u)
  | mmap idle live mid whole inside absent added all isMmap =>
    obtain ⟨-, image⟩ | ⟨rfl, page, ⟨count, rfl, small, -⟩, found, image⟩ := mapped_lookup added q u
    · exact .inl image
    · exact .inr ⟨.inl (absent count small), page, found, image⟩
  | grow top absent => exact image_stack (.inl absent) rfl rfl q u
  | setupInstall top => exact image_stack (.inr (by rw [loading, top]; rfl)) rfl rfl q u
  | _ => exact .inl rfl

theorem image_step (isolated : Isolated s) (available : memoryAvailable label s) (stepped : step label s = some s')
    (q : Pid) (u : Upage) : s'.image q u = residentStep label s q u ∨ NewPage s s' q u := by
  have moves := step_moves isolated available stepped
  cases label with
  | access pid addr write esp =>
    unfold step at stepped
    split at stepped
    next isGo => cases isGo
    next =>
      simp only [enter] at stepped
      split at stepped <;> cases stepped
      exact .inl (image_access pid q u addr esp write)
    next => cases stepped
  | load | syscall | mmap | munmap | exit | go => exact image_moves isolated moves (by simp) q u

end Resident

/-- There is memory for bookkeeping, and swap space. -/
def pagingAvailable (label : Label) (s : State) : Prop :=
  memoryAvailable label s ∧ s.slotAvailable = true

instance : ∀ label s, Decidable (pagingAvailable label s) :=
  fun label s => inferInstanceAs (Decidable (memoryAvailable label s ∧ s.slotAvailable = true))

/-- Whenever a page that is not mapped from a file is in memory, its process finds there what is in the always-resident
memory, and the page is writable if it was made so; and the always-resident memory changes by the stores of each process
to its own pages only, from the initial bytes of each page on. -/
theorem paging_transparent {files : File → FileData} {s : State} (reached : Reachable pagingAvailable files s) :
    (∀ pid u page pte, s.pageLookup pid u = some page → page.mmaped = false → s.lookupPage pid u = some pte →
      pte.present = true → (∀ j < pgSize, s.memory pte.kpage j = (s.image pid u).bytes j) ∧
        pte.writable = (s.image pid u).writable) ∧
    ∀ label s', memoryAvailable label s → step label s = some s' →
      ∀ pid u, s'.image pid u = residentStep label s pid u ∨ NewPage s s' pid u := by
  obtain ⟨isolated, loading, backed, transparent⟩ := reached.invariant (fun _ _ allowed => allowed.1)
    (fun s => Loading s ∧ Backed s ∧ Transparent s)
    (fun poolSize swapSize => ⟨loading_boot poolSize swapSize files, backed_boot poolSize swapSize files,
      transparent_boot poolSize swapSize files⟩)
    (fun isolated before allowed _ moves => ⟨before.1.moves moves, before.2.1.moves before.1 moves,
      before.2.2.moves isolated before.2.1 allowed.2 moves⟩)
  constructor
  · intro pid u page pte entry notMapped found present
    have isPte : core s.pagedir pid u = some pte.core := by
      rw [core, show (s.pagedir pid).lookup u = some pte from found]
      rfl
    have agrees := transparent.found ⟨pid, u⟩ page entry notMapped
    rw [view_present (i := ⟨pid, u⟩) isPte present] at agrees
    exact ⟨agrees.bytes, agrees.writable⟩
  · intro label s' available stepped
    exact image_step isolated available stepped

/-- A page that was stored to, evicted for another page of the process, and read again. -/
theorem paging_transparent_example : ∃ s, Reachable pagingAvailable (fun _ => ⟨8192, fun k => UInt8.ofNat k⟩) s ∧
    (s.image 1 8).bytes 3 = 9 ∧ ∀ j < pgSize, s.memory 1 j = (s.image 1 8).bytes j := by
  obtain ⟨s, reaches, entry, found, stored⟩ := exists_reached step pagingAvailable
    (boot 2 2 fun _ => ⟨8192, fun k => UInt8.ofNat k⟩)
    (fun s => s.pageLookup 1 8 = some ⟨some 0, 0, 4096, true, false, some 0, false⟩ ∧
      s.lookupPage 1 8 = some ⟨true, 1, true, false, false, false⟩ ∧ (s.image 1 8).bytes 3 = 9)
    ([.load 1 0 [⟨0, 8, 8192, 2, true⟩]] ++ goes 2 ++ [.access 1 (8 * 4096 + 3) none 0xbffffff0] ++ goes 2 ++
      [.access 1 (8 * 4096 + 3) (some 9) 0xbffffff0, .access 1 (9 * 4096) none 0xbffffff0] ++ goes 4 ++
      [.access 1 (8 * 4096) none 0xbffffff0] ++ goes 4) (by decide +kernel)
  have reached : Reachable pagingAvailable (fun _ => ⟨8192, fun k => UInt8.ofNat k⟩) s := ⟨2, 2, reaches⟩
  exact ⟨s, reached, stored, ((paging_transparent reached).1 1 8 _ _ entry rfl found rfl).1⟩

end Pintos.Vm
