import Pintos.Vm.Isolation

/-! # Frame accounting

No page of the user pool is lost, as long as a fault is known to be legal when its page is taken.
-/

namespace Pintos.Vm

open Kernel Library Function State

/-! ## Frames -/

/-- The page fault in progress does not kill its process: the page is known and not present, or the stack grows. -/
def State.faultIsLegal (s : State) : Bool :=
  match s.tasks with
  | .resolve faultAddr notPresent _ :: _ =>
    if (s.pageLookup s.current (faultAddr / pgSize)).isSome then notPresent else s.growsStack s.current faultAddr
  | _ => true

/-- Memory for bookkeeping is available, and no process is killed by a page fault that has taken a page. -/
def onlyLegalFaults (label : Label) (s : State) : Prop :=
  memoryAvailable label s ∧ s.faultIsLegal = true

instance : ∀ label s, Decidable (onlyLegalFaults label s) :=
  fun label s => inferInstanceAs (Decidable (memoryAvailable label s ∧ s.faultIsLegal = true))

variable {rest : List Task} {k : Kpage}

theorem State.faultIsLegal_resolve {s : State} {a : Nat} {n : Bool} (top : s.tasks = .resolve a n k :: rest)
    (legal : s.faultIsLegal = true) :
    ¬ (s.pageLookup s.current (a / pgSize) = none ∧ s.growsStack s.current a = false ∨
      (s.pageLookup s.current (a / pgSize)).isSome ∧ n = false) := by
  simp only [faultIsLegal, top] at legal
  rintro (⟨absent, grows⟩ | ⟨found, isPresent⟩)
  · simp [absent, grows] at legal
  · simp [found, isPresent] at legal

/-- Each page in use is a present user page, or in the hands of the current process. -/
def FramesExact (s : State) : Prop :=
  Exact s.frameOf s.usedMap s.spare

section Frames

variable {s s' : State} {pte : Pte}

/-- A step that neither takes nor installs a page. -/
theorem FramesExact.same (h : FramesExact s) (idle : s.spare = none) (frames : s'.frameOf = s.frameOf)
    (usedMap : s'.usedMap = s.usedMap) : FramesExact s' := by
  rw [FramesExact, idle] at h
  rw [FramesExact, frames, usedMap]
  exact h.weaken _

theorem FramesExact.install (h : FramesExact s) {task : Task} {u : Upage} (top : s.tasks = task :: rest)
    (held : task.held = some k) (absent : s.pagedirGetPage s.current u = none)
    (changes : Changes s.pagedir s'.pagedir s.current u pte) (present : pte.present = true) (isPage : pte.kpage = k)
    (usedMap : s'.usedMap = s.usedMap) : FramesExact s' := by
  have noPage : s.frameOf ⟨s.current, u⟩ = none := absent
  have here : s'.frameOf ⟨s.current, u⟩ = some k := by
    rw [changes.frameOf_here, if_pos present, isPage]
  rw [FramesExact, spare_of_top top, held] at h
  rw [FramesExact, usedMap]
  exact (h.give noPage here changes.frameOf_ne).weaken _

theorem FramesExact.remove (h : FramesExact s) (idle : s.spare = none) {i : FrameElem} {pte' : Pte}
    (found : core s.pagedir i.pd i.vaddr = some pte) (present : pte.present = true)
    (changes : Changes s.pagedir s'.pagedir i.pd i.vaddr pte') (usedMap : s'.usedMap = s.usedMap.set pte.kpage false) :
    FramesExact s' := by
  have had : s.frameOf i = some pte.kpage := frameOf_of_found found present
  have elsewhere : ∀ other, other ≠ i → s'.frameOf other = s.frameOf other := changes.frameOf_ne
  rw [FramesExact, idle] at h
  rw [FramesExact, usedMap]
  exact (h.giveUp had elsewhere).weaken _

theorem FramesExact.moves {label : Label} (isolated : Isolated s) (h : FramesExact s) (legal : s.faultIsLegal = true)
    (moves : Moves label s s') : FramesExact s' := by
  have notBusy : s.tasks = [] → s.spare = none := by
    intro idle
    simp [spare, idle]
  cases moves with
  | enter idle _ same | read idle same => exact h.same (notBusy idle) (frameOf_of_core same) rfl
  | store idle found present writable inside changes isAccess =>
    exact h.same (notBusy idle) (frameOf_store changes found _ _) rfl
  | load idle fresh added => exact h.same (notBusy idle) (isolated.frameOf_load fresh added) (by rw [added.rest]; rfl)
  | mmap idle live mid whole inside absent added all isMmap =>
    exact h.same (notBusy idle) (frameOf_of_core (by rw [added.rest]; rfl)) (by rw [added.rest]; rfl)
  | silent top silent => exact h.same ((spare_of_top top).trans silent.held) rfl rfl
  | take top takes free =>
    rw [FramesExact, spare_of_top top, takes.held.1] at h
    rw [FramesExact, spare_of_top rfl, takes.held.2]
    exact h.take _
  | lose top illegal => exact absurd illegal (faultIsLegal_resolve top legal)
  | putBack top puts same =>
    rw [FramesExact, spare_of_top top, puts.held] at h
    rw [FramesExact, frameOf_of_core same]
    exact h.putBack.weaken _
  | toSwap top evicts isVictim perm entry found present changes clear =>
    exact h.remove ((spare_of_top top).trans evicts.held.1) found present changes rfl
  | toFile top mapped isVictim perm entry found present changes written reserved =>
    exact h.remove (spare_of_top top) found present changes rfl
  | grow top absent inside changes => exact h.install top rfl (isolated.getPage_none absent) changes rfl rfl rfl
  | lazyLoad top _ _ _ _ absent changes | swapIn top _ _ _ absent changes | setupInstall top absent changes =>
    exact h.install top rfl absent changes rfl rfl rfl
  | munmapEnd top | munmapAbsent top => exact h.same (spare_of_top top) rfl rfl
  | munmapWrite top present same => exact h.same (spare_of_top top) (frameOf_of_core same) rfl
  | munmapPresent top found present changes =>
    exact h.remove (i := ⟨s.current, _⟩) (spare_of_top top) found present changes rfl
  | teardown top noMappings freed kept =>
    intro k used
    obtain ⟨wasUsed, notMine⟩ := (freed k).mp used
    have idle : s.spare = none := spare_of_top top
    obtain ⟨i, isOwner⟩ := (h k wasUsed).resolve_right (by simp [idle])
    have other : i.pd ≠ s.current := by
      intro mine
      exact notMine i.vaddr (mine ▸ isOwner)
    refine .inl ⟨i, ?_⟩
    rw [← isOwner]
    simp only [frameOf, pagedirGetPage, lookupPage, update_of_ne other]

end Frames

theorem framesExact_boot (poolSize swapSize : Nat) (files : File → FileData) :
    FramesExact (boot poolSize swapSize files) := by
  intro k used
  simp [boot, bitmapCreate, List.getElem?_replicate] at used

/-- The frame table, the present pages of live processes and the pages of the user pool that are in use correspond to
each other, whenever no process is in the kernel. -/
theorem frames_accounted {files : File → FileData} {s : State} (reached : Reachable onlyLegalFaults files s)
    (complete : s.tasks = []) :
    s.frameTable.Nodup ∧
    (∀ i : FrameElem, i ∈ s.frameTable ↔ i.pd ∈ s.processes ∧ (s.pagedirGetPage i.pd i.vaddr).isSome) ∧
    (∀ k, s.usedMap[k]? = some true ↔ ∃ i ∈ s.frameTable, s.pagedirGetPage i.pd i.vaddr = some k) ∧
    ∀ (i j : FrameElem) k, s.pagedirGetPage i.pd i.vaddr = some k → s.pagedirGetPage j.pd j.vaddr = some k → i = j := by
  obtain ⟨isolated, exact⟩ := reached.invariant (fun _ _ allowed => allowed.1) FramesExact
    (fun poolSize swapSize => framesExact_boot poolSize swapSize files)
    (fun isolated exact allowed _ moves => exact.moves isolated allowed.2 moves)
  have idle : s.spare = none := by simp [spare, complete]
  have live : ∀ {pd u k}, s.pagedirGetPage pd u = some k → pd ∈ s.processes := by
    intro pd u k got
    by_contra isDead
    exact absurd (got.symm.trans (isolated.getPage_none (isolated.dead pd u isDead))) (by simp)
  refine ⟨isolated.nodup, ?_, ?_, isolated.frames.apart⟩
  · intro i
    rw [isolated.framed i.pd i.vaddr, ← Option.isSome_iff_exists]
    constructor
    · intro present
      obtain ⟨k, got⟩ := Option.isSome_iff_exists.mp present
      exact ⟨live got, present⟩
    · exact And.right
  · intro k
    constructor
    · intro used
      obtain ⟨i, isOwner⟩ := (exact k used).resolve_right (by simp [idle])
      exact ⟨i, (isolated.framed i.pd i.vaddr).mpr ⟨k, isOwner⟩, isOwner⟩
    · intro owned
      obtain ⟨i, -, got⟩ := owned
      exact isolated.frames.marked i k got

/-- A process with one page of an executable and a page of stack, both present. -/
theorem frames_accounted_example : ∃ s, Reachable onlyLegalFaults (fun _ => ⟨4096, fun _ => 7⟩) s ∧ s.tasks = [] ∧
    s.frameTable = [⟨1, stackPage⟩, ⟨1, 8⟩] ∧
    ∀ k, s.usedMap[k]? = some true ↔ ∃ i ∈ s.frameTable, s.pagedirGetPage i.pd i.vaddr = some k := by
  obtain ⟨s, reaches, complete, frameTable⟩ :=
    exists_reached step onlyLegalFaults (boot 2 2 fun _ => ⟨4096, fun _ => 7⟩)
    (fun s => s.tasks = [] ∧ s.frameTable = [⟨1, stackPage⟩, ⟨1, 8⟩])
    ([.load 1 0 [⟨0, 8, 4096, 1, true⟩]] ++ goes 2 ++ [.access 1 (8 * 4096) none 0xbffffff0] ++ goes 2)
      (by decide +kernel)
  have reached : Reachable onlyLegalFaults (fun _ => ⟨4096, fun _ => 7⟩) s := ⟨2, 2, reaches⟩
  exact ⟨s, reached, complete, frameTable, (frames_accounted reached complete).2.2.1⟩

/-- A process reads from page zero and is killed: the page that `page_fault` took for it stays in use. -/
theorem fault_loses_page : ∃ s, Reachable memoryAvailable (fun _ => ⟨0, fun _ => 0⟩) s ∧ s.tasks = [] ∧
    s.processes = [] ∧ s.frameTable = [] ∧ s.usedMap = [false, true] := by
  obtain ⟨s, reaches, lost⟩ := exists_reached step memoryAvailable (boot 2 2 fun _ => ⟨0, fun _ => 0⟩)
    (fun s => s.tasks = [] ∧ s.processes = [] ∧ s.frameTable = [] ∧ s.usedMap = [false, true])
    ([.load 1 0 []] ++ goes 2 ++ [.access 1 0 none 0xbffffff0] ++ goes 3) (by decide +kernel)
  exact ⟨s, ⟨2, 2, reaches⟩, lost⟩

end Pintos.Vm
