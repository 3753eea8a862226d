import Pintos.Vm.Isolation

/-! # Protected stack pages

`frame_table_find_victim` passes over pages whose entries have the stack bit.  Whether allocations succeed or not, a
process has at most one such entry, that of the page its stack pointer is in.
-/

namespace Pintos.Vm

open Library Function Option State

/-- A step of the system, or a call of `set_new_dirty_page`, which system calls and `setup_stack` make too. -/
inductive StackLabel
  | step (label : Label)
  | setNewDirtyPage (pid : Pid) (newEsp : Nat)

def stackStep (label : StackLabel) (s : State) : Option State :=
  match label with
  | .step label => step label s
  | .setNewDirtyPage pid newEsp => some (s.setNewDirtyPage newEsp pid)

/-- Only the entry of `pg_round_down (user_esp)` can have the stack bit. -/
def StackFollows (s : State) : Prop :=
  ∀ pid u, s.pagedirIsStack pid u = true → u = s.userEsp pid / pgSize

namespace StackFollows

variable {s s' : State} {pid : Pid} {u : Upage} {k : Kpage}

theorem of_freePage (freed : s.pallocFreePage k = some s') (h : StackFollows s) : StackFollows s' := by
  obtain ⟨-, rfl⟩ := pallocFreePage_some freed
  exact h

theorem of_foldlM {items : List FrameElem} {change : State → FrameElem → Option State}
    (folded : items.foldlM change s = some s') (h : StackFollows s)
    (keeps : ∀ t i t', StackFollows t → change t i = some t' → StackFollows t') : StackFollows s' := by
  induction items generalizing s with
  | nil => cases folded; exact h
  | cons i rest ih =>
    rw [List.foldlM_cons] at folded
    obtain ⟨t, changed, folded⟩ := bind_eq_some_iff.mp folded
    exact ih folded (keeps s i t h changed)

section Operations

variable (h : StackFollows s)

include h

theorem updatePte {change : Pte → Pte} (keeps : ∀ pte, (change pte).stack = pte.stack := by exact fun _ => rfl) :
    StackFollows (s.updatePte pid u change) := by
  intro pid' u' stack
  rw [isStack_updatePte change keeps] at stack
  exact h pid' u' stack

theorem setPage {writable : Bool} : StackFollows (s.pagedirSetPage pid u k writable) := by
  intro pid' u' stack
  apply h pid' u'
  simp only [pagedirIsStack, lookupPage, pagedirSetPage, update_apply] at stack ⊢
  split at stack
  next same =>
    subst same
    by_cases here : u' = u
    · rw [here, AList.lookup_insert] at stack
      cases stack
    · rwa [AList.lookup_insert_ne here] at stack
  next => exact stack

/-- A process starts, or it ends. -/
theorem clearDirectory (cleared : s'.pagedir pid = ∅)
    (others : ∀ q ≠ pid, s'.pagedir q = s.pagedir q ∧ s'.userEsp q = s.userEsp q) : StackFollows s' := by
  intro q u stack
  by_cases same : q = pid
  · rw [pagedirIsStack, lookupPage, same, cleared] at stack
    cases stack
  · rw [pagedirIsStack, lookupPage, (others q same).1] at stack
    exact (others q same).2 ▸ h q u stack

theorem setNewDirtyPage (newEsp : Nat) : StackFollows (s.setNewDirtyPage newEsp pid) := by
  unfold State.setNewDirtyPage
  split
  swap
  · exact h
  intro pid' u stack
  show u = update s.userEsp pid newEsp pid' / pgSize
  rw [pagedirIsStack, pagedirSetStack, lookupPage_updatePte] at stack
  split at stack
  next here => rw [here.1, here.2, update_self]
  next =>
    -- not the new page: the bit is that of the old one, which has been cleared, or of another process
    replace stack : (s.pagedirSetStack pid (s.userEsp pid / pgSize) false).pagedirIsStack pid' u = true := stack
    rw [pagedirIsStack, pagedirSetStack, lookupPage_updatePte] at stack
    split at stack
    next => cases found : s.lookupPage pid (s.userEsp pid / pgSize) <;> simp [found] at stack
    next elsewhere =>
      have follows := h pid' u stack
      rwa [update_of_ne fun same => elsewhere ⟨same, same ▸ follows⟩]

theorem findVictim {victim : FrameElem}
    (found : s.swapTableScanAndFlip.2.frameTableFindVictim = some (victim, s')) : StackFollows s' := by
  obtain ⟨pagedir, frameTable, rfl, -, -, same⟩ := frameTableFindVictim_some found
  have scanned : StackFollows s.swapTableScanAndFlip.2 := by
    unfold swapTableScanAndFlip
    split <;> exact h
  intro pid u stack
  rw [same] at stack
  exact scanned pid u stack

theorem evict (evicted : s.evict = some s') : StackFollows s' := by
  simp only [State.evict, State.evictPage, State.pageSwapOutIndex, bind_eq_bind, bind_eq_some_iff] at evicted
  obtain ⟨⟨victim, t⟩, found, page, -, k, -, evicted⟩ := evicted
  have cleared : StackFollows ((t.pagedirSetAccessed victim.pd victim.vaddr true).pagedirClearPage victim.pd
    victim.vaddr) := (h.findVictim found).updatePte.updatePte
  split_ifs at evicted
  · obtain ⟨file, -, evicted⟩ := bind_eq_some_iff.mp evicted
    split_ifs at evicted
    exact of_freePage evicted cleared.updatePte
  · exact of_freePage evicted cleared
  · simp only [bind_eq_some_iff, map_eq_some_iff] at evicted
    obtain ⟨t, ⟨page', -, rfl⟩, evicted⟩ := evicted
    exact of_freePage evicted cleared

theorem setupEvict (evicted : s.setupEvict = some s') : StackFollows s' := by
  simp only [State.setupEvict, State.setupEvictPage, State.pageSwapOutIndex, bind_eq_bind,
    bind_eq_some_iff, map_eq_some_iff] at evicted
  obtain ⟨⟨victim, t⟩, found, k, -, t, ⟨page, -, rfl⟩, evicted⟩ := evicted
  exact of_freePage evicted (h.findVictim found).updatePte.updatePte

theorem resolve {faultAddr : Nat} {notPresent : Bool} {memory : Memory}
    (resolved : s.resolve faultAddr notPresent k memory = some s') : StackFollows s' := by
  simp only [State.resolve, State.growStack, State.swapIn, State.lazyLoad, State.pageSwapOutIndex,
    bind_eq_bind] at resolved
  split at resolved
  next =>
    split_ifs at resolved
    · cases resolved
      exact h.setPage
    · exact of_freePage resolved h.updatePte
    all_goals cases resolved; exact h
  next =>
    split_ifs at resolved
    · obtain ⟨t, found, resolved⟩ := bind_eq_some_iff.mp resolved
      obtain ⟨page, -, rfl⟩ := map_eq_some_iff.mp found
      obtain ⟨index, -, resolved⟩ := bind_eq_some_iff.mp resolved
      cases resolved
      exact h.setPage
    · exact of_freePage resolved h.updatePte
    · obtain ⟨file, -, resolved⟩ := bind_eq_some_iff.mp resolved
      split_ifs at resolved
      · obtain ⟨t, freed, rfl⟩ := map_eq_some_iff.mp resolved
        exact (of_freePage freed h :)
      · cases resolved
        exact h.setPage
      · exact of_freePage resolved h.updatePte
    · cases resolved
      exact h

theorem munmapDelete {mi : MmapElem} {count : Nat} (deleted : s.munmapDelete mi count = some s') :
    StackFollows s' := by
  obtain ⟨t, removed, rfl⟩ := map_eq_some_iff.mp deleted
  simp only [frameElemDelete] at removed
  suffices follows : StackFollows t from follows
  refine of_foldlM removed h fun between i after follows freed => ?_
  obtain ⟨t, given, rfl⟩ := map_eq_some_iff.mp freed
  refine updatePte ?_
  unfold pallocFreePointer at given
  split at given
  next => exact of_freePage given follows
  next => cases given; exact follows

theorem run {task : Task} {memory : Memory} (ran : s.run task memory = some s') : StackFollows s' := by
  cases task with simp only [State.run] at ran
  | fault | evicted | setup | setupEvicted =>
    split at ran
    next got =>
      obtain ⟨-, rfl⟩ := pallocGetPage_some got
      cases ran
      exact h
    next => cases ran; exact h
  | evict =>
    obtain ⟨t, evicted, rfl⟩ := map_eq_some_iff.mp ran
    exact (h.evict evicted :)
  | resolve => exact h.resolve ran
  | setupEvict =>
    obtain ⟨t, evicted, rfl⟩ := map_eq_some_iff.mp ran
    exact (h.setupEvict evicted :)
  | setupInstall =>
    simp only [setupInstall] at ran
    split_ifs at ran
    · cases ran
      show StackFollows (State.setNewDirtyPage _ _ _)
      apply setNewDirtyPage
      exact h.setPage.updatePte
    · obtain ⟨t, freed, rfl⟩ := map_eq_some_iff.mp ran
      exact (of_freePage freed h :)
  | munmap => split_ifs at ran <;> cases ran <;> exact h
  | munmapWrite =>
    split at ran
    next => cases ran; exact h.updatePte
    next => cases ran; exact h
  | munmapDelete =>
    obtain ⟨t, deleted, rfl⟩ := map_eq_some_iff.mp ran
    exact (h.munmapDelete deleted :)
  | exit =>
    split at ran
    next => cases ran; exact h
    next =>
      obtain ⟨t, destroyed, rfl⟩ := map_eq_some_iff.mp ran
      obtain ⟨usedMap, memory, rfl, -, -⟩ := pagedirDestroy_some destroyed
      exact h.clearDirectory (update_self ..) fun q other => ⟨update_of_ne other .., rfl⟩

theorem access {addr esp : Nat} {write : Option UInt8} : StackFollows (s.access pid addr write esp) := by
  have faults : StackFollows (s.setNewDirtyPage esp pid) := h.setNewDirtyPage esp
  simp only [State.access]
  split
  next =>
    split
    next => exact h.updatePte
    next =>
      split
      next => exact h.updatePte.updatePte
      next => exact faults
  next => exact faults

theorem enter {label : Label} (entered : enter label s = some s') : StackFollows s' := by
  cases label with simp only [Vm.enter] at entered
  | load pid file segments =>
    split_ifs at entered with inside
    cases entered
    have created : StackFollows (s.newProcess pid file) :=
      h.clearDirectory (update_self ..) fun q other => ⟨update_of_ne other .., update_of_ne other ..⟩
    rw [(load_added file inside.2).rest]
    exact created
  | access pid addr write esp =>
    split_ifs at entered
    cases entered
    exact h.access
  | syscall pid esp =>
    split_ifs at entered
    cases entered
    exact h.setNewDirtyPage esp
  | mmap pid file buffer =>
    simp only [mmap] at entered
    split_ifs at entered <;> cases entered <;> try exact h
    rw [(mmapPages_added _ _ _ _ _ (by omega)).rest]
    exact h
  | munmap pid mid =>
    split_ifs at entered
    split at entered <;> cases entered <;> exact h
  | exit pid =>
    split_ifs at entered
    cases entered
    exact h
  | go memory => cases entered

theorem step {label : Label} (stepped : step label s = some s') : StackFollows s' := by
  unfold Vm.step at stepped
  split at stepped
  next =>
    refine run ?_ stepped
    exact h
  next => exact h.enter stepped
  next => cases stepped

end Operations

end StackFollows

/-- The only page of a process that is exempt from eviction is the one that its stack pointer is in. -/
theorem pagedirIsStack_userEsp {poolSize swapSize : Nat} {files : File → FileData} {s : State} {pid : Pid} {u : Upage}
    (reached : Reaches stackStep (fun _ _ => True) (boot poolSize swapSize files) s)
    (stack : s.pagedirIsStack pid u = true) : u = s.userEsp pid / pgSize := by
  have follows : StackFollows s := by
    refine reached.invariant StackFollows ?_ ?_
    · rintro _ _ ⟨⟩
    · intro label _ _ follows _ taken
      cases label with
      | step label => exact follows.step taken
      | setNewDirtyPage pid newEsp =>
        cases taken
        exact follows.setNewDirtyPage newEsp
  exact follows pid u stack

/-- The stack pointer moves to the page below, and the page that it was in loses its bit. -/
theorem pagedirIsStack_userEsp_example : ∃ s : State, (s.lookupPage 1 stackPage).isSome = true ∧
    s.pagedirIsStack 1 (stackPage - 1) = true ∧ stackPage - 1 = s.userEsp 1 / pgSize := by
  obtain ⟨s, reached, older, stack⟩ := exists_reached stackStep (fun _ _ => True) (boot 2 2 fun _ => ⟨0, fun _ => 0⟩)
    (fun s => (s.lookupPage 1 stackPage).isSome = true ∧ s.pagedirIsStack 1 (stackPage - 1) = true)
    ([.step (.load 1 0 [])] ++ (goes 2).map .step ++ [.setNewDirtyPage 1 0xbffffff0,
      .step (.access 1 0xbfffeff0 none 0xbfffeff0)] ++ (goes 2).map .step ++ [.setNewDirtyPage 1 0xbfffefe0])
    (by decide +kernel)
  exact ⟨s, older, stack, pagedirIsStack_userEsp reached stack⟩

end Pintos.Vm
