import Pintos.Vm.Accounting
import Pintos.Vm.Loading

/-! # Swap slots

A slot is given back by the swap-in only.  It stays with its page as long as no entry of a page that is swapped out is
deleted, and no slot is reserved for a page that does not need it.
-/

namespace Pintos.Vm

open Kernel Library Function State

/-- The step in progress loses no slot: an eviction in `page_fault` takes a mapped page where no slot is left and
another one where there is one, an eviction in `setup_stack` has a slot, and the entries that `munmap_list` and
`process_kill` delete are not of pages that are swapped out. -/
def State.keepsSlots (s : State) : Bool :=
  match s.tasks with
  | .evict _ _ :: rest =>
    match victim { s with tasks := rest } with
    | some i => (s.pageLookup i.pd i.vaddr).any Page.mmaped != s.swapTable.contains false
    | none => true
  | .setupEvict _ :: _ => s.swapTable.contains false
  | .munmapDelete mi count :: _ => (s.slotOf ⟨s.current, mi.startVaddr + count⟩).isNone
  | .exit :: _ =>
    !(s.mmapList s.current).isEmpty || (s.supplementaryPageTable s.current).entries.all fun entry => !entry.2.swapOuted
  | _ => true

def slotsKept (label : Label) (s : State) : Prop :=
  memoryAvailable label s ∧ s.keepsSlots = true

instance : ∀ label s, Decidable (slotsKept label s) :=
  fun label s => inferInstanceAs (Decidable (memoryAvailable label s ∧ s.keepsSlots = true))

section Guards

variable {s : State} {rest : List Task} (keeps : s.keepsSlots = true)

include keeps

variable {victim : FrameElem} {page : Page} (isVictim : State.victim { s with tasks := rest } = some victim)
  (entry : s.pageLookup victim.pd victim.vaddr = some page)

include isVictim entry in
theorem keepsSlots_toSwap {task next : Task} (top : s.tasks = task :: rest) (evicts : Evicts page task next) :
    ∃ i : Nat, s.swapTable[i]? = some false := by
  apply List.getElem?_of_mem
  cases evicts with
  | fault a n notMapped => simpa [keepsSlots, top, isVictim, entry, notMapped] using keeps
  | setup file => simpa [keepsSlots, top] using keeps

include isVictim entry in
theorem keepsSlots_evict {a : Nat} {n : Bool} (top : s.tasks = .evict a n :: rest)
    (mapped : page.mmaped = true) (i : Nat) :
    s.swapTable[i]? ≠ some false := by
  simp only [State.keepsSlots, top, isVictim, entry, Option.any_some, mapped] at keeps
  intro clear
  have member := List.mem_of_getElem? clear
  simp [member] at keeps

theorem keepsSlots_exit (top : s.tasks = .exit :: rest) (noMappings : s.mmapList s.current = []) (u : Upage) :
    s.slotOf ⟨s.current, u⟩ = none := by
  simp only [keepsSlots, top, noMappings, List.isEmpty_nil, Bool.not_true, Bool.false_or, List.all_eq_true] at keeps
  cases found : s.pageLookup s.current u with
  | none => simp [slotOf, found]
  | some page =>
    have notOut := keeps ⟨u, page⟩ (AList.mem_lookup_iff.mp found)
    simp only [Bool.not_eq_true'] at notOut
    simp [slotOf, found, Page.slot, notOut]

end Guards

/-- Each slot in use has a page. -/
def SlotsExact (s : State) : Prop :=
  Exact s.slotOf s.swapTable none

section Slots

variable {s s' : State} {u : Upage} {pd : Pid} {page : Option Page} {index : Nat}

/-- A step that changes neither the swap table nor a page that is swapped out. -/
theorem SlotsExact.same (h : SlotsExact s) (kept : ∀ i slot, s.slotOf i = some slot → s'.slotOf i = some slot)
    (swapTable : s'.swapTable = s.swapTable) : SlotsExact s' := by
  intro slot isUsed
  rw [swapTable] at isUsed
  obtain ⟨i, isSlot⟩ := (h slot isUsed).resolve_right (by simp)
  exact .inl ⟨i, kept i slot isSlot⟩

/-- The entry of a page that is not swapped out is replaced or deleted. -/
theorem SlotsExact.replace (h : SlotsExact s) (wasIn : s.slotOf ⟨pd, u⟩ = none) (replaces : Replaces s s' pd u page)
    (swapTable : s'.swapTable = s.swapTable) : SlotsExact s' := by
  apply h.same _ swapTable
  intro i slot isSlot
  have other : i ≠ ⟨pd, u⟩ := by
    rintro rfl
    exact absurd (isSlot.symm.trans wasIn) (by simp)
  rwa [replaces.slotOf_ne i other]

end Slots

variable {s : State}

theorem Isolated.slotOf_none (h : Isolated s) {i : FrameElem} {k : Kpage} (present : s.frameOf i = some k) :
    s.slotOf i = none := by
  obtain ⟨page, found, notOut⟩ := h.resident i.pd i.vaddr k present
  simp [slotOf, found, Page.slot, notOut]

theorem SlotsExact.moves {s' : State} {label : Label} (isolated : Isolated s) (loading : Loading s) (h : SlotsExact s)
    (keeps : s.keepsSlots = true) (moves : Moves label s s') : SlotsExact s' := by
  have noSlot : ∀ {pd u}, s.pageLookup pd u = none → s.slotOf ⟨pd, u⟩ = none := by
    intro pd u absent
    simp [slotOf, absent]
  cases moves with
  | @load pid _ _ idle fresh added =>
    refine h.same ?_ (by rw [added.rest]; rfl)
    intro i slot isSlot
    have other : i.pd ≠ pid := by
      intro same
      exact absurd (isSlot.symm.trans (noSlot (isolated.dead i.pd i.vaddr (same ▸ fresh)))) (by simp)
    rwa [slotOf_congr (loaded_lookup_ne added other i.vaddr)]
  | mmap idle live mid whole inside absent added all isMmap =>
    refine h.same ?_ (by rw [added.rest]; rfl)
    intro i slot isSlot
    obtain ⟨old, -⟩ | ⟨isPid, page, ⟨count, isPage, small, -⟩, -⟩ := mapped_lookup added i.pd i.vaddr
    · rwa [slotOf_congr old]
    · have wasAbsent : s.pageLookup i.pd i.vaddr = none := by
        rw [isPid, isPage]
        exact absent count small
      exact absurd (isSlot.symm.trans (noSlot wasAbsent)) (by simp)
  | enter | read | store | silent | take | lose | putBack | lazyLoad | munmapEnd | munmapWrite =>
    exact h.same (fun _ _ isSlot => isSlot) rfl
  | toSwap top evicts isVictim perm entry found present changes slot =>
    cases slot with
    | slot clear =>
      exact (h.take _).give (isolated.slotOf_none (frameOf_of_found found present))
        ((Replaces.insert _ rfl).slotOf_here.trans rfl) (Replaces.insert _ rfl).slotOf_ne
    | full noSlot =>
      obtain ⟨i, clear⟩ := keepsSlots_toSwap keeps isVictim entry top evicts
      exact absurd clear (noSlot i)
  | toFile top mapped isVictim perm entry found present changes written reserved =>
    have full := keepsSlots_evict keeps isVictim entry top mapped
    obtain ⟨rfl, -⟩ | ⟨index, clear, -⟩ := reserved
    · exact h.same (fun _ _ isSlot => isSlot) rfl
    · exact absurd clear (full index)
  | grow top absent inside changes => exact h.replace (noSlot absent) (.insert _ rfl) rfl
  | swapIn top entry swapped isSlot absent changes =>
    refine h.giveUp ?_ (Replaces.insert _ rfl).slotOf_ne
    simp [slotOf, entry, Page.slot, swapped, isSlot]
  | setupInstall top absent changes => exact h.replace ((loading.fresh _ _ top rfl).2.2 _).2 (.insert _ rfl) rfl
  | munmapAbsent top | munmapPresent top =>
    simp only [keepsSlots, top] at keeps
    exact h.replace (Option.isNone_iff_eq_none.mp keeps) (.erase rfl) rfl
  | teardown top noMappings freed kept =>
    refine h.same ?_ rfl
    intro i slot isSlot
    have other : i.pd ≠ s.current := by
      intro mine
      have none := keepsSlots_exit keeps top noMappings i.vaddr
      rw [← mine] at none
      exact absurd (isSlot.symm.trans none) (by simp)
    rw [← isSlot]
    apply slotOf_congr
    simp only [pageLookup, update_of_ne other]

theorem slotsExact_boot (poolSize swapSize : Nat) (files : File → FileData) :
    SlotsExact (boot poolSize swapSize files) := by
  intro slot used
  simp [boot, bitmapCreate, List.getElem?_replicate] at used

/-- A slot is in use exactly if one page of a live process is in it. -/
theorem slots_owned {files : File → FileData} {s : State} (reached : Reachable slotsKept files s) (index : Nat) :
    s.swapTable[index]? = some true ↔ ∃! i : FrameElem, i.pd ∈ s.processes ∧
      ∃ page, s.pageLookup i.pd i.vaddr = some page ∧ page.swapOuted = true ∧ page.swapIndex = some index := by
  obtain ⟨isolated, loading, exact⟩ := reached.invariant (fun _ _ allowed => allowed.1)
    (fun s => Loading s ∧ SlotsExact s)
    (fun poolSize swapSize => ⟨loading_boot poolSize swapSize files, slotsExact_boot poolSize swapSize files⟩)
    (fun isolated before allowed _ moves =>
      ⟨before.1.moves moves, before.2.moves isolated before.1 allowed.2 moves⟩)
  have isSlot : ∀ i : FrameElem, s.slotOf i = some index ↔ i.pd ∈ s.processes ∧
      ∃ page, s.pageLookup i.pd i.vaddr = some page ∧ page.swapOuted = true ∧ page.swapIndex = some index := by
    intro i
    constructor
    · intro owns
      obtain ⟨page, found, isIndex⟩ := Option.bind_eq_some_iff.mp owns
      have swapped : page.swapOuted = true ∧ page.swapIndex = some index := by simpa [Page.slot] using isIndex
      refine ⟨?_, page, found, swapped⟩
      by_contra isDead
      exact absurd (found.symm.trans (isolated.dead _ _ isDead)) (by simp)
    · rintro ⟨-, page, found, swapped, isIndex⟩
      simp [slotOf, found, Page.slot, swapped, isIndex]
  constructor
  · intro used
    obtain ⟨i, owns⟩ := (exact index used).resolve_right (by simp)
    refine ⟨i, (isSlot i).mp owns, ?_⟩
    intro j other
    exact isolated.slots.apart j i index ((isSlot j).mpr other) owns
  · rintro ⟨i, owns, -⟩
    exact isolated.slots.marked i index ((isSlot i).mpr owns)

/-- A page of an executable is in the slot, and comes back from it. -/
theorem slots_owned_example : ∃ s, Reachable slotsKept (fun _ => ⟨8192, fun _ => 7⟩) s ∧ s.swapTable = [true, false] ∧
    ∃! i : FrameElem, i.pd ∈ s.processes ∧
      ∃ page, s.pageLookup i.pd i.vaddr = some page ∧ page.swapOuted = true ∧ page.swapIndex = some 0 := by
  obtain ⟨s, reaches, swapTable⟩ := exists_reached step slotsKept (boot 2 2 fun _ => ⟨8192, fun _ => 7⟩)
    (fun s => s.swapTable = [true, false])
    ([.load 1 0 [⟨0, 8, 8192, 2, true⟩]] ++ goes 2 ++ [.access 1 (8 * 4096) none 0xbffffff0] ++ goes 2 ++
      [.access 1 (9 * 4096) none 0xbffffff0] ++ goes 4 ++ [.access 1 (8 * 4096) none 0xbffffff0] ++ goes 4 ++
      [.access 1 (9 * 4096) none 0xbffffff0] ++ goes 4) (by decide +kernel)
  have reached : Reachable slotsKept (fun _ => ⟨8192, fun _ => 7⟩) s := ⟨2, 2, reaches⟩
  exact ⟨s, reached, swapTable, (slots_owned reached 0).mp (by rw [swapTable]; rfl)⟩

/-- A process exits while a page of it is swapped out: the slot stays in use. -/
theorem exit_loses_slot : ∃ s, Reachable memoryAvailable (fun _ => ⟨8192, fun _ => 7⟩) s ∧ s.tasks = [] ∧
    s.processes = [] ∧ s.swapTable = [true, false] := by
  obtain ⟨s, reaches, lost⟩ := exists_reached step memoryAvailable (boot 2 2 fun _ => ⟨8192, fun _ => 7⟩)
    (fun s => s.tasks = [] ∧ s.processes = [] ∧ s.swapTable = [true, false])
    ([.load 1 0 [⟨0, 8, 8192, 2, true⟩]] ++ goes 2 ++ [.access 1 (8 * 4096) none 0xbffffff0] ++ goes 2 ++
      [.access 1 (9 * 4096) none 0xbffffff0] ++ goes 4 ++ [.exit 1] ++ goes 1) (by decide +kernel)
  exact ⟨s, ⟨2, 2, reaches⟩, lost⟩

end Pintos.Vm
