import Pintos.Vm.Isolation

/-! # Where the bytes of a page are

A user page is in memory, in a slot of the swap disk, or still in its file.  `State.view` is what its process finds in
it, wherever it is.  A step either keeps the views of all pages that were there before (`Quiet`), or it is a store
(`Stores`), or it writes a mapped page back to its file (`WritesBack`).
-/

namespace Pintos.Vm

open Kernel Function Option State

/-- Two images of a page are the same, as far as the page goes. -/
structure Image.Agrees (a b : Image) : Prop where
  bytes : ∀ j < pgSize, a.bytes j = b.bytes j
  writable : a.writable = b.writable

theorem Image.Agrees.refl (a : Image) : a.Agrees a :=
  ⟨fun _ _ => rfl, rfl⟩

theorem Image.Agrees.trans {a b c : Image} (first : a.Agrees b) (second : b.Agrees c) : a.Agrees c :=
  ⟨fun j inside => (first.bytes j inside).trans (second.bytes j inside), first.writable.trans second.writable⟩

/-- The part of an entry that no eviction changes. -/
def Page.source (page : Page) : Page :=
  { page with swapOuted := false, swapIndex := some 0 }

variable {page page' : Page}

theorem Page.writable_of_source (same : page'.source = page.source) : page'.writable = page.writable := by
  have writable : page'.source.writable = page.source.writable := by rw [same]
  exact writable

theorem Page.mmaped_of_source (same : page'.source = page.source) : page'.mmaped = page.mmaped := by
  have mmaped : page'.source.mmaped = page.source.mmaped := by rw [same]
  exact mmaped

namespace State

/-- A page that is not in memory. -/
def away (s : State) (page : Page) : Image :=
  ⟨if page.swapOuted then page.swapIndex.elim (fun _ => 0) (slotBytes s.swapDisk) else s.initialBytes page,
    page.writable⟩

/-- What the process finds in a page, or would find after a page fault. -/
def view (s : State) (i : FrameElem) (page : Page) : Image :=
  match (core s.pagedir i.pd i.vaddr).filter Pte.present with
  | some pte => ⟨s.memory pte.kpage, pte.writable⟩
  | none => s.away page

end State

/-- An eviction that moves a page to the swap disk finds a slot for it. -/
def State.slotAvailable (s : State) : Bool :=
  match s.tasks with
  | .evict _ _ :: rest =>
    match victim { s with tasks := rest } with
    | some i => (s.pageLookup i.pd i.vaddr).any Page.mmaped || s.swapTable.contains false
    | none => true
  | .setupEvict _ :: _ => s.swapTable.contains false
  | _ => true

theorem not_slotAvailable {s : State} {task next : Task} {rest : List Task} {victim : FrameElem}
    (top : s.tasks = task :: rest) (evicts : Evicts page task next)
    (isVictim : State.victim { s with tasks := rest } = some victim)
    (entry : s.pageLookup victim.pd victim.vaddr = some page) (noSlot : ∀ i : Nat, s.swapTable[i]? ≠ some false) :
    ¬ s.slotAvailable = true := by
  have full : false ∉ s.swapTable := by
    intro member
    obtain ⟨i, isBit⟩ := List.getElem?_of_mem member
    exact noSlot i isBit
  cases evicts with
  | fault a n notMapped => simp [slotAvailable, top, isVictim, entry, notMapped, full]
  | setup file => simp [slotAvailable, top, full]

section Views

variable {s s' : State} {i : FrameElem} {page : Page} {pte : Pte}

theorem view_present (found : core s.pagedir i.pd i.vaddr = some pte) (present : pte.present = true) :
    s.view i page = ⟨s.memory pte.kpage, pte.writable⟩ := by
  simp [view, found, Option.filter, present]

theorem view_absent (absent : s.frameOf i = none) : s.view i page = s.away page := by
  simp only [frameOf, pagedirGetPage_eq, bind_eq_none_iff] at absent
  cases found : core s.pagedir i.pd i.vaddr with
  | none => simp [view, found]
  | some pte =>
    have notPresent := absent pte found
    simp only [ite_eq_right_iff, reduceCtorEq, imp_false, Bool.not_eq_true] at notPresent
    simp [view, found, Option.filter, notPresent]

theorem frameOf_eq_none_or (s : State) (i : FrameElem) : s.frameOf i = none ∨
    ∃ pte, core s.pagedir i.pd i.vaddr = some pte ∧ pte.present = true ∧ s.frameOf i = some pte.kpage := by
  cases got : s.frameOf i with
  | none => exact .inl rfl
  | some k =>
    obtain ⟨pte, found, present, rfl⟩ := pagedirGetPage_some got
    exact .inr ⟨pte, found, present, rfl⟩

variable (entry : s.pageLookup i.pd i.vaddr = some page)
  (same : core s'.pagedir i.pd i.vaddr = core s.pagedir i.pd i.vaddr)
  (memory : ∀ k, s.frameOf i = some k → s'.memory k = s.memory k)
  (disk : ∀ slot, s.slotOf i = some slot → ∀ j < pgSize, slotBytes s'.swapDisk slot j = slotBytes s.swapDisk slot j)

include entry same memory disk

/-- A step elsewhere, at one byte. -/
theorem view_bytes {n : Nat} (inside : n < pgSize)
    (files : s.frameOf i = none → page.swapOuted = false → s'.initialBytes page n = s.initialBytes page n) :
    (s'.view i page).bytes n = (s.view i page).bytes n := by
  obtain absent | ⟨pte, found, present, isFrame⟩ := frameOf_eq_none_or s i
  · have absent' : s'.frameOf i = none := by
      rw [← absent, frameOf, frameOf, pagedirGetPage_eq, pagedirGetPage_eq, same]
    rw [view_absent absent, view_absent absent', away, away]
    cases swapped : page.swapOuted with
    | true =>
      cases isIndex : page.swapIndex with
      | none => rfl
      | some index =>
        have isSlot : s.slotOf i = some index := by simp [slotOf, entry, Page.slot, swapped, isIndex]
        exact disk index isSlot n inside
    | false => exact files absent swapped
  · rw [view_present found present, view_present (same.trans found) present, memory _ isFrame]

/-- A step elsewhere. -/
theorem view_agrees (files : ∀ file, page.f = some file → s'.files file = s.files file) :
    (s'.view i page).Agrees (s.view i page) := by
  constructor
  · intro n inside
    apply view_bytes entry same memory disk inside
    intro _ _
    simp only [initialBytes]
    cases isFile : page.f with
    | none => rfl
    | some file => simp only [files file isFile]
  · rw [view, view, same]
    cases (core s.pagedir i.pd i.vaddr).filter Pte.present <;> rfl

end Views

/-! ## The effect of a step -/

/-- The page is the same, and holds the same.  Where it leaves memory, its writability is the one of its entry. -/
structure Keeps (s s' : State) (i : FrameElem) : Prop where
  image : s'.image i.pd i.vaddr = s.image i.pd i.vaddr
  entry : ∀ page', s'.pageLookup i.pd i.vaddr = some page' → ∃ page, s.pageLookup i.pd i.vaddr = some page ∧
    page'.source = page.source ∧
    ((s'.view i page').Agrees (s.view i page) ∨ (s'.view i page').Agrees ⟨(s.view i page).bytes, page.writable⟩)

/-- The page is a new one.  Mappings are made only where there is no page. -/
def Creates (s s' : State) (i : FrameElem) : Prop :=
  ∀ page', s'.pageLookup i.pd i.vaddr = some page' → (page'.mmaped = true → s.pageLookup i.pd i.vaddr = none) ∧
    s'.image i.pd i.vaddr = ⟨s'.initialBytes page', page'.writable⟩ ∧
    (s'.view i page').Agrees ⟨s'.initialBytes page', page'.writable⟩

structure Quiet (s s' : State) : Prop where
  files : s'.files = s.files
  pages : ∀ i, Keeps s s' i ∨ Creates s s' i

/-- A byte is stored to a present page. -/
structure Stores (s s' : State) (i : FrameElem) (ofs : Nat) (byte : UInt8) : Prop where
  inside : ofs < pgSize
  tables : s'.supplementaryPageTable = s.supplementaryPageTable
  files : s'.files = s.files
  image : s'.image i.pd i.vaddr = ⟨update (s.image i.pd i.vaddr).bytes ofs byte, (s.image i.pd i.vaddr).writable⟩
  images : ∀ j, j ≠ i → s'.image j.pd j.vaddr = s.image j.pd j.vaddr
  view : ∀ page, s'.view i page = ⟨update (s.view i page).bytes ofs byte, (s.view i page).writable⟩
  views : ∀ j, j ≠ i → ∀ page, s.pageLookup j.pd j.vaddr = some page → (s'.view j page).Agrees (s.view j page)

/-- Bytes of a mapped page go to its file, unless the file is a running executable. -/
structure WritesBack (s s' : State) : Prop where
  busy : ∃ task rest, s.tasks = task :: rest ∧ ((∃ a n, task = .evict a n) ∨ ∃ mi count, task = .munmapWrite mi count)
  tables : s'.supplementaryPageTable = s.supplementaryPageTable
  image : s'.image = s.image
  denied : ∀ file, s.denied file = true → s'.files file = s.files file
  pages : ∀ i page, s.pageLookup i.pd i.vaddr = some page → page.mmaped = false →
    (∀ file, page.f = some file → s'.files file = s.files file) → (s'.view i page).Agrees (s.view i page)

/-! ## Every step has one of these effects -/

section Effects

variable {s s' : State} {i : FrameElem}

/-- Nothing happens to the page. -/
theorem Keeps.of_same (cores : core s'.pagedir i.pd i.vaddr = core s.pagedir i.pd i.vaddr)
    (same : s'.pageLookup i.pd i.vaddr = s.pageLookup i.pd i.vaddr)
    (image : s'.image i.pd i.vaddr = s.image i.pd i.vaddr)
    (memory : ∀ k, s.frameOf i = some k → s'.memory k = s.memory k)
    (disk : ∀ slot, s.slotOf i = some slot → ∀ j < pgSize, slotBytes s'.swapDisk slot j = slotBytes s.swapDisk slot j)
    (files : s'.files = s.files) : Keeps s s' i := by
  refine ⟨image, ?_⟩
  intro page found
  rw [same] at found
  exact ⟨page, found, rfl, .inl (view_agrees found cores memory disk fun _ _ => by rw [files])⟩

/-- A step that changes one page. -/
theorem Quiet.at (i : FrameElem) (here : Keeps s s' i ∨ Creates s s' i)
    (cores : ∀ j, j ≠ i → core s'.pagedir j.pd j.vaddr = core s.pagedir j.pd j.vaddr)
    (entries : ∀ j, j ≠ i → s'.pageLookup j.pd j.vaddr = s.pageLookup j.pd j.vaddr)
    (images : ∀ j, j ≠ i → s'.image j.pd j.vaddr = s.image j.pd j.vaddr)
    (memory : ∀ j, j ≠ i → ∀ k, s.frameOf j = some k → s'.memory k = s.memory k)
    (disk : ∀ j, j ≠ i → ∀ slot, s.slotOf j = some slot → ∀ n < pgSize,
      slotBytes s'.swapDisk slot n = slotBytes s.swapDisk slot n)
    (files : s'.files = s.files) : Quiet s s' := by
  refine ⟨files, ?_⟩
  intro j
  by_cases same : j = i
  · rw [same]
    exact here
  · exact .inl (.of_same (cores j same) (entries j same) (images j same) (memory j same) (disk j same) files)

/-- A step that changes no page. -/
theorem Quiet.nowhere (cores : core s'.pagedir = core s.pagedir := by rfl)
    (memory : ∀ i k, s.frameOf i = some k → s'.memory k = s.memory k := by intros; rfl)
    (tables : s'.supplementaryPageTable = s.supplementaryPageTable := by rfl) (image : s'.image = s.image := by rfl)
    (disk : s'.swapDisk = s.swapDisk := by rfl) (files : s'.files = s.files := by rfl) : Quiet s s' := by
  refine ⟨files, fun i => .inl (.of_same (by rw [cores]) ?_ (by rw [image]) (memory i) ?_ files)⟩
  · rw [pageLookup_congr tables]
  · intro _ _ _ _
    rw [disk]

variable {u : Upage} {pd : Pid}

theorem Quiet.erase (replaces : Replaces s s' pd u none) (pagedir : s'.pagedir = s.pagedir := by rfl)
    (image : s'.image = s.image := by rfl) (memory : s'.memory = s.memory := by rfl)
    (disk : s'.swapDisk = s.swapDisk := by rfl) (files : s'.files = s.files := by rfl) : Quiet s s' := by
  refine Quiet.at ⟨pd, u⟩ (.inl ⟨by rw [image], ?_⟩) (fun _ _ => by rw [pagedir]) replaces.elsewhere
    (fun _ _ => by rw [image]) (fun _ _ _ _ => by rw [memory]) (fun _ _ _ _ _ _ => by rw [disk]) files
  intro page' found
  exact absurd (found.symm.trans replaces.here) (by simp)

theorem image_of_other (other : i ≠ ⟨pd, u⟩) (image : Image) :
    update s.image pd (update (s.image pd) u image) i.pd i.vaddr = s.image i.pd i.vaddr := by
  by_cases same : i.pd = pd
  · have otherPage : i.vaddr ≠ u := by
      rintro rfl
      exact other (by rw [← same])
    simp only [same, update_self, update_of_ne otherPage]
  · simp only [update_of_ne same]

variable {k : Kpage}

/-- Memory changes where no user page is. -/
theorem memory_of_unowned (nobody : ∀ i, s.frameOf i ≠ some k) (bytes : Bytes) (i : FrameElem) (k' : Kpage)
    (had : s.frameOf i = some k') : update s.memory k bytes k' = s.memory k' := by
  apply update_of_ne
  rintro rfl
  exact nobody i had

variable (h : Isolated s) {pte pte' : Pte} {index : Nat}

include h

/-- Memory changes where one user page is. -/
theorem Isolated.memory_elsewhere (had : s.frameOf i = some k) (bytes : Bytes) (j : FrameElem) (other : j ≠ i)
    (k' : Kpage) (had' : s.frameOf j = some k') : update s.memory k bytes k' = s.memory k' := by
  apply update_of_ne
  rintro rfl
  exact other (h.frames.apart j i _ had' had)

/-- A page of the stack is made, in the page that the process has taken. -/
theorem Isolated.quiet_create (held : s.spare = some k) (changes : Changes s.pagedir s'.pagedir s.current u pte)
    (present : pte.present = true := by rfl) (isPage : pte.kpage = k := by rfl)
    (writable : pte.writable = true := by rfl)
    (tables : s'.supplementaryPageTable = (s.addPage s.current u zeroPage).supplementaryPageTable := by rfl)
    (image : s'.image = (s.addPage s.current u zeroPage).image := by rfl) (memory : s'.memory = s.memory := by rfl)
    (disk : s'.swapDisk = s.swapDisk := by rfl) (files : s'.files = s.files := by rfl) : Quiet s s' := by
  have replaces : Replaces s s' s.current u (some zeroPage) := .insert _ tables
  refine Quiet.at ⟨s.current, u⟩ (.inr ?_) changes.core_ne replaces.elsewhere
    (fun _ other => by rw [image]; exact image_of_other other _) (fun _ _ _ _ => by rw [memory])
    (fun _ _ _ _ _ _ => by rw [disk]) files
  intro page' found
  obtain rfl : zeroPage = page' := some.inj (replaces.here.symm.trans found)
  have zero := (h.spare k held).2.2
  refine ⟨by simp [zeroPage], ?_, ?_⟩
  · rw [image, addPage]
    simp only [update_self]
    rfl
  · rw [view_present changes.here present, writable, isPage, memory]
    exact ⟨fun j _ => zero j, rfl⟩

/-- A page comes back from its file or from its slot, to the page that the process has taken. -/
theorem Isolated.quiet_comeBack {bytes : Bytes} (held : s.spare = some k) (entry : s.pageLookup s.current u = some page)
    (absent : s.pagedirGetPage s.current u = none)
    (changes : Changes s.pagedir s'.pagedir s.current u (.fresh k page.writable))
    (replaces : Replaces s s' s.current u (some page')) (memory : s'.memory = update s.memory k bytes)
    (isPage : ∀ j < pgSize, bytes j = (s.away page).bytes j) (source : page'.source = page.source := by rfl)
    (image : s'.image = s.image := by rfl) (disk : s'.swapDisk = s.swapDisk := by rfl)
    (files : s'.files = s.files := by rfl) : Quiet s s' := by
  have nobody := (h.spare k held).2.1
  have wasAway : s.frameOf ⟨s.current, u⟩ = none := absent
  refine Quiet.at ⟨s.current, u⟩ (.inl ⟨by rw [image], ?_⟩) changes.core_ne replaces.elsewhere
    (fun _ _ => by rw [image]) ?_
    (fun _ _ _ _ _ _ => by rw [disk]) files
  · intro page'' found
    obtain rfl : page' = page'' := some.inj (replaces.here.symm.trans found)
    refine ⟨page, entry, source, .inl ?_⟩
    rw [view_present changes.here rfl, view_absent wasAway, memory]
    refine ⟨?_, rfl⟩
    intro j inside
    exact (congrFun (update_self ..) j).trans (isPage j inside)
  · intro j _ k' had
    rw [memory]
    exact memory_of_unowned nobody bytes j k' had

/-- A page leaves memory, with its entry or for a slot. -/
theorem Isolated.quiet_leave {page' : Option Page}
    (found : core s.pagedir i.pd i.vaddr = some pte) (present : pte.present = true)
    (changes : Changes s.pagedir s'.pagedir i.pd i.vaddr pte') (isOut : pte'.present = false)
    (replaces : Replaces s s' i.pd i.vaddr page')
    (isPage : ∀ page'', page' = some page'' → ∃ page, s.pageLookup i.pd i.vaddr = some page ∧
      page''.source = page.source ∧ ∀ j < pgSize, (s'.away page'').bytes j = s.memory pte.kpage j)
    (disk : ∀ j slot, s.slotOf j = some slot → ∀ n < pgSize, slotBytes s'.swapDisk slot n = slotBytes s.swapDisk slot n)
    (memory : s'.memory = update s.memory pte.kpage fun _ => 0xcc := by rfl) (image : s'.image = s.image := by rfl)
    (files : s'.files = s.files := by rfl) : Quiet s s' := by
  have had : s.frameOf i = some pte.kpage := frameOf_of_found found present
  have gone : s'.frameOf i = none := by
    have here := changes.frameOf_here
    rwa [if_neg (by simp [isOut])] at here
  refine Quiet.at i (.inl ⟨by rw [image], ?_⟩) changes.core_ne replaces.elsewhere (fun _ _ => by rw [image]) ?_
    (fun j _ => disk j) files
  · intro page'' isEntry
    obtain ⟨page, entry, source, bytes⟩ := isPage page'' (replaces.here.symm.trans isEntry)
    refine ⟨page, entry, source, .inr ?_⟩
    rw [view_absent gone, view_present found present]
    exact ⟨bytes, Page.writable_of_source source⟩
  · intro j other k' had'
    rw [memory]
    exact h.memory_elsewhere had _ j other k' had'

/-- A page goes to a slot. -/
theorem Isolated.quiet_toSwap
    (entry : s.pageLookup i.pd i.vaddr = some page) (found : core s.pagedir i.pd i.vaddr = some pte)
    (present : pte.present = true)
    (changes : Changes s.pagedir s'.pagedir i.pd i.vaddr { pte with present := false })
    (clear : s.swapTable[index]? = some false)
    (tables : s'.supplementaryPageTable =
      (s.replacePage i.pd i.vaddr { page with swapOuted := true, swapIndex := some index }).supplementaryPageTable := by
        rfl)
    (disk : s'.swapDisk = (s.swapWrite index (s.memory pte.kpage)).swapDisk := by rfl)
    (memory : s'.memory = update s.memory pte.kpage fun _ => 0xcc := by rfl) (image : s'.image = s.image := by rfl)
    (files : s'.files = s.files := by rfl) : Quiet s s' := by
  refine h.quiet_leave found present changes rfl (.insert _ tables) ?_ ?_ memory image files
  · intro page'' isPage
    cases isPage
    refine ⟨page, entry, rfl, ?_⟩
    intro j inside
    simp only [away, if_true, disk]
    exact slotBytes_swapWrite_self _ _ inside
  · intro j slot isSlot n inside
    rw [disk, slotBytes_swapWrite_ne _ _ inside]
    rintro rfl
    exact h.slots.unmarked clear j isSlot

variable {pid : Pid} {rest : List Task} {label : Label} {file : File}

theorem Isolated.stores {ofs : Nat} {byte : UInt8} {pagedir : Pid → Pagedir}
    (found : core s.pagedir pid u = some pte) (present : pte.present = true) (inside : ofs < pgSize)
    (changes : Changes s.pagedir pagedir pid u { pte with dirty := true }) :
    Stores s ({ s with pagedir := pagedir }.store pid u pte.kpage ofs byte) ⟨pid, u⟩ ofs byte where
  inside := inside
  tables := rfl
  files := rfl
  image := by simp [State.store]
  images _ other := image_of_other other _
  view page := by
    have found' : core ({ s with pagedir := pagedir }.store pid u pte.kpage ofs byte).pagedir pid u =
      some { pte with dirty := true } := changes.here
    rw [view_present (i := ⟨pid, u⟩) found' present, view_present (i := ⟨pid, u⟩) found present]
    simp [State.store]
  views j other page entry := by
    apply view_agrees entry (by exact changes.core_ne j other)
    · exact h.memory_elsewhere (i := ⟨pid, u⟩) (frameOf_of_found found present) _ j other
    · intro _ _ _ _
      rfl
    · intro _ _
      rfl

theorem Isolated.quiet_load (fresh : pid ∉ s.processes)
    (added : Added (OfExecutable file) pid (s.newProcess pid file) s') : Quiet s s' := by
  obtain ⟨_, _, rfl⟩ := added.state_eq
  refine ⟨rfl, fun i => ?_⟩
  by_cases same : i.pd = pid
  · refine .inr ?_
    intro page found
    obtain ⟨⟨-, -, notOut, notMapped⟩, image⟩ := loaded_lookup added (same ▸ found)
    have absent := h.getPage_none (h.dead i.pd i.vaddr (same ▸ fresh))
    rw [← frameOf, ← h.frameOf_load fresh added] at absent
    refine ⟨by simp [notMapped], by rw [same]; exact image, ?_⟩
    rw [view_absent absent, away, notOut]
    exact .refl _
  · refine .inl (.of_same (loaded_core_ne added same i.vaddr) (loaded_lookup_ne added same _)
      (congrFun ((added.others i.pd same).2) i.vaddr) (fun _ _ => rfl) (fun _ _ _ _ => rfl) rfl)

theorem Isolated.quiet_mmap {mi : MmapElem}
    (absent : ∀ count < mi.pages, s.pageLookup pid (mi.startVaddr + count) = none)
    (added : Added (OfMapping mi) pid (s.addMapping pid mi) s') : Quiet s s' := by
  obtain ⟨_, _, rfl⟩ := added.state_eq
  refine ⟨rfl, fun i => ?_⟩
  obtain ⟨old, image⟩ | ⟨isPid, page, isNew, found, image⟩ := mapped_lookup added i.pd i.vaddr
  · exact .inl (.of_same rfl old image (fun _ _ => rfl) (fun _ _ _ _ => rfl) rfl)
  · refine .inr ?_
    intro page' found'
    obtain rfl : page = page' := some.inj (found.symm.trans found')
    obtain ⟨count, isPage, small, rfl⟩ := isNew
    have noEntry : s.pageLookup i.pd i.vaddr = none := by
      rw [isPid, isPage]
      exact absent count small
    refine ⟨fun _ => noEntry, image, ?_⟩
    rw [view_absent (by exact h.getPage_none noEntry), away]
    exact .refl _

omit h in
theorem fileWriteAt_denied {f : File} (denied : s.denied f = true) (page : Bytes) (size ofs : Nat) :
    (s.fileWriteAt file page size ofs).2.files f = s.files f := by
  simp only [fileWriteAt]
  split
  · rfl
  · next notDenied =>
    apply update_of_ne
    rintro rfl
    exact notDenied denied

theorem Isolated.writesBack (entry : s.pageLookup i.pd i.vaddr = some page) (mapped : page.mmaped = true)
    (found : core s.pagedir i.pd i.vaddr = some pte) (present : pte.present = true)
    (changes : Changes s.pagedir s'.pagedir i.pd i.vaddr pte')
    (written : ∀ file, s.denied file = true → s'.files file = s.files file) {a : Nat} {n : Bool}
    (top : s.tasks = .evict a n :: rest) (memory : s'.memory = update s.memory pte.kpage fun _ => 0xcc := by rfl)
    (tables : s'.supplementaryPageTable = s.supplementaryPageTable := by rfl) (image : s'.image = s.image := by rfl)
    (disk : s'.swapDisk = s.swapDisk := by rfl) : WritesBack s s' := by
  refine ⟨⟨_, rest, top, .inl ⟨a, n, rfl⟩⟩, tables, image, written, ?_⟩
  intro j page' entry' notMapped files
  have other : j ≠ i := by
    rintro rfl
    cases entry.symm.trans entry'
    exact absurd mapped (by simp [notMapped])
  apply view_agrees entry' (changes.core_ne j other)
  · intro k had
    rw [memory]
    exact h.memory_elsewhere (frameOf_of_found found present) _ j other k had
  · intro _ _ _ _
    rw [disk]
  · exact files

theorem Isolated.contents (available : s.slotAvailable = true) (moves : Moves label s s') :
    Quiet s s' ∨ (∃ i ofs byte, Stores s s' i ofs byte) ∨ WritesBack s s' := by
  cases moves with
  | enter _ _ same | read _ same => exact .inl (.nowhere same)
  | store _ found present writable inside changes isAccess =>
    exact .inr (.inl ⟨_, _, _, h.stores found present inside changes⟩)
  | load idle fresh added => exact .inl (h.quiet_load fresh added)
  | mmap idle live mid whole inside absent added all isMmap => exact .inl (h.quiet_mmap absent added)
  | silent | lose | munmapEnd => exact .inl .nowhere
  | take top takes free => exact .inl (.nowhere rfl (memory_of_unowned (h.frames.unmarked free) _))
  | putBack top puts same =>
    have nobody := (h.spare _ ((spare_of_top top).trans puts.held)).2.1
    exact .inl (.nowhere same (memory_of_unowned nobody _))
  | toSwap top evicts isVictim perm entry found present changes slot =>
    cases slot with
    | slot clear => exact .inl (h.quiet_toSwap entry found present changes clear)
    | full noSlot => exact absurd available (not_slotAvailable top evicts isVictim entry noSlot)
  | toFile top mapped isVictim perm entry found present changes written reserved =>
    refine .inr (.inr (h.writesBack entry mapped found present changes ?_ top))
    obtain ⟨-, rfl⟩ | ⟨file, -, -, rfl⟩ := written
    · intro _ _
      rfl
    · intro f denied
      exact fileWriteAt_denied denied _ _ _
  | grow top _ _ changes | setupInstall top _ changes => exact .inl (h.quiet_create (spare_of_top top) changes)
  | @lazyLoad _ k _ page file _ top entry notSwapped isFile whole absent changes =>
    refine .inl (h.quiet_comeBack (spare_of_top top) entry absent changes (.same entry rfl) rfl ?_)
    intro j inside
    have zero := (h.spare k (spare_of_top top)).2.2 j
    have count : min page.loadReadBytes ((s.files file).length - page.loadFilepos) = page.loadReadBytes := whole
    simp only [fileReadAt, count, away, notSwapped, Bool.false_eq_true, if_false, initialBytes, isFile, zero]
  | swapIn top entry swapped isSlot absent changes =>
    refine .inl (h.quiet_comeBack (spare_of_top top) entry absent changes (.insert _ rfl) rfl ?_)
    intro j inside
    rw [swapRead_eq _ _ inside, away, if_pos swapped, isSlot]
    rfl
  | munmapWrite top present same =>
    refine .inr (.inr ⟨⟨_, _, top, .inr ⟨_, _, rfl⟩⟩, rfl, rfl, fun f denied => fileWriteAt_denied denied _ _ _, ?_⟩)
    intro i page entry _ files
    exact view_agrees entry (by rw [same]) (fun _ _ => rfl) (fun _ _ _ _ => rfl) files
  | munmapAbsent top absent => exact .inl (.erase (.erase rfl))
  | munmapPresent top found present changes =>
    refine .inl (h.quiet_leave (i := ⟨s.current, _⟩) found present changes rfl (.erase rfl) ?_ fun _ _ _ _ _ => rfl)
    intro page'' isPage
    cases isPage
  | teardown top noMappings freed kept =>
    refine .inl ⟨rfl, fun i => .inl ⟨rfl, ?_⟩⟩
    intro page found
    have other : i.pd ≠ s.current := by
      intro mine
      simp [pageLookup, mine] at found
    simp only [pageLookup, update_of_ne other] at found
    refine ⟨page, found, rfl, .inl ?_⟩
    apply view_agrees found
    · simp only [core, update_of_ne other]
    · intro k had
      apply kept
      intro u had'
      exact other (congrArg FrameElem.pd (h.frames.apart i ⟨s.current, u⟩ k had had'))
    · intro _ _ _ _
      rfl
    · intro _ _
      rfl

end Effects

end Pintos.Vm
