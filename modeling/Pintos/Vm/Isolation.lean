import Pintos.Vm.Moves

/-! # Isolation

Every step keeps the frame table, the page directories, the user pool and the swap table in agreement.
-/

namespace Pintos.Vm

open Kernel Library Function List State

/-! ## What the tables say after a step -/

variable {pagedir : Pid → Pagedir} {page : Option Page} {i : FrameElem}

section Tables

variable {s s' t : State} {pd : Pid} {u : Upage} {pte : Pte}

theorem frameOf_of_core (same : core s'.pagedir = core s.pagedir) : s'.frameOf = s.frameOf := by
  funext i
  simp only [frameOf, pagedirGetPage_eq, same]

section

variable (changes : Changes s.pagedir t.pagedir pd u pte)

include changes

theorem Changes.frameOf_here : t.frameOf ⟨pd, u⟩ = if pte.present then some pte.kpage else none := by
  simp only [frameOf, pagedirGetPage_eq, changes.here]
  rfl

theorem Changes.core_ne (i : FrameElem) (other : i ≠ ⟨pd, u⟩) :
    core t.pagedir i.pd i.vaddr = core s.pagedir i.pd i.vaddr := by
  apply changes.elsewhere
  rintro ⟨rfl, rfl⟩
  exact other rfl

theorem Changes.frameOf_ne (i : FrameElem) (other : i ≠ ⟨pd, u⟩) : t.frameOf i = s.frameOf i := by
  simp only [frameOf, pagedirGetPage_eq, changes.core_ne i other]

end

theorem frameOf_of_found (found : core s.pagedir pd u = some pte) (present : pte.present = true) :
    s.frameOf ⟨pd, u⟩ = some pte.kpage := by
  simp only [frameOf, pagedirGetPage_eq, found]
  exact if_pos present

theorem frameOf_store (changes : Changes s.pagedir pagedir pd u { pte with dirty := true })
    (found : core s.pagedir pd u = some pte) (ofs : Nat) (byte : UInt8) :
    ({ s with pagedir := pagedir }.store pd u pte.kpage ofs byte).frameOf = s.frameOf := by
  have after : Changes s.pagedir ({ s with pagedir := pagedir }.store pd u pte.kpage ofs byte).pagedir pd u
      { pte with dirty := true } := changes
  funext i
  by_cases isHere : i = ⟨pd, u⟩
  · subst isHere
    rw [after.frameOf_here, frameOf, pagedirGetPage_eq, found]
    rfl
  · exact after.frameOf_ne i isHere

/-- An entry of a supplementary page table has been replaced. -/
structure Replaces (s s' : State) (pd : Pid) (u : Upage) (page : Option Page) : Prop where
  here : s'.pageLookup pd u = page
  elsewhere : ∀ i : FrameElem, i ≠ ⟨pd, u⟩ → s'.pageLookup i.pd i.vaddr = s.pageLookup i.pd i.vaddr

theorem Replaces.of_table {pages} (table : s'.supplementaryPageTable = update s.supplementaryPageTable pd pages)
    (others : ∀ v, v ≠ u → pages.lookup v = (s.supplementaryPageTable pd).lookup v) :
    Replaces s s' pd u (pages.lookup u) where
  here := by simp [pageLookup, table]
  elsewhere i other := by
    by_cases same : i.pd = pd
    · have otherPage : i.vaddr ≠ u := by
        rintro rfl
        exact other (by rw [← same])
      simp only [pageLookup, table, same, update_self, others _ otherPage]
    · simp only [pageLookup, table, update_of_ne same]

theorem Replaces.insert (page : Page) (table : s'.supplementaryPageTable =
    update s.supplementaryPageTable pd ((s.supplementaryPageTable pd).insert u page)) :
    Replaces s s' pd u (some page) := by
  simpa using Replaces.of_table table fun v other => AList.lookup_insert_ne other

theorem Replaces.erase (table : s'.supplementaryPageTable =
    update s.supplementaryPageTable pd ((s.supplementaryPageTable pd).erase u)) : Replaces s s' pd u none := by
  simpa using Replaces.of_table table fun v other => AList.lookup_erase_ne other

theorem pageLookup_congr (table : s'.supplementaryPageTable = s.supplementaryPageTable) :
    s'.pageLookup = s.pageLookup := by
  funext pd u
  rw [pageLookup, pageLookup, table]

theorem Replaces.same (entry : s.pageLookup pd u = page)
    (table : s'.supplementaryPageTable = s.supplementaryPageTable) : Replaces s s' pd u page where
  here := by rw [← entry, pageLookup_congr table]
  elsewhere i _ := by rw [pageLookup_congr table]

theorem slotOf_congr (same : s'.pageLookup i.pd i.vaddr = s.pageLookup i.pd i.vaddr) : s'.slotOf i = s.slotOf i := by
  rw [slotOf, slotOf, same]

end Tables

section Slots

variable {s s' : State} {pd : Pid} {u : Upage} {page : Option Page} {bits : List Bool}

section

variable (replaces : Replaces s s' pd u page) {swapped : Page} {index : Nat}

include replaces

theorem Replaces.slotOf_here : s'.slotOf ⟨pd, u⟩ = page.bind Page.slot := by
  rw [slotOf, replaces.here]

theorem Replaces.slotOf_ne (i : FrameElem) (other : i ≠ ⟨pd, u⟩) : s'.slotOf i = s.slotOf i := by
  rw [slotOf, slotOf, replaces.elsewhere i other]

/-- No page, or one that is not swapped out, stands in the place of an old one. -/
theorem Replaces.slots (isIn : page.bind Page.slot = none) (owns : Owns s.slotOf bits) : Owns s'.slotOf bits := by
  apply owns.subset
  intro i slot isSlot
  by_cases same : i = ⟨pd, u⟩
  · rw [same, replaces.slotOf_here, isIn] at isSlot
    cases isSlot
  · rwa [replaces.slotOf_ne i same] at isSlot

omit replaces in
theorem Replaces.slots_out (replaces : Replaces s s' pd u (some swapped)) (isOut : swapped.slot = some index)
    (clear : bits[index]? = some false) (owns : Owns s.slotOf bits) : Owns s'.slotOf (bits.set index true) := by
  have inside := (List.getElem?_eq_some_iff.mp clear).1
  have here : s'.slotOf ⟨pd, u⟩ = some index := replaces.slotOf_here.trans isOut
  exact (owns.reserve index).give (by simp [inside]) (owns.unmarked clear) here replaces.slotOf_ne

theorem Replaces.slots_in (entry : s.pageLookup pd u = some swapped) (wasOut : swapped.slot = some index)
    (isIn : page.bind Page.slot = none) (owns : Owns s.slotOf bits) : Owns s'.slotOf (bits.set index false) := by
  have had : s.slotOf ⟨pd, u⟩ = some index := by
    rw [slotOf, entry]
    exact wasOut
  exact owns.giveUp had (replaces.slotOf_here.trans isIn) replaces.slotOf_ne

end

end Slots

/-! ## Control -/

variable {task : Task} {rest : List Task}

variable {s : State}

theorem spare_of_top (top : s.tasks = task :: rest) : s.spare = task.held := by
  simp [spare, top]

variable {next : Task} {k : Kpage} {u : Upage} {pte : Pte}

theorem Takes.held (takes : Takes task k next) : task.held = none ∧ next.held = some k := by
  cases takes <;> exact ⟨rfl, rfl⟩

theorem PutsBack.held {next : List Task} (puts : PutsBack s rest k task next) : task.held = some k := by
  cases puts <;> rfl

theorem Evicts.held {page : Page} (evicts : Evicts page task next) : task.held = none ∧ next.held = none := by
  cases evicts <;> exact ⟨rfl, rfl⟩

theorem Silent.held {next : List Task} (silent : Silent s task rest next) : task.held = none := by
  cases silent <;> rfl

/-- No task holds a page. -/
def NoneHeld (s : State) : Prop :=
  ∀ task ∈ s.tasks, task.held = none

theorem NoneHeld.spare (silent : NoneHeld s) (k : Kpage) (isSpare : s.spare = some k) : False := by
  obtain ⟨task, first, held⟩ := Option.bind_eq_some_iff.mp isSpare
  cases (silent task (mem_of_mem_head? first)).symm.trans held

theorem NoneHeld.below (silent : NoneHeld s) (task : Task) (rest : List Task) (top : s.tasks = task :: rest)
    (other : Task) (member : other ∈ rest) : other.held = none :=
  silent other (top ▸ mem_cons_of_mem _ member)

variable {s' : State}

section

variable (h : Isolated s)

include h

/-- The next task stands in the place of the topmost one. -/
theorem Isolated.noneHeld (top : s.tasks = task :: rest) (replaced : s'.tasks = next :: rest := by rfl)
    (silent : next.held = none := by rfl) : NoneHeld s' := by
  intro other member
  rw [replaced] at member
  cases member with
  | head => exact silent
  | tail _ member => exact h.below task rest top other member

/-- A step that changes no page directory, and only entries of pages that are not present. -/
theorem Isolated.retable (frames : s'.frameOf = s.frameOf)
    (entries : ∀ i k, s.frameOf i = some k → s'.pageLookup i.pd i.vaddr = s.pageLookup i.pd i.vaddr)
    (slots : Owns s'.slotOf s'.swapTable) (user : ∀ pd u page, s'.pageLookup pd u = some page → u < userPages)
    (dead : ∀ pd u, pd ∉ s'.processes → s'.pageLookup pd u = none) (distinct : s'.processes.Nodup)
    (frameTable : s'.frameTable = s.frameTable) (usedMap : s'.usedMap = s.usedMap)
    (current : s'.tasks ≠ [] → s'.current ∈ s'.processes) (silent : NoneHeld s') : Isolated s' where
  nodup := frameTable ▸ h.nodup
  framed pd u := by
    have same : s'.pagedirGetPage pd u = s.pagedirGetPage pd u := congrFun frames ⟨pd, u⟩
    rw [frameTable, same]
    exact h.framed pd u
  frames := by
    rw [frames, usedMap]
    exact h.frames
  slots := slots
  resident pd u k got := by
    have same : s'.pagedirGetPage pd u = s.pagedirGetPage pd u := congrFun frames ⟨pd, u⟩
    rw [same] at got
    rw [entries ⟨pd, u⟩ k got]
    exact h.resident pd u k got
  user := user
  dead := dead
  distinct := distinct
  current := current
  spare k isSpare := (silent.spare k isSpare).elim
  below := silent.below

/-- The entry of a page that is not present is deleted. -/
theorem Isolated.unlist {pd : Pid} (absent : s.pagedirGetPage pd u = none) (replaces : Replaces s s' pd u none)
    (current : s'.tasks ≠ [] → s'.current ∈ s.processes) (silent : NoneHeld s')
    (pagedir : s'.pagedir = s.pagedir := by rfl) (frameTable : s'.frameTable = s.frameTable := by rfl)
    (usedMap : s'.usedMap = s.usedMap := by rfl) (swapTable : s'.swapTable = s.swapTable := by rfl)
    (processes : s'.processes = s.processes := by rfl) : Isolated s' := by
  have kept : ∀ pd' u' page, s'.pageLookup pd' u' = some page → s.pageLookup pd' u' = some page := by
    intro pd' u' page entry
    by_cases same : (⟨pd', u'⟩ : FrameElem) = ⟨pd, u⟩
    · cases same
      exact absurd (entry.symm.trans replaces.here) (by simp)
    · exact (replaces.elsewhere ⟨pd', u'⟩ same).symm.trans entry
  refine h.retable ?_ ?_ ?_ ?_ ?_ (processes ▸ h.distinct) frameTable usedMap (processes ▸ current) silent
  · exact frameOf_of_core (by rw [pagedir])
  · intro i k had
    apply replaces.elsewhere
    rintro rfl
    exact absurd (had.symm.trans absent) (by simp)
  · rw [swapTable]
    exact replaces.slots rfl h.slots
  · intro pd' u' page entry
    exact h.user pd' u' page (kept pd' u' page entry)
  · intro pd' u' isDead
    rw [processes] at isDead
    cases entry : s'.pageLookup pd' u' with
    | none => rfl
    | some page =>
      have before := kept pd' u' page entry
      rw [h.dead pd' u' isDead] at before
      cases before

omit h in
/-- A step that changes no table. -/
structure SameTables (s t : State) : Prop where
  frames : t.frameOf = s.frameOf := by rfl
  entries : t.supplementaryPageTable = s.supplementaryPageTable := by rfl
  frameTable : t.frameTable = s.frameTable := by rfl
  usedMap : t.usedMap = s.usedMap := by rfl
  swapTable : t.swapTable = s.swapTable := by rfl
  processes : t.processes = s.processes := by rfl

variable {t : State}

theorem Isolated.control (tables : SameTables s t) (current : t.tasks ≠ [] → t.current ∈ s.processes)
    (silent : NoneHeld t) : Isolated t := by
  have same := pageLookup_congr tables.entries
  have slots : t.slotOf = s.slotOf := funext fun i => slotOf_congr (by rw [same])
  refine h.retable tables.frames (fun i _ _ => by rw [same]) ?_ ?_ ?_ (tables.processes ▸ h.distinct)
    tables.frameTable tables.usedMap (tables.processes ▸ current) silent
  · rw [slots, tables.swapTable]
    exact h.slots
  · intro pd u page entry
    exact h.user pd u page (same ▸ entry)
  · intro pd u absent
    rw [same]
    exact h.dead pd u (tables.processes ▸ absent)

/-- The running process goes on. -/
theorem Isolated.goOn (tables : SameTables s t) (top : s.tasks = task :: rest) (silent : NoneHeld t)
    (current : t.current = s.current := by rfl) : Isolated t :=
  h.control tables (fun _ => current ▸ h.current (by simp [top])) silent

/-! ## Pages come and go -/

/-- A page is installed. -/
theorem Isolated.install {page : Page} (top : s.tasks = task :: rest) (held : task.held = some k)
    (absent : s.pagedirGetPage s.current u = none) (changes : Changes s.pagedir s'.pagedir s.current u pte)
    (replaces : Replaces s s' s.current u (some page)) (isIn : page.swapOuted = false) (inside : u < userPages)
    (slots : Owns s'.slotOf s'.swapTable) (present : pte.present = true := by rfl) (isPage : pte.kpage = k := by rfl)
    (frameTable : s'.frameTable = s.frameTable ++ [⟨s.current, u⟩] := by rfl)
    (usedMap : s'.usedMap = s.usedMap := by rfl) (processes : s'.processes = s.processes := by rfl)
    (current : s'.current = s.current := by rfl) (tasks : s'.tasks = rest := by rfl) : Isolated s' := by
  have here : s'.frameOf ⟨s.current, u⟩ = some k := by
    rw [changes.frameOf_here, if_pos present, isPage]
  have elsewhere := changes.frameOf_ne
  have entries := replaces.elsewhere
  obtain ⟨used, nobody, -⟩ := h.spare k ((spare_of_top top).trans held)
  have live := h.current (by simp [top])
  have silent : NoneHeld s' := fun other member => h.below task rest top other (tasks ▸ member)
  constructor
  · have fresh : ⟨s.current, u⟩ ∉ s.frameTable := by
      intro member
      obtain ⟨k', got⟩ := (h.framed _ _).mp member
      exact absurd (got.symm.trans absent) (by simp)
    rw [frameTable]
    refine nodup_append.mpr ⟨h.nodup, nodup_singleton _, ?_⟩
    intro i member j isNew same
    rw [same, mem_singleton.mp isNew] at member
    exact fresh member
  · intro pd v
    rw [frameTable, mem_append, mem_singleton]
    by_cases isNew : (⟨pd, v⟩ : FrameElem) = ⟨s.current, u⟩
    · cases isNew
      exact ⟨fun _ => ⟨k, here⟩, fun _ => .inr rfl⟩
    · have same : s'.pagedirGetPage pd v = s.pagedirGetPage pd v := elsewhere ⟨pd, v⟩ isNew
      rw [same, ← h.framed pd v]
      exact or_iff_left isNew
  · rw [usedMap]
    exact h.frames.give used nobody here elsewhere
  · exact slots
  · intro pd v k' got
    by_cases isNew : (⟨pd, v⟩ : FrameElem) = ⟨s.current, u⟩
    · cases isNew
      exact ⟨page, replaces.here, isIn⟩
    · have same : s'.pagedirGetPage pd v = s.pagedirGetPage pd v := elsewhere ⟨pd, v⟩ isNew
      rw [entries ⟨pd, v⟩ isNew]
      exact h.resident pd v k' (same ▸ got)
  · intro pd v page found
    by_cases isNew : (⟨pd, v⟩ : FrameElem) = ⟨s.current, u⟩
    · cases isNew
      exact inside
    · rw [entries ⟨pd, v⟩ isNew] at found
      exact h.user pd v page found
  · intro pd v isDead
    rw [processes] at isDead
    have isOld : (⟨pd, v⟩ : FrameElem) ≠ ⟨s.current, u⟩ := by
      intro same
      cases same
      exact isDead live
    rw [entries ⟨pd, v⟩ isOld]
    exact h.dead pd v isDead
  · exact processes ▸ h.distinct
  · intro _
    rw [processes, current]
    exact live
  · intro k' isSpare
    exact (silent.spare k' isSpare).elim
  · exact silent.below

/-- A page is evicted or unmapped. -/
theorem Isolated.remove {pte' : Pte} (top : s.tasks = task :: rest) (found : core s.pagedir i.pd i.vaddr = some pte)
    (present : pte.present = true) (changes : Changes s.pagedir s'.pagedir i.pd i.vaddr pte')
    (isOut : pte'.present = false) (replaces : Replaces s s' i.pd i.vaddr page) (slots : Owns s'.slotOf s'.swapTable)
    (perm : s.frameTable.Perm (i :: s'.frameTable)) (silent : NoneHeld s')
    (usedMap : s'.usedMap = s.usedMap.set pte.kpage false := by rfl) (processes : s'.processes = s.processes := by rfl)
    (current : s'.current = s.current := by rfl) : Isolated s' := by
  have had : s.frameOf i = some pte.kpage := frameOf_of_found found present
  have here : s'.frameOf i = none := by
    have gone := changes.frameOf_here
    rwa [if_neg (by simp [isOut])] at gone
  have elsewhere : ∀ other, other ≠ i → s'.frameOf other = s.frameOf other := changes.frameOf_ne
  have entries : ∀ other, other ≠ i → s'.pageLookup other.pd other.vaddr = s.pageLookup other.pd other.vaddr :=
    replaces.elsewhere
  have nodup : (i :: s'.frameTable).Nodup := perm.nodup_iff.mp h.nodup
  have entry' : ∀ pd v page, s'.pageLookup pd v = some page → ∃ old, s.pageLookup pd v = some old := by
    intro pd v page found
    by_cases isI : (⟨pd, v⟩ : FrameElem) = i
    · subst isI
      obtain ⟨old, isOld, -⟩ := h.resident pd v _ had
      exact ⟨old, isOld⟩
    · exact ⟨page, (entries ⟨pd, v⟩ isI).symm.trans found⟩
  constructor
  · exact (nodup_cons.mp nodup).2
  · intro pd v
    by_cases isI : (⟨pd, v⟩ : FrameElem) = i
    · subst isI
      constructor
      · intro member
        exact absurd member (nodup_cons.mp nodup).1
      · rintro ⟨k', got⟩
        exact absurd (got.symm.trans here) (by simp)
    · have same : s'.pagedirGetPage pd v = s.pagedirGetPage pd v := elsewhere ⟨pd, v⟩ isI
      rw [same, ← h.framed pd v, perm.mem_iff, mem_cons]
      exact (or_iff_right isI).symm
  · rw [usedMap]
    exact h.frames.giveUp had here elsewhere
  · exact slots
  · intro pd v k' got
    have isOther : (⟨pd, v⟩ : FrameElem) ≠ i := by
      rintro rfl
      exact absurd (got.symm.trans here) (by simp)
    have same : s'.pagedirGetPage pd v = s.pagedirGetPage pd v := elsewhere ⟨pd, v⟩ isOther
    rw [entries ⟨pd, v⟩ isOther]
    exact h.resident pd v k' (same ▸ got)
  · intro pd v page found
    obtain ⟨old, before⟩ := entry' pd v page found
    exact h.user pd v old before
  · intro pd v isDead
    rw [processes] at isDead
    cases found : s'.pageLookup pd v with
    | none => rfl
    | some page =>
      obtain ⟨old, before⟩ := entry' pd v page found
      rw [h.dead pd v isDead] at before
      cases before
  · exact processes ▸ h.distinct
  · intro _
    rw [processes, current]
    exact h.current (by simp [top])
  · intro k' isSpare
    exact (silent.spare k' isSpare).elim
  · exact silent.below

end

/-! ## Every step -/

section Steps

variable {s : State} (h : Isolated s)

include h

variable {task : Task} {rest : List Task} {pid : Pid} {file : File}

theorem Isolated.silent {next : List Task} (top : s.tasks = task :: rest) (silent : Silent s task rest next) :
    Isolated { s with tasks := next } := by
  have below := h.below task rest top
  apply h.goOn {} top
  cases silent with
  | full a n | setupFull file | dirty mi count _ _ _ | clean mi count _ _ _ => exact h.noneHeld top
  | fullAgain a n => exact below
  | setupFullAgain file => simp [NoneHeld, Task.held]
  | absent mi count | exit mi =>
    intro other member
    rcases member with _ | ⟨_, _ | ⟨_, member⟩⟩
    · rfl
    · rfl
    · exact below other member

theorem Isolated.store {ofs : Nat} {byte : UInt8} (idle : s.tasks = []) (found : core s.pagedir pid u = some pte)
    (changes : Changes s.pagedir pagedir pid u { pte with dirty := true }) :
    Isolated ({ s with pagedir := pagedir }.store pid u pte.kpage ofs byte) := by
  refine h.control { frames := frameOf_store changes found ofs byte } (fun busy => absurd idle busy) ?_
  intro task member
  cases idle ▸ member

theorem Isolated.take (top : s.tasks = task :: rest) (takes : Takes task k next) (free : s.usedMap[k]? = some false) :
    Isolated { s with
      usedMap := s.usedMap.set k true
      memory := update s.memory k fun _ => 0
      tasks := next :: rest } where
  nodup := h.nodup
  framed := h.framed
  frames := h.frames.reserve k
  slots := h.slots
  resident := h.resident
  user := h.user
  dead := h.dead
  distinct := h.distinct
  current _ := h.current (by simp [top])
  spare k' isSpare := by
    obtain rfl : k = k' := Option.some.inj (takes.held.2.symm.trans isSpare)
    refine ⟨?_, fun i => h.frames.unmarked free i, fun j => ?_⟩
    · have inside := (List.getElem?_eq_some_iff.mp free).1
      simp [inside]
    · simp
  below task' rest' top' := by
    obtain ⟨-, rfl⟩ := cons.inj top'
    exact h.below task rest top

theorem Isolated.putBack {next : List Task} (top : s.tasks = task :: rest) (puts : PutsBack s rest k task next)
    (same : core pagedir = core s.pagedir) :
    Isolated { s with
      pagedir := pagedir
      usedMap := s.usedMap.set k false
      memory := update s.memory k fun _ => 0xcc
      tasks := next } := by
  have nobody := (h.spare k ((spare_of_top top).trans puts.held)).2.1
  have frames : frameOf { s with pagedir := pagedir, tasks := next } = s.frameOf := frameOf_of_core same
  have silent : NoneHeld { s with pagedir := pagedir, tasks := next } := by
    cases puts with
    | fault a n => exact h.below _ rest top
    | faultExit a n page file entry isFile short | setup file => simp [NoneHeld, Task.held]
  -- First the task is left, then the page is given back.
  have left := h.goOn (t := { s with pagedir := pagedir, tasks := next }) { frames := frames } top silent
  exact {
    nodup := left.nodup
    framed := left.framed
    frames := left.frames.release fun i => frames ▸ nobody i
    slots := left.slots
    resident := left.resident
    user := left.user
    dead := left.dead
    distinct := left.distinct
    current := left.current
    spare := fun k' isSpare => (silent.spare k' isSpare).elim
    below := left.below }

omit h in
theorem loaded_slotOf (added : Added (OfExecutable file) pid (s.newProcess pid file) s') (u : Upage) :
    s'.slotOf ⟨pid, u⟩ = none := by
  cases found : s'.pageLookup pid u with
  | none => simp [slotOf, found]
  | some page =>
    obtain ⟨-, -, notOut, -⟩ := (loaded_lookup added found).1
    simp [slotOf, found, Page.slot, notOut]

theorem Isolated.frameOf_load (fresh : pid ∉ s.processes)
    (added : Added (OfExecutable file) pid (s.newProcess pid file) s') : s'.frameOf = s.frameOf := by
  funext i
  by_cases same : i.pd = pid
  · have noPage : s.frameOf i = none := h.getPage_none (h.dead i.pd i.vaddr (same ▸ fresh))
    rw [noPage, frameOf, pagedirGetPage_eq, same, added.rest]
    simp [core, newProcess]
  · simp only [frameOf, pagedirGetPage_eq, loaded_core_ne added same]

theorem Isolated.load (fresh : pid ∉ s.processes) (added : Added (OfExecutable file) pid (s.newProcess pid file) s') :
    Isolated s' := by
  obtain ⟨_, _, rfl⟩ := added.state_eq
  refine h.retable (h.frameOf_load fresh added) ?_ ?_ ?_ ?_ (nodup_cons.mpr ⟨fresh, h.distinct⟩) rfl rfl
    (fun _ => mem_cons_self ..) ?_
  · intro i k had
    apply loaded_lookup_ne added
    rintro rfl
    exact absurd (had.symm.trans (h.getPage_none (h.dead i.pd i.vaddr fresh))) (by simp)
  · apply h.slots.subset
    intro i slot isSlot
    by_cases same : i.pd = pid
    · cases same
      cases (loaded_slotOf added i.vaddr).symm.trans isSlot
    · rwa [slotOf_congr (loaded_lookup_ne added same i.vaddr)] at isSlot
  · intro q u page found
    by_cases same : q = pid
    · exact (loaded_lookup added (same ▸ found)).1.1
    · rw [loaded_lookup_ne added same] at found
      exact h.user q u page found
  · intro q u isDead
    obtain ⟨other, isDead⟩ := not_or.mp (mem_cons.not.mp isDead)
    rw [loaded_lookup_ne added other]
    exact h.dead q u isDead
  · simp [NoneHeld, newProcess, Task.held]

theorem Isolated.mmap {mi : MmapElem} (idle : s.tasks = []) (live : pid ∈ s.processes)
    (inside : mi.startVaddr + mi.pages ≤ userPages)
    (absent : ∀ count < mi.pages, s.pageLookup pid (mi.startVaddr + count) = none)
    (added : Added (OfMapping mi) pid (s.addMapping pid mi) s') : Isolated s' := by
  obtain ⟨_, _, rfl⟩ := added.state_eq
  refine h.retable (frameOf_of_core rfl) ?_ ?_ ?_ ?_ h.distinct rfl rfl (fun busy => absurd idle busy) ?_
  · intro i k had
    obtain ⟨old, -⟩ | ⟨isPid, page, ⟨count, isPage, small, -⟩, -⟩ := mapped_lookup added i.pd i.vaddr
    · exact old
    · have noPage : s.pagedirGetPage i.pd i.vaddr = none :=
      h.getPage_none (by rw [isPid, isPage]; exact absent count small)
      exact absurd (had.symm.trans noPage) (by simp)
  · apply h.slots.subset
    intro i slot isSlot
    obtain ⟨old, -⟩ | ⟨-, page, ⟨count, -, -, rfl⟩, found, -⟩ := mapped_lookup added i.pd i.vaddr
    · rwa [slotOf_congr old] at isSlot
    · simp [slotOf, found, Page.slot] at isSlot
  · intro q u page found
    obtain ⟨old, -⟩ | ⟨-, -, ⟨count, rfl, small, -⟩, -⟩ := mapped_lookup added q u
    · exact h.user q u page (old ▸ found)
    · exact Nat.lt_of_lt_of_le (Nat.add_lt_add_left small _) inside
  · intro q u isDead
    obtain ⟨old, -⟩ | ⟨rfl, -⟩ := mapped_lookup added q u
    · rw [old]
      exact h.dead q u isDead
    · exact absurd live isDead
  · simp [NoneHeld, addMapping, idle]

/-- The running process is gone. -/
def State.tornDown (usedMap : Bitmap) (memory : Kpage → Bytes) (s : State) : State :=
  { s with
    execFile := update s.execFile s.current none
    frameTable := s.frameTable.filter fun i => decide (i.pd ≠ s.current)
    supplementaryPageTable := update s.supplementaryPageTable s.current ∅
    pagedir := update s.pagedir s.current ∅
    usedMap := usedMap
    memory := memory
    processes := s.processes.erase s.current
    tasks := [] }

theorem Isolated.teardown {usedMap : Bitmap} {memory : Kpage → Bytes} (freed : ∀ k, usedMap[k]? = some true ↔
      s.usedMap[k]? = some true ∧ ∀ u, s.pagedirGetPage s.current u ≠ some k) :
    Isolated (s.tornDown usedMap memory) := by
  unfold State.tornDown
  generalize isNew : State.mk _ _ _ _ _ _ _ _ _ _ _ _ _ _ _ _ = s'
  have gone : ∀ u, s'.pagedirGetPage s.current u = none ∧ s'.pageLookup s.current u = none := by
    intro u
    subst isNew
    simp [pagedirGetPage, lookupPage, pageLookup]
  have kept : ∀ q u, q ≠ s.current → s'.pagedirGetPage q u = s.pagedirGetPage q u ∧
      s'.pageLookup q u = s.pageLookup q u := by
    intro q u other
    subst isNew
    simp [pagedirGetPage, lookupPage, pageLookup, other]
  have staying : ∀ {q u k}, s'.pagedirGetPage q u = some k → q ≠ s.current ∧ s.pagedirGetPage q u = some k := by
    intro q u k got
    have other : q ≠ s.current := by
      rintro rfl
      exact absurd (got.symm.trans (gone u).1) (by simp)
    exact ⟨other, (kept q u other).1.symm.trans got⟩
  have listed : ∀ {q u page}, s'.pageLookup q u = some page → q ≠ s.current ∧ s.pageLookup q u = some page := by
    intro q u page found
    have other : q ≠ s.current := by
      rintro rfl
      exact absurd (found.symm.trans (gone u).2) (by simp)
    exact ⟨other, (kept q u other).2.symm.trans found⟩
  constructor
  · subst isNew
    exact h.nodup.filter _
  · intro q u
    have member : ⟨q, u⟩ ∈ s'.frameTable ↔ ⟨q, u⟩ ∈ s.frameTable ∧ q ≠ s.current := by
      subst isNew
      simp
    rw [member, h.framed]
    constructor
    · rintro ⟨⟨k, got⟩, other⟩
      exact ⟨k, (kept q u other).1.trans got⟩
    · rintro ⟨k, got⟩
      obtain ⟨other, got⟩ := staying got
      exact ⟨⟨k, got⟩, other⟩
  · have usedMap' : s'.usedMap = usedMap := by rw [← isNew]
    rw [usedMap']
    constructor
    · intro i k got
      obtain ⟨other, got⟩ := staying got
      refine (freed k).mpr ⟨h.frames.marked i k got, ?_⟩
      intro u got'
      have same := h.frames.apart i ⟨s.current, u⟩ k got got'
      exact other (congrArg FrameElem.pd same)
    · intro i j k got got'
      exact h.frames.apart i j k (staying got).2 (staying got').2
  · have swapTable' : s'.swapTable = s.swapTable := by rw [← isNew]
    rw [swapTable']
    apply h.slots.subset
    intro i slot isSlot
    cases found : s'.pageLookup i.pd i.vaddr with
    | none => simp [slotOf, found] at isSlot
    | some page =>
      obtain ⟨other, -⟩ := listed found
      rwa [slotOf_congr (kept i.pd i.vaddr other).2] at isSlot
  · intro q u k got
    obtain ⟨other, got⟩ := staying got
    rw [(kept q u other).2]
    exact h.resident q u k got
  · intro q u page found
    exact h.user q u page (listed found).2
  · intro q u isDead
    by_cases isGone : q = s.current
    · rw [isGone]
      exact (gone u).2
    · rw [(kept q u isGone).2]
      apply h.dead q u
      intro live
      have stays : q ∈ s'.processes := by
        rw [← isNew]
        exact (mem_erase_of_ne isGone).mpr live
      exact isDead stays
  · subst isNew
    exact h.distinct.erase _
  · subst isNew
    intro busy
    exact absurd rfl busy
  · subst isNew
    intro k isSpare
    cases isSpare
  · subst isNew
    intro task rest top
    cases top

theorem Isolated.moves {label : Label} (moves : Moves label s s') : Isolated s' := by
  cases moves with
  | enter idle live same isTask =>
    refine h.control { frames := frameOf_of_core same } (fun _ => live) ?_
    obtain ⟨a, n, rfl⟩ | rfl | ⟨mi, -, rfl⟩ := isTask <;> simp [NoneHeld, Task.held]
  | read idle same =>
    refine h.control { frames := frameOf_of_core same } (fun busy => absurd idle busy) ?_
    simp [NoneHeld, idle]
  | store idle found present writable inside changes isAccess => exact h.store idle found changes
  | load idle fresh added => exact h.load fresh added
  | mmap idle live mid whole inside absent added all isMmap => exact h.mmap idle live inside absent added
  | silent top silent => exact h.silent top silent
  | take top takes free => exact h.take top takes free
  | lose top illegal => exact h.goOn {} top (by simp [NoneHeld, Task.held])
  | putBack top puts same => exact h.putBack top puts same
  | toSwap top evicts isVictim perm entry found present changes slot =>
    refine h.remove top found present changes rfl (.insert _ rfl) ?_ perm (h.noneHeld top rfl evicts.held.2)
    cases slot with
    | slot clear => exact Replaces.slots_out (.insert _ rfl) rfl clear h.slots
    | full noSlot => exact Replaces.slots (.insert _ rfl) rfl h.slots
  | toFile top mapped isVictim perm entry found present changes written reserved =>
    refine h.remove top found present changes rfl (.same rfl rfl) ?_ perm (h.noneHeld top)
    obtain ⟨rfl, -⟩ | ⟨index, -, rfl⟩ := reserved
    · exact h.slots
    · exact h.slots.reserve index
  | grow top absent inside changes =>
    refine h.install top rfl (h.getPage_none absent) changes (.insert _ rfl) rfl inside ?_
    exact Replaces.slots (.insert _ rfl) rfl h.slots
  | lazyLoad top entry notSwapped isFile whole absent changes =>
    exact h.install top rfl absent changes (.same entry rfl) notSwapped (h.user _ _ _ entry) h.slots
  | swapIn top entry swapped isSlot absent changes =>
    refine h.install top rfl absent changes (.insert _ rfl) rfl (h.user _ _ _ entry) ?_
    exact Replaces.slots_in (.insert _ rfl) entry ((if_pos swapped).trans isSlot) rfl h.slots
  | setupInstall top absent changes =>
    refine h.install top rfl absent changes (.insert _ rfl) rfl (by decide) ?_
    exact Replaces.slots (.insert _ rfl) rfl h.slots
  | munmapEnd top all => exact h.goOn {} top (h.below _ _ top)
  | munmapWrite top present same => exact h.goOn { frames := frameOf_of_core same } top (h.noneHeld top)
  | munmapAbsent top absent =>
    exact h.unlist absent (.erase rfl) (fun _ => h.current (by simp [top])) (h.noneHeld top)
  | munmapPresent top found present changes =>
    refine h.remove (i := ⟨s.current, _⟩) top found present changes rfl (.erase rfl) ?_ ?_ (h.noneHeld top)
    · exact Replaces.slots (.erase rfl) rfl h.slots
    · exact perm_cons_erase ((h.framed _ _).mpr ⟨_, frameOf_of_found found present⟩)
  | teardown top noMappings freed kept => exact h.teardown freed

end Steps

theorem isolated_boot (poolSize swapSize : Nat) (files : File → FileData) :
    Isolated (boot poolSize swapSize files) := by
  have noPage : ∀ pd u, (boot poolSize swapSize files).pagedirGetPage pd u = none := fun _ _ => rfl
  have noEntry : ∀ pd u, (boot poolSize swapSize files).pageLookup pd u = none := fun _ _ => rfl
  constructor
  · exact nodup_nil
  · intro pd u
    have empty : (boot poolSize swapSize files).frameTable = [] := rfl
    simp [noPage, empty]
  · constructor
    · intro i k got
      cases (noPage _ _).symm.trans got
    · intro i j k got
      cases (noPage _ _).symm.trans got
  · constructor
    · intro i k isSlot
      cases isSlot
    · intro i j k isSlot
      cases isSlot
  · intro pd u k got
    cases (noPage _ _).symm.trans got
  · intro pd u page found
    cases (noEntry _ _).symm.trans found
  · intro pd u _
    rfl
  · exact nodup_nil
  · intro busy
    exact absurd rfl busy
  · intro k isSpare
    cases isSpare
  · intro task rest top
    cases top

/-- A run keeps what its steps keep, in isolated states. -/
theorem Reachable.invariant {allowed : Label → State → Prop} {files : File → FileData}
    (reached : Reachable allowed files s) (available : ∀ label s, allowed label s → memoryAvailable label s)
    (holds : State → Prop) (initially : ∀ poolSize swapSize, holds (boot poolSize swapSize files))
    (kept : ∀ {label s s'}, Isolated s → holds s → allowed label s → step label s = some s' →
      Moves label s s' → holds s') :
    Isolated s ∧ holds s := by
  obtain ⟨poolSize, swapSize, reaches⟩ := reached
  apply reaches.invariant (fun s => Isolated s ∧ holds s) ⟨isolated_boot poolSize swapSize files, initially _ _⟩
  intro label s s' before isAllowed stepped
  have moves := step_moves before.1 (available label s isAllowed) stepped
  exact ⟨before.1.moves moves, kept before.1 before.2 isAllowed stepped moves⟩

/-- Steps of the process in the kernel, with memory. -/
def goes (steps : Nat) : List Label :=
  replicate steps (.go ⟨true, true, true, 0xbffffff0⟩)

end Pintos.Vm
