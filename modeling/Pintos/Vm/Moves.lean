import Pintos.Library.Ownership
import Pintos.Vm.Tables

/-! # What each step can do

`Moves` lists the steps, as long as the kernel pool does not run out.  `Isolated` is what they rely on: the frame
table lists the present pages, no two of them share a page of the user pool, and no two pages that are swapped out
share a slot.
-/

namespace Pintos.Vm

open Kernel Library Function Option State Nat

/-- The allocations from the kernel pool succeed. -/
def memoryAvailable (label : Label) (_ : State) : Prop :=
  match label with
  | .go memory => memory.lookup ∧ memory.entry ∧ memory.table
  | _ => True

instance : ∀ label s, Decidable (memoryAvailable label s) := by
  intro label s
  unfold memoryAvailable
  split <;> infer_instance

/-- The page of the user pool that is in a local variable. -/
def Task.held : Task → Option Kpage
  | .resolve _ _ kpage | .setupInstall _ kpage => some kpage
  | _ => none

/-- The page of the user pool that a user page is in. -/
def State.frameOf (s : State) (i : FrameElem) : Option Kpage :=
  s.pagedirGetPage i.pd i.vaddr

/-- The slot that a page has been swapped out to. -/
def Page.slot (page : Page) : Option Nat :=
  if page.swapOuted then page.swapIndex else none

/-- The slot that a user page is in. -/
def State.slotOf (s : State) (i : FrameElem) : Option Nat :=
  (s.pageLookup i.pd i.vaddr).bind Page.slot

/-- The user page that an eviction takes. -/
def State.victim (s : State) : Option FrameElem :=
  s.swapTableScanAndFlip.2.frameTableFindVictim.map Prod.fst

/-- The page of the user pool that the current process has not installed yet. -/
def State.spare (s : State) : Option Kpage :=
  s.tasks.head?.bind Task.held

structure Isolated (s : State) : Prop where
  nodup : s.frameTable.Nodup
  framed : ∀ pd u, ⟨pd, u⟩ ∈ s.frameTable ↔ ∃ k, s.pagedirGetPage pd u = some k
  frames : Owns s.frameOf s.usedMap
  slots : Owns s.slotOf s.swapTable
  resident : ∀ pd u k, s.pagedirGetPage pd u = some k → ∃ page, s.pageLookup pd u = some page ∧ page.swapOuted = false
  -- Processes.
  user : ∀ pd u page, s.pageLookup pd u = some page → u < userPages
  dead : ∀ pd u, pd ∉ s.processes → s.pageLookup pd u = none
  distinct : s.processes.Nodup
  current : s.tasks ≠ [] → s.current ∈ s.processes
  -- The page that is being filled.
  spare : ∀ k, s.spare = some k → s.usedMap[k]? = some true ∧ (∀ i, s.frameOf i ≠ some k) ∧ ∀ j, s.memory k j = 0
  below : ∀ task rest, s.tasks = task :: rest → ∀ other ∈ rest, other.held = none

/-! ## The steps -/

/-- One entry of the page directories has changed, apart from accessed and stack bits. -/
structure Changes (old new : Pid → Pagedir) (pd : Pid) (upage : Upage) (pte : Pte) : Prop where
  here : core new pd upage = some pte
  elsewhere : ∀ pd' upage', ¬ (pd' = pd ∧ upage' = upage) → core new pd' upage' = core old pd' upage'

/-- Tasks that get a page from the user pool. -/
inductive Takes : Task → Kpage → Task → Prop
  | fault (a : Nat) (n : Bool) (k : Kpage) : Takes (.fault a n) k (.resolve a n k)
  | evicted (a : Nat) (n : Bool) (k : Kpage) : Takes (.evicted a n) k (.resolve a n k)
  | setup (file : File) (k : Kpage) : Takes (.setup file) k (.setupInstall file k)
  | setupEvicted (file : File) (k : Kpage) : Takes (.setupEvicted file) k (.setupInstall file k)

/-- Steps from task to task. -/
inductive Silent (s : State) : Task → List Task → List Task → Prop
  | full (a : Nat) (n : Bool) (rest : List Task) : Silent s (.fault a n) rest (.evict a n :: rest)
  | fullAgain (a : Nat) (n : Bool) (rest : List Task) : Silent s (.evicted a n) rest rest
  | setupFull (file : File) (rest : List Task) : Silent s (.setup file) rest (.setupEvict file :: rest)
  | setupFullAgain (file : File) (rest : List Task) : Silent s (.setupEvicted file) rest [.exit]
  | dirty (mi : MmapElem) (count : Nat) (rest : List Task) (more : count * pgSize < mi.readBytes)
      (isDirty : s.pagedirIsDirty s.current (mi.startVaddr + count) = true) :
      Silent s (.munmap mi count) rest (.munmapWrite mi count :: rest)
  | clean (mi : MmapElem) (count : Nat) (rest : List Task) (more : count * pgSize < mi.readBytes)
      (isClean : s.pagedirIsDirty s.current (mi.startVaddr + count) = false) :
      Silent s (.munmap mi count) rest (.munmapDelete mi count :: rest)
  | absent (mi : MmapElem) (count : Nat) (rest : List Task)
      (isAbsent : s.pagedirGetPage s.current (mi.startVaddr + count) = none) : Silent s (.munmapWrite mi count) rest
        (.fault ((mi.startVaddr + count) * pgSize) true :: .munmapWrite mi count :: rest)
  | exit (mi : MmapElem) (rest : List Task) (member : mi ∈ s.mmapList s.current) :
      Silent s .exit rest (.munmap mi 0 :: .exit :: rest)

/-- Tasks that move a page to the swap disk. -/
inductive Evicts (page : Page) : Task → Task → Prop
  | fault (a : Nat) (n : Bool) (notMapped : page.mmaped = false) : Evicts page (.evict a n) (.evicted a n)
  | setup (file : File) : Evicts page (.setupEvict file) (.setupEvicted file)

/-- The slot that is reserved for a page, and what is written to it. -/
inductive TakesSlot (s : State) (bytes : Bytes) : Option Nat → Bitmap → (Nat → Bytes) → Prop
  | slot {index : Nat} (clear : s.swapTable[index]? = some false) :
      TakesSlot s bytes (some index) (s.swapTable.set index true) (s.swapWrite index bytes).swapDisk
  | full (noSlot : ∀ i : Nat, s.swapTable[i]? ≠ some false) : TakesSlot s bytes none s.swapTable s.swapDisk

/-- Tasks that give their page back. -/
inductive PutsBack (s : State) (rest : List Task) (k : Kpage) : Task → List Task → Prop
  | fault (a : Nat) (n : Bool) : PutsBack s rest k (.resolve a n k) rest
  | faultExit (a : Nat) (n : Bool) (page : Page) (file : File) (entry : s.pageLookup s.current (a / pgSize) = some page)
      (isFile : page.f = some file) (short : (s.files file).length < page.loadFilepos + page.loadReadBytes) :
      PutsBack s rest k (.resolve a n k) [.exit]
  | setup (file : File) : PutsBack s rest k (.setupInstall file k) [.exit]

inductive Moves (label : Label) (s : State) : State → Prop
  | enter {pid pagedir userEsp tasks} (idle : s.tasks = [])
      (live : pid ∈ s.processes) (same : core pagedir = core s.pagedir)
      (isTask : (∃ a n, tasks = [.fault a n]) ∨ tasks = [.exit] ∨ ∃ mi ∈ s.mmapList pid, tasks = [.munmap mi 0]) :
      Moves label s { s with pagedir := pagedir, userEsp := userEsp, current := pid, tasks := tasks }
  | read {pagedir userEsp} (idle : s.tasks = []) (same : core pagedir = core s.pagedir) :
      Moves label s { s with pagedir := pagedir, userEsp := userEsp }
  | store {pid u pte ofs byte pagedir} (idle : s.tasks = [])
      (found : core s.pagedir pid u = some pte) (present : pte.present = true) (writable : pte.writable = true)
      (inside : ofs < pgSize) (changes : Changes s.pagedir pagedir pid u { pte with dirty := true })
      (isAccess : ∃ addr esp, label = .access pid addr (some byte) esp) :
      Moves label s ({ s with pagedir := pagedir }.store pid u pte.kpage ofs byte)
  | load {pid file s'} (idle : s.tasks = []) (fresh : pid ∉ s.processes)
      (added : Added (OfExecutable file) pid (s.newProcess pid file) s') : Moves label s s'
  | mmap {pid} {mi : MmapElem} {s'} (idle : s.tasks = []) (live : pid ∈ s.processes) (mid : mi.mid = s.nextMid pid)
      (whole : mi.readBytes = (s.files mi.f).length) (inside : mi.startVaddr + mi.pages ≤ userPages)
      (absent : ∀ count < mi.pages, s.pageLookup pid (mi.startVaddr + count) = none)
      (added : Added (OfMapping mi) pid (s.addMapping pid mi) s')
      (all : ∀ count < mi.pages, (s'.pageLookup pid (mi.startVaddr + count)).isSome)
      (isMmap : ∃ buffer, label = .mmap pid mi.f buffer) : Moves label s s'
  | silent {task rest next} (top : s.tasks = task :: rest) (silent : Silent s task rest next) :
      Moves label s { s with tasks := next }
  | take {task next rest k} (top : s.tasks = task :: rest) (takes : Takes task k next)
      (free : s.usedMap[k]? = some false) :
      Moves label s { s with
        usedMap := s.usedMap.set k true
        memory := update s.memory k fun _ => 0
        tasks := next :: rest }
  | lose {a n k rest} (top : s.tasks = .resolve a n k :: rest)
      (illegal : s.pageLookup s.current (a / pgSize) = none ∧ s.growsStack s.current a = false ∨
        (s.pageLookup s.current (a / pgSize)).isSome ∧ n = false) :
      Moves label s { s with tasks := [.exit] }
  | putBack {task rest next k pagedir} (top : s.tasks = task :: rest)
      (puts : PutsBack s rest k task next) (same : core pagedir = core s.pagedir) :
      Moves label s { s with
        pagedir := pagedir
        usedMap := s.usedMap.set k false
        memory := update s.memory k fun _ => 0xcc
        tasks := next }
  | toSwap {task next rest victim page pte index pagedir frameTable swapTable swapDisk} (top : s.tasks = task :: rest)
      (evicts : Evicts page task next) (isVictim : State.victim { s with tasks := rest } = some victim)
      (perm : s.frameTable.Perm (victim :: frameTable))
      (entry : s.pageLookup victim.pd victim.vaddr = some page)
      (found : core s.pagedir victim.pd victim.vaddr = some pte) (present : pte.present = true)
      (changes : Changes s.pagedir pagedir victim.pd victim.vaddr { pte with present := false })
      (slot : TakesSlot s (s.memory pte.kpage) index swapTable swapDisk) :
      Moves label s { s.replacePage victim.pd victim.vaddr { page with swapOuted := true, swapIndex := index } with
        pagedir := pagedir
        frameTable := frameTable
        usedMap := s.usedMap.set pte.kpage false
        memory := update s.memory pte.kpage fun _ => 0xcc
        swapTable := swapTable
        swapDisk := swapDisk
        tasks := next :: rest }
  | toFile {a n rest victim page pte pagedir frameTable files swapTable}
      (top : s.tasks = .evict a n :: rest) (mapped : page.mmaped = true)
      (isVictim : State.victim { s with tasks := rest } = some victim)
      (perm : s.frameTable.Perm (victim :: frameTable)) (entry : s.pageLookup victim.pd victim.vaddr = some page)
      (found : core s.pagedir victim.pd victim.vaddr = some pte) (present : pte.present = true)
      (changes : Changes s.pagedir pagedir victim.pd victim.vaddr { pte with present := false, dirty := false })
      (written : pte.dirty = false ∧ files = s.files ∨ ∃ file, page.f = some file ∧
        (s.fileWriteAt file (s.memory pte.kpage) page.loadReadBytes page.loadFilepos).1 = page.loadReadBytes ∧
        files = (s.fileWriteAt file (s.memory pte.kpage) page.loadReadBytes page.loadFilepos).2.files)
      (reserved : swapTable = s.swapTable ∧ (∀ i : Nat, s.swapTable[i]? ≠ some false) ∨
        ∃ index : Nat, s.swapTable[index]? = some false ∧ swapTable = s.swapTable.set index true) :
      Moves label s { s with
        pagedir := pagedir
        frameTable := frameTable
        files := files
        swapTable := swapTable
        usedMap := s.usedMap.set pte.kpage false
        memory := update s.memory pte.kpage fun _ => 0xcc
        tasks := .evicted a n :: rest }
  | grow {a n k rest pagedir}
      (top : s.tasks = .resolve a n k :: rest) (absent : s.pageLookup s.current (a / pgSize) = none)
      (inside : a / pgSize < userPages)
      (changes : Changes s.pagedir pagedir s.current (a / pgSize) (.fresh k true)) :
      Moves label s { s.addPage s.current (a / pgSize) zeroPage with
        pagedir := pagedir
        frameTable := s.frameTable ++ [⟨s.current, a / pgSize⟩]
        tasks := rest }
  | lazyLoad {a k rest page file pagedir}
      (top : s.tasks = .resolve a true k :: rest) (entry : s.pageLookup s.current (a / pgSize) = some page)
      (notSwapped : page.swapOuted = false) (isFile : page.f = some file)
      (whole : (s.fileReadAt file (s.memory k) page.loadReadBytes page.loadFilepos).1 = page.loadReadBytes)
      (absent : s.pagedirGetPage s.current (a / pgSize) = none)
      (changes : Changes s.pagedir pagedir s.current (a / pgSize) (.fresh k page.writable)) :
      Moves label s { s with
        pagedir := pagedir
        memory := update s.memory k (s.fileReadAt file (s.memory k) page.loadReadBytes page.loadFilepos).2
        frameTable := s.frameTable ++ [⟨s.current, a / pgSize⟩]
        tasks := rest }
  | swapIn {a k rest page index pagedir}
      (top : s.tasks = .resolve a true k :: rest) (entry : s.pageLookup s.current (a / pgSize) = some page)
      (swapped : page.swapOuted = true) (isSlot : page.swapIndex = some index)
      (absent : s.pagedirGetPage s.current (a / pgSize) = none)
      (changes : Changes s.pagedir pagedir s.current (a / pgSize) (.fresh k page.writable)) :
      Moves label s { s.replacePage s.current (a / pgSize) { page with swapOuted := false, swapIndex := some 0 } with
        pagedir := pagedir
        memory := update s.memory k (s.swapRead index (s.memory k))
        swapTable := s.swapTable.set index false
        frameTable := s.frameTable ++ [⟨s.current, a / pgSize⟩]
        tasks := rest }
  | setupInstall {file k rest pagedir userEsp}
      (top : s.tasks = .setupInstall file k :: rest)
      (absent : s.pagedirGetPage s.current stackPage = none)
      (changes : Changes s.pagedir pagedir s.current stackPage { Pte.fresh k true with dirty := true }) :
      Moves label s { s.addPage s.current stackPage zeroPage with
        pagedir := pagedir
        userEsp := userEsp
        frameTable := s.frameTable ++ [⟨s.current, stackPage⟩]
        execFile := update s.execFile s.current (some file)
        tasks := rest }
  | munmapEnd {mi count rest} (top : s.tasks = .munmap mi count :: rest)
      (all : mi.readBytes ≤ count * pgSize) :
      Moves label s { s with
        mmapList := update s.mmapList s.current ((s.mmapList s.current).erase mi)
        tasks := rest }
  | munmapWrite {mi count rest k pagedir}
      (top : s.tasks = .munmapWrite mi count :: rest)
      (present : s.pagedirGetPage s.current (mi.startVaddr + count) = some k) (same : core pagedir = core s.pagedir) :
      Moves label s { s with
        pagedir := pagedir
        files := (s.fileWriteAt mi.f (s.memory k) (realReadBytes mi count) (count * pgSize)).2.files
        tasks := .munmapDelete mi count :: rest }
  | munmapAbsent {mi count rest} (top : s.tasks = .munmapDelete mi count :: rest)
      (absent : s.pagedirGetPage s.current (mi.startVaddr + count) = none) :
      Moves label s { s with
        supplementaryPageTable := update s.supplementaryPageTable s.current
          ((s.supplementaryPageTable s.current).erase (mi.startVaddr + count))
        tasks := .munmap mi (count + 1) :: rest }
  | munmapPresent {mi count rest pte pagedir}
      (top : s.tasks = .munmapDelete mi count :: rest)
      (found : core s.pagedir s.current (mi.startVaddr + count) = some pte) (present : pte.present = true)
      (changes : Changes s.pagedir pagedir s.current (mi.startVaddr + count) { pte with present := false }) :
      Moves label s { s with
        pagedir := pagedir
        frameTable := s.frameTable.erase ⟨s.current, mi.startVaddr + count⟩
        usedMap := s.usedMap.set pte.kpage false
        memory := update s.memory pte.kpage fun _ => 0xcc
        supplementaryPageTable := update s.supplementaryPageTable s.current
          ((s.supplementaryPageTable s.current).erase (mi.startVaddr + count))
        tasks := .munmap mi (count + 1) :: rest }
  | teardown {rest usedMap memory} (top : s.tasks = .exit :: rest)
      (noMappings : s.mmapList s.current = [])
      (freed : ∀ k, usedMap[k]? = some true ↔ s.usedMap[k]? = some true ∧ ∀ u, s.pagedirGetPage s.current u ≠ some k)
      (kept : ∀ k, (∀ u, s.pagedirGetPage s.current u ≠ some k) → memory k = s.memory k) :
      Moves label s { s with
        execFile := update s.execFile s.current none
        frameTable := s.frameTable.filter fun i => decide (i.pd ≠ s.current)
        supplementaryPageTable := update s.supplementaryPageTable s.current ∅
        pagedir := update s.pagedir s.current ∅
        usedMap := usedMap
        memory := memory
        processes := s.processes.erase s.current
        tasks := [] }

/-! ## Evictions -/

variable {label : Label}

theorem scanAndFlip_none {b : Bitmap} (none : bitmapScanAndFlip b 0 1 false = none) (i : Nat) :
    b[i]? ≠ some false := by
  intro clear
  cases list : clearBits b with
  | nil =>
    have member := mem_clearBits.mpr clear
    simp [list] at member
  | cons j rest => simp [bitmapScanAndFlip_cons list] at none

theorem swapTableScanAndFlip_cases (s : State) : (∃ index : Nat, s.swapTable[index]? = some false ∧
      s.swapTableScanAndFlip = (some index, { s with swapTable := s.swapTable.set index true })) ∨
    (∀ i : Nat, s.swapTable[i]? ≠ some false) ∧ s.swapTableScanAndFlip = (none, s) := by
  unfold swapTableScanAndFlip
  split
  next full => exact .inr ⟨scanAndFlip_none full, rfl⟩
  next index swapTable found =>
    obtain ⟨clear, rfl⟩ := bitmapScanAndFlip_some found
    exact .inl ⟨index, clear, rfl⟩

variable {pd : Pid} {u : Upage} {s : State} {k : Kpage}

theorem pagedirGetPage_some (got : s.pagedirGetPage pd u = some k) :
    ∃ pte, core s.pagedir pd u = some pte ∧ pte.present = true ∧ pte.kpage = k := by
  rw [pagedirGetPage_eq] at got
  obtain ⟨pte, found, isPage⟩ := bind_eq_some_iff.mp got
  split_ifs at isPage with present
  exact ⟨pte, found, present, some.inj isPage⟩

variable {pte : Pte}

theorem core_updatePte_here {change : Pte → Pte} (found : core s.pagedir pd u = some pte)
    (commutes : ∀ pte, (change pte).core = change pte.core) :
    core (s.updatePte pd u change).pagedir pd u = some (change pte) := by
  rw [core_updatePte_self]
  simp only [commutes]
  obtain ⟨raw, isRaw, rfl⟩ := map_eq_some_iff.mp found
  simp [lookupPage, isRaw]

variable {old : Pid → Pagedir} {s' : State}

/-- `pagedir_clear_page`, with other changes to accessed and stack bits. -/
theorem Changes.clear (same : core s.pagedir = core old) (found : core old pd u = some pte) :
    Changes old (s.pagedirClearPage pd u).pagedir pd u { pte with present := false } where
  here := core_updatePte_here (same ▸ found) fun _ => rfl
  elsewhere pd' u' other := by
    rw [← same]
    exact core_updatePte_ne _ other

theorem Changes.setDirty (dirty : Bool) (changes : Changes old s.pagedir pd u pte) :
    Changes old (s.pagedirSetDirty pd u dirty).pagedir pd u { pte with dirty := dirty } where
  here := core_updatePte_here changes.here fun _ => rfl
  elsewhere pd' u' other := by
    rw [← changes.elsewhere pd' u' other]
    exact core_updatePte_ne _ other

theorem Changes.setPage (k : Kpage) (writable : Bool) (same : core s.pagedir = core old) :
    Changes old (s.pagedirSetPage pd u k writable).pagedir pd u (.fresh k writable) where
  here := by simp [core, pagedirSetPage, Pte.fresh, Pte.core]
  elsewhere pd' u' other := by
    rw [← same]
    exact core_setPage_ne k writable other

theorem Changes.congr {new new' : Pid → Pagedir} (changes : Changes old new pd u pte) (same : core new' = core new) :
    Changes old new' pd u pte := by
  constructor
  · rw [same]
    exact changes.here
  · rw [same]
    exact changes.elsewhere

/-- The slot that the eviction takes, if there is one, and the victim. -/
theorem scan_findVictim (page : FrameElem → Option Nat → State → Option State)
    (evicted : (s.swapTableScanAndFlip.2.frameTableFindVictim.bind fun found =>
      page found.1 s.swapTableScanAndFlip.1 found.2) = some s') :
    ∃ victim index pagedir frameTable swapTable,
      page victim index { s with pagedir := pagedir, frameTable := frameTable, swapTable := swapTable } = some s' ∧
      s.victim = some victim ∧ core pagedir = core s.pagedir ∧ s.frameTable.Perm (victim :: frameTable) ∧
      (∀ i : Nat, index = some i → s.swapTable[i]? = some false ∧ swapTable = s.swapTable.set i true) ∧
      (index = none → swapTable = s.swapTable ∧ ∀ i : Nat, s.swapTable[i]? ≠ some false) := by
  obtain ⟨⟨victim, u⟩, isVictim, evicted⟩ := bind_eq_some_iff.mp evicted
  have takes : s.victim = some victim := by
    rw [State.victim, isVictim]
    rfl
  obtain ⟨pagedir, frameTable, rfl, same, perm, -⟩ := frameTableFindVictim_some isVictim
  obtain ⟨i, clear, scanned⟩ | ⟨full, scanned⟩ := swapTableScanAndFlip_cases s
  · rw [scanned] at evicted same perm
    exact ⟨victim, _, _, _, _, evicted, takes, same, perm, by rintro _ ⟨⟩; exact ⟨clear, rfl⟩, nofun⟩
  · rw [scanned] at evicted same perm
    exact ⟨victim, _, _, _, _, evicted, takes, same, perm, nofun, fun _ => ⟨rfl, full⟩⟩

variable {rest : List Task} {a : Nat} {n : Bool}

theorem evict_moves (top : s.tasks = .evict a n :: rest) (evicted : { s with tasks := rest }.evict = some s') :
    Moves label s { s' with tasks := .evicted a n :: s'.tasks } := by
  obtain ⟨victim, swappingIndex, pagedir, frameTable, swapTable, evicted, takes, same, perm, slot, full⟩ :=
    scan_findVictim (fun victim index s => s.evictPage victim index) evicted
  simp only [evictPage, bind_eq_bind, bind_eq_some_iff] at evicted
  obtain ⟨page, entry, k, got, evicted⟩ := evicted
  obtain ⟨pte, found, present, rfl⟩ := pagedirGetPage_some got
  simp only [same] at found
  have changes := Changes.clear (s := pagedirSetAccessed victim.pd victim.vaddr true
    { s with tasks := rest, pagedir := pagedir, frameTable := frameTable, swapTable := swapTable })
    ((core_setAccessed true).trans same) found
  have reserved : swapTable = s.swapTable ∧ (∀ i : Nat, s.swapTable[i]? ≠ some false) ∨
      ∃ index : Nat, s.swapTable[index]? = some false ∧ swapTable = s.swapTable.set index true := by
    cases swappingIndex with
    | none => exact .inl (full rfl)
    | some index => exact .inr ⟨index, slot index rfl⟩
  split at evicted
  next mapped =>
    split at evicted
    next isDirty =>
      simp only [bind_eq_some_iff] at evicted
      obtain ⟨file, isFile, evicted⟩ := evicted
      split_ifs at evicted with whole
      obtain ⟨-, rfl⟩ := pallocFreePage_some evicted
      exact Moves.toFile top mapped takes perm entry found present (changes.setDirty false)
        (.inr ⟨file, isFile, whole, rfl⟩) reserved
    next isClean =>
      obtain ⟨-, rfl⟩ := pallocFreePage_some evicted
      have clean : pte.dirty = false := by
        rw [pagedirIsDirty_eq, changes.here] at isClean
        simpa using isClean
      have same' : { pte with present := false, dirty := false } = { pte with present := false } := by
        rw [← clean]
      exact Moves.toFile top mapped takes perm entry found present (same' ▸ changes) (.inl ⟨clean, rfl⟩) reserved
  next notMapped =>
    simp only [bind_eq_some_iff] at evicted
    obtain ⟨t, isSwapped, evicted⟩ := evicted
    obtain ⟨page', entry', rfl⟩ := map_eq_some_iff.mp isSwapped
    obtain rfl : page = page' := some.inj (entry.symm.trans entry')
    obtain ⟨-, rfl⟩ := pallocFreePage_some evicted
    have evicts : Evicts page (.evict a n) (.evicted a n) := .fault a n (by simpa using notMapped)
    cases swappingIndex with
    | some index =>
      obtain ⟨clear, rfl⟩ := slot index rfl
      exact Moves.toSwap top evicts takes perm entry found present changes (.slot clear)
    | none =>
      obtain ⟨rfl, none⟩ := full rfl
      exact Moves.toSwap top evicts takes perm entry found present changes (.full none)

variable {file : File}

theorem setupEvict_moves (top : s.tasks = .setupEvict file :: rest)
    (evicted : { s with tasks := rest }.setupEvict = some s') :
    Moves label s { s' with tasks := .setupEvicted file :: s'.tasks } := by
  obtain ⟨victim, swappingIndex, pagedir, frameTable, swapTable, evicted, takes, same, perm, slot, full⟩ :=
    scan_findVictim (fun victim index s => s.setupEvictPage victim index) evicted
  simp only [setupEvictPage, bind_eq_bind, bind_eq_some_iff] at evicted
  obtain ⟨k, got, t, isSwapped, evicted⟩ := evicted
  obtain ⟨pte, found, present, rfl⟩ := pagedirGetPage_some got
  obtain ⟨page, entry, rfl⟩ := map_eq_some_iff.mp isSwapped
  obtain ⟨-, rfl⟩ := pallocFreePage_some evicted
  simp only [same] at found
  have changes := Changes.clear (s := pagedirSetAccessed victim.pd victim.vaddr true
    { s with tasks := rest, pagedir := pagedir, frameTable := frameTable, swapTable := swapTable })
    ((core_setAccessed true).trans same) found
  cases swappingIndex with
  | some index =>
    obtain ⟨clear, rfl⟩ := slot index rfl
    exact Moves.toSwap top (.setup file) takes perm entry found present changes (.slot clear)
  | none =>
    obtain ⟨rfl, none⟩ := full rfl
    exact Moves.toSwap top (.setup file) takes perm entry found present changes (.full none)

/-! ## The other steps -/

variable {pid : Pid}

theorem growsStack_inside (grows : s.growsStack pid a = true) : a / pgSize < userPages := by
  simp only [growsStack, Bool.and_eq_true, decide_eq_true_eq] at grows
  have below := grows.1.2
  simp only [userPages, physBase, pgSize] at below ⊢
  omega

theorem setupInstall_moves {esp : Nat} (top : s.tasks = .setupInstall file k :: rest)
    (installed : { s with tasks := rest }.setupInstall file k true esp = some s') : Moves label s s' := by
  simp only [setupInstall] at installed
  split at installed
  next absent =>
    cases installed
    refine setNewDirtyPage_cases
      (motive := fun t => Moves label s { t with execFile := update t.execFile s.current (some file) }) esp s.current ?_
    intro pagedir userEsp same
    exact Moves.setupInstall top absent.1 (((Changes.setPage k true rfl).setDirty true).congr same)
  next =>
    obtain ⟨t, freed, rfl⟩ := map_eq_some_iff.mp installed
    obtain ⟨-, rfl⟩ := pallocFreePage_some freed
    exact Moves.putBack top (.setup file) rfl

theorem teardown_moves (top : s.tasks = .exit :: rest) (noMappings : s.mmapList s.current = [])
    (torn : { s with tasks := rest }.teardown = some s') : Moves label s s' := by
  obtain ⟨t, destroyed, rfl⟩ := map_eq_some_iff.mp torn
  obtain ⟨usedMap, memory, rfl, freed, kept⟩ := pagedirDestroy_some destroyed
  exact Moves.teardown top noMappings freed kept

theorem access_moves {addr esp : Nat} {write : Option UInt8} (idle : s.tasks = []) (live : pid ∈ s.processes) :
    Moves (.access pid addr write esp) s (s.access pid addr write esp) := by
  have faults : ∀ n, Moves (.access pid addr write esp) s
      { s.setNewDirtyPage esp pid with current := pid, tasks := [.fault addr n] } := by
    intro n
    exact setNewDirtyPage_cases
      (motive := fun t => Moves (.access pid addr write esp) s { t with current := pid, tasks := [.fault addr n] })
        esp pid
      fun _ _ same => Moves.enter idle live same (.inl ⟨addr, n, rfl⟩)
  simp only [access]
  match isPte : s.lookupPage pid (addr / pgSize) with
  | none | some ⟨false, _, _, _, _, _⟩ => exact faults true
  | some ⟨true, k, writable, dirty, accessed, stack⟩ =>
    simp only
    split
    · exact Moves.read idle (core_setAccessed true)
    rename_i byte
    split
    next isWritable =>
      have found : core s.pagedir pid (addr / pgSize) = some ⟨true, k, writable, dirty, false, false⟩ := by
        simp only [core]
        rw [show (s.pagedir pid).lookup (addr / pgSize) = _ from isPte]
        rfl
      have before : Changes s.pagedir (s.pagedirSetAccessed pid (addr / pgSize) true).pagedir pid (addr / pgSize)
          ⟨true, k, writable, dirty, false, false⟩ := by
        constructor
        · rw [core_setAccessed, found]
        · intro pd' u' _
          rw [core_setAccessed]
      exact Moves.store idle found rfl isWritable (mod_lt _ (by decide)) (before.setDirty true) ⟨addr, esp, rfl⟩
    next => exact faults false

theorem mmap_moves {buffer : Nat} (idle : s.tasks = []) (live : pid ∈ s.processes)
    (mapped : s.mmap pid file buffer = some s') : Moves (.mmap pid file buffer) s s' := by
  simp only [mmap] at mapped
  split at mapped
  · cases mapped
    exact Moves.enter idle live rfl (.inr (.inl rfl))
  split at mapped
  · cases mapped
    exact Moves.read idle rfl
  split at mapped
  · cases mapped
    exact Moves.read idle rfl
  rename_i absent
  split_ifs at mapped with inside
  cases mapped
  have whole : ∀ pages, 0 + pages ≤ pages := fun pages => le_of_eq (zero_add pages)
  refine Moves.mmap idle live rfl rfl (not_lt.mp inside) ?_ (mmapPages_added _ _ _ _ _ (whole _)) ?_ ⟨buffer, rfl⟩
  · intro count small
    have none := mt (fun isSome => List.any_eq_true.mpr ⟨count, List.mem_range.mpr small, isSome⟩) absent
    simpa using none
  · intro count small
    exact mmapPages_isSome _ _ _ _ _ (whole _) (zero_le count) (by rwa [zero_add])

theorem load_added {segments : List Segment} (file : File)
    (inside : (segments.all fun segment => decide (segment.upage + segment.pages ≤ userPages)) = true) :
    Added (OfExecutable file) pid (s.newProcess pid file) (s.load pid file segments) := by
  apply Added.foldl
  intro segment member t
  apply loadSegment_added
  simpa using List.all_eq_true.mp inside segment member

theorem enter_moves (idle : s.tasks = []) (entered : enter label s = some s') : Moves label s s' := by
  cases label with simp only [enter] at entered
  | load pid file segments =>
    split_ifs at entered with fresh
    cases entered
    exact Moves.load idle fresh.1 (load_added _ fresh.2)
  | access pid addr write esp =>
    split_ifs at entered with live
    cases entered
    exact access_moves idle live
  | syscall pid esp =>
    split_ifs at entered with live
    cases entered
    exact setNewDirtyPage_cases esp pid fun _ _ same => Moves.read idle same
  | mmap pid file buffer =>
    split_ifs at entered with live
    exact mmap_moves idle live entered
  | munmap pid mid =>
    split_ifs at entered with live
    split at entered <;> cases entered
    next mi found => exact Moves.enter idle live rfl (.inr (.inr ⟨mi, List.mem_of_find?_eq_some found, rfl⟩))
    next => exact Moves.read idle rfl
  | exit pid =>
    split_ifs at entered with live
    cases entered
    exact Moves.enter idle live rfl (.inr (.inl rfl))
  | go memory => cases entered

section

variable {s s' : State} (h : Isolated s)

include h

theorem Isolated.getPage_none (absent : s.pageLookup pd u = none) : s.pagedirGetPage pd u = none := by
  cases got : s.pagedirGetPage pd u with
  | none => rfl
  | some k =>
    obtain ⟨page, entry, -⟩ := h.resident pd u k got
    rw [absent] at entry
    cases entry

variable {rest : List Task} {esp : Nat}

theorem resolve_moves (top : s.tasks = .resolve a n k :: rest)
    (resolved : { s with tasks := rest }.resolve a n k ⟨true, true, true, esp⟩ = some s') : Moves label s s' := by
  simp only [resolve, if_true] at resolved
  split at resolved
  next absent =>
    split at resolved
    next grows =>
      have missing : s.pagedirGetPage s.current (a / pgSize) = none := h.getPage_none absent
      simp only [growStack] at resolved
      split at resolved
      next =>
        cases resolved
        exact Moves.grow top absent (growsStack_inside grows) (Changes.setPage k true rfl)
      next present => exact absurd ⟨missing, trivial⟩ present
    next grows =>
      cases resolved
      exact Moves.lose top (.inl ⟨absent, Bool.eq_false_of_not_eq_true grows⟩)
  next page entry =>
    split at resolved
    next notPresent =>
      subst notPresent
      split at resolved
      next swapped =>
        simp only [swapIn] at resolved
        split at resolved
        next absent =>
          simp only [bind_eq_bind, bind_eq_some_iff] at resolved
          obtain ⟨t, isSwapped, index, isSlot, resolved⟩ := resolved
          obtain ⟨page', entry', rfl⟩ := map_eq_some_iff.mp isSwapped
          obtain rfl : page = page' := some.inj (entry.symm.trans entry')
          rw [isSlot] at resolved
          cases resolved
          exact Moves.swapIn top entry swapped isSlot absent.1 (Changes.setPage k page.writable rfl)
        next =>
          obtain ⟨-, rfl⟩ := pallocFreePage_some resolved
          simp only [pagedirSetAccessed, updatePte, update_idem]
          exact Moves.putBack top (.fault a true) (core_setAccessed (s := s) true)
      next notSwapped =>
        simp only [lazyLoad, bind_eq_bind, bind_eq_some_iff] at resolved
        obtain ⟨file, isFile, resolved⟩ := resolved
        split at resolved
        next notWhole =>
          obtain ⟨t, freed, rfl⟩ := map_eq_some_iff.mp resolved
          obtain ⟨-, rfl⟩ := pallocFreePage_some freed
          simp only [threadExit, update_idem]
          have short : (s.files file).length < page.loadFilepos + page.loadReadBytes := by
            simp only [fileReadAt] at notWhole
            omega
          exact Moves.putBack top (.faultExit a true page file entry isFile short) rfl
        next whole =>
          split at resolved
          next absent =>
            cases resolved
            exact Moves.lazyLoad top entry (Bool.eq_false_of_not_eq_true notSwapped) isFile
              (Decidable.not_not.mp whole) absent.1 (Changes.setPage k page.writable rfl)
          next =>
            obtain ⟨-, rfl⟩ := pallocFreePage_some resolved
            simp only [pagedirSetAccessed, updatePte, update_idem]
            exact Moves.putBack top (.fault a true) (core_setAccessed (s := s) true)
    next present =>
      cases resolved
      exact Moves.lose top (.inr ⟨isSome_iff_exists.mpr ⟨page, entry⟩, Bool.eq_false_of_not_eq_true present⟩)

theorem munmapDelete_moves {mi : MmapElem} {count : Nat} (top : s.tasks = .munmapDelete mi count :: rest)
    (deleted : { s with tasks := rest }.munmapDelete mi count = some s') :
    Moves label s { s' with tasks := .munmap mi (count + 1) :: s'.tasks } := by
  obtain ⟨t, removed, rfl⟩ := map_eq_some_iff.mp deleted
  cases got : s.pagedirGetPage s.current (mi.startVaddr + count) with
  | none =>
    have absent : ⟨s.current, mi.startVaddr + count⟩ ∉ s.frameTable := by
      intro member
      obtain ⟨k, isPage⟩ := (h.framed _ _).mp member
      rw [got] at isPage
      cases isPage
    rw [frameElemDelete_absent (s := { s with tasks := rest }) absent] at removed
    cases removed
    exact Moves.munmapAbsent top got
  | some k =>
    have member := (h.framed _ _).mpr ⟨k, got⟩
    obtain ⟨-, rfl⟩ := frameElemDelete_present (s := { s with tasks := rest }) h.nodup member got removed
    obtain ⟨pte, found, present, rfl⟩ := pagedirGetPage_some got
    exact Moves.munmapPresent top found present (Changes.clear rfl found)

theorem run_moves {task : Task} (top : s.tasks = task :: rest)
    (ran : { s with tasks := rest }.run task ⟨true, true, true, esp⟩ = some s') : Moves label s s' := by
  cases task with simp only [run] at ran
  | fault a n =>
    split at ran <;> cases ran
    next k t got =>
      obtain ⟨free, rfl⟩ := pallocGetPage_some got
      exact Moves.take top (.fault a n k) free
    next => exact Moves.silent top (.full a n rest)
  | evict a n =>
    obtain ⟨t, evicted, rfl⟩ := map_eq_some_iff.mp ran
    exact evict_moves top evicted
  | evicted a n =>
    split at ran <;> cases ran
    next k t got =>
      obtain ⟨free, rfl⟩ := pallocGetPage_some got
      exact Moves.take top (.evicted a n k) free
    next => exact Moves.silent top (.fullAgain a n rest)
  | resolve a n k => exact resolve_moves h top ran
  | setup file =>
    split at ran <;> cases ran
    next k t got =>
      obtain ⟨free, rfl⟩ := pallocGetPage_some got
      exact Moves.take top (.setup file k) free
    next => exact Moves.silent top (.setupFull file rest)
  | setupEvict file =>
    obtain ⟨t, evicted, rfl⟩ := map_eq_some_iff.mp ran
    exact setupEvict_moves top evicted
  | setupEvicted file =>
    split at ran <;> cases ran
    next k t got =>
      obtain ⟨free, rfl⟩ := pallocGetPage_some got
      exact Moves.take top (.setupEvicted file k) free
    next => exact Moves.silent top (.setupFullAgain file rest)
  | setupInstall file k => exact setupInstall_moves top ran
  | munmap mi count =>
    split at ran
    next all =>
      cases ran
      exact Moves.munmapEnd top all
    next more =>
      split at ran <;> cases ran
      next dirty => exact Moves.silent top (.dirty mi count rest (not_le.mp more) dirty)
      next clean =>
        exact Moves.silent top (.clean mi count rest (not_le.mp more) (Bool.eq_false_of_not_eq_true clean))
  | munmapWrite mi count =>
    split at ran <;> cases ran
    next k got => exact Moves.munmapWrite top got (core_setAccessed (s := s) true)
    next absent => exact Moves.silent top (.absent mi count rest absent)
  | munmapDelete mi count =>
    obtain ⟨t, deleted, rfl⟩ := map_eq_some_iff.mp ran
    exact munmapDelete_moves h top deleted
  | exit =>
    split at ran
    next mi more list =>
      cases ran
      exact Moves.silent top (.exit mi rest (by rw [list]; exact List.mem_cons_self ..))
    next list => exact teardown_moves top list ran

theorem step_moves (available : memoryAvailable label s) (stepped : step label s = some s') : Moves label s s' := by
  unfold step at stepped
  split at stepped
  next task rest memory top =>
    obtain ⟨lookup, entry, table, esp⟩ := memory
    obtain ⟨rfl, rfl, rfl⟩ : lookup = true ∧ entry = true ∧ table = true := available
    exact run_moves h top stepped
  next idle => exact enter_moves idle stepped
  next => cases stepped

end

end Pintos.Vm
