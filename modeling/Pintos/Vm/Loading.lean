import Pintos.Vm.Isolation

/-! # Processes that are being set up

Until `load` has set up its stack, a process has no page in memory or on the swap disk, and no mappings.  Afterwards its
executable cannot be written.
-/

namespace Pintos.Vm

open Kernel Library Function State

/-- The executable that the task is loading. -/
def Task.file : Task → Option File
  | .setup file | .setupEvict file | .setupEvicted file | .setupInstall file _ => some file
  | _ => none

structure Loading (s : State) : Prop where
  below : ∀ task rest, s.tasks = task :: rest → ∀ other ∈ rest, other.file = none
  fresh : ∀ task rest, s.tasks = task :: rest → task.file.isSome → s.mmapList s.current = [] ∧
    s.execFile s.current = none ∧ ∀ u, s.frameOf ⟨s.current, u⟩ = none ∧ s.slotOf ⟨s.current, u⟩ = none

variable {file : File} {pid : Pid} {label : Label}

section Steps

variable {s s' : State} {task next : Task} {rest : List Task}

/-- No task is loading. -/
theorem Loading.quiet (none : ∀ task ∈ s.tasks, task.file = none) : Loading s where
  below task rest top other member := none other (by rw [top]; exact List.mem_cons_of_mem _ member)
  fresh task rest top isLoading := by
    rw [none task (by rw [top]; exact List.mem_cons_self ..)] at isLoading
    cases isLoading

section

variable (h : Loading s) (top : s.tasks = task :: rest)

include h top

theorem Loading.popped (tasks : s'.tasks = rest) : Loading s' := by
  apply Loading.quiet
  rw [tasks]
  exact h.below task rest top

/-- The topmost task goes on to one that is loading no executable. -/
theorem Loading.replaced (tasks : s'.tasks = next :: rest)
    (notLoading : next.file = none) : Loading s' := by
  apply Loading.quiet
  rw [tasks]
  intro other member
  cases member with
  | head => exact notLoading
  | tail _ member => exact h.below task rest top other member

/-- `load` goes on, and no page of the process comes in. -/
theorem Loading.continued (tasks : s'.tasks = next :: rest)
    (same : next.file = task.file) (current : s'.current = s.current) (mmapList : s'.mmapList = s.mmapList)
    (execFile : s'.execFile = s.execFile)
    (kept : (∀ u, s.frameOf ⟨s.current, u⟩ = none) → ∀ u, s'.frameOf ⟨s.current, u⟩ = none ∧
      s'.slotOf ⟨s.current, u⟩ = s.slotOf ⟨s.current, u⟩) : Loading s' where
  below task' rest' top' other member := by
    rw [tasks] at top'
    cases top'
    exact h.below task rest top other member
  fresh task' rest' top' isLoading := by
    rw [tasks] at top'
    cases top'
    obtain ⟨noMappings, noFile, nothing⟩ := h.fresh task rest top (same ▸ isLoading)
    have kept := kept fun u => (nothing u).1
    rw [current, mmapList, execFile]
    refine ⟨noMappings, noFile, fun u => ⟨(kept u).1, ?_⟩⟩
    rw [(kept u).2]
    exact (nothing u).2

end

theorem Loading.load (added : Added (OfExecutable file) pid (s.newProcess pid file) s') : Loading s' := by
  obtain ⟨_, _, rfl⟩ := added.state_eq
  constructor
  · rintro task rest ⟨⟩ other member
    cases member
  · intro _ _ _ _
    refine ⟨update_self .., update_self .., fun u => ⟨?_, loaded_slotOf added u⟩⟩
    simp [frameOf, pagedirGetPage_eq, core, newProcess]

theorem Loading.moves (h : Loading s) (moves : Moves label s s') : Loading s' := by
  cases moves with
  | enter idle live same isTask =>
    apply Loading.quiet
    obtain ⟨a, n, rfl⟩ | rfl | ⟨mi, -, rfl⟩ := isTask <;>
    · intro task member
      cases List.mem_singleton.mp member
      rfl
  | read idle same | store idle =>
    apply Loading.quiet
    show ∀ task ∈ s.tasks, task.file = none
    simp [idle]
  | load idle fresh added => exact .load added
  | mmap idle live mid whole inside absent added all isMmap =>
    obtain ⟨_, _, rfl⟩ := added.state_eq
    apply Loading.quiet
    simp [addMapping, idle]
  | silent top silent =>
    cases silent with
    | full a n | dirty mi count | clean mi count => exact h.replaced top rfl rfl
    | fullAgain a n => exact h.popped top rfl
    | setupFull file => exact h.continued top rfl rfl rfl rfl rfl fun nothing u => ⟨nothing u, rfl⟩
    | setupFullAgain file => exact .quiet (by simp [Task.file])
    | absent mi count | exit mi =>
      apply Loading.quiet
      intro other member
      simp only [List.mem_cons] at member
      obtain rfl | rfl | member := member
      · rfl
      · rfl
      · exact h.below _ _ top other member
  | take top takes free =>
    cases takes with
    | fault a n | evicted a n => exact h.replaced top rfl rfl
    | setup file | setupEvicted file => exact h.continued top rfl rfl rfl rfl rfl fun nothing u => ⟨nothing u, rfl⟩
  | lose top illegal => exact .quiet (by simp [Task.file])
  | putBack top puts same =>
    cases puts with
    | fault a n => exact h.popped top rfl
    | faultExit | setup file => exact .quiet (by simp [Task.file])
  | @toSwap _ _ _ victim _ _ _ _ _ _ _ top evicts isVictim perm entry found present changes clear =>
    cases evicts with
    | fault a n notMapped => exact h.replaced top rfl rfl
    | setup file =>
      refine h.continued top rfl rfl rfl rfl rfl fun nothing u => ?_
      -- The victim is a page of another process.
      have other : ⟨s.current, u⟩ ≠ victim := by
        rintro rfl
        exact absurd ((nothing u).symm.trans (frameOf_of_found found present)) (by simp)
      exact ⟨(changes.frameOf_ne _ other).trans (nothing u), Replaces.slotOf_ne (.insert _ rfl) _ other⟩
  | toFile top | munmapWrite top | munmapAbsent top | munmapPresent top => exact h.replaced top rfl rfl
  | grow top | lazyLoad top | swapIn top | setupInstall top | munmapEnd top => exact h.popped top rfl
  | teardown top => exact .quiet (by simp)

end Steps

theorem loading_boot (poolSize swapSize : Nat) (files : File → FileData) : Loading (boot poolSize swapSize files) :=
  .quiet (by simp [boot])

/-! ## Executables -/

/-- The executable that the process in the kernel is loading. -/
def State.loading (s : State) : Option File :=
  s.tasks.head?.bind Task.file

/-- The pages of an executable are of the process that executes it, or that is loading it or has failed to. -/
def Backed (s : State) : Prop :=
  ∀ pid u page file, s.pageLookup pid u = some page → page.mmaped = false → page.f = some file →
    s.execFile pid = some file ∨
    pid = s.current ∧ (s.loading = some file ∨ s.tasks = [.exit] ∧ s.mmapList s.current = [])

/-- Pages of executables were there before. -/
def Derives (s s' : State) : Prop :=
  ∀ pid u page' file, s'.pageLookup pid u = some page' → page'.mmaped = false → page'.f = some file →
    ∃ page, s.pageLookup pid u = some page ∧ page.mmaped = false ∧ page.f = some file

section Executables

variable {s s' : State} {task next : Task} {rest : List Task} {u : Upage} {pd : Pid}

theorem loading_of_top (top : s.tasks = task :: rest) (tasks : s'.tasks = next :: rest) (same : next.file = task.file) :
    s'.loading = s.loading := by
  simp [loading, top, tasks, same]

theorem Derives.same (tables : s'.supplementaryPageTable = s.supplementaryPageTable) : Derives s s' := by
  intro pid u page' file found notMapped isFile
  rw [pageLookup, tables] at found
  exact ⟨page', found, notMapped, isFile⟩

theorem Derives.replace {page' : Option Page} (replaces : Replaces s s' pd u page')
    (here : ∀ page'', page' = some page'' → page''.f = none ∨
      ∃ page, s.pageLookup pd u = some page ∧ page.mmaped = page''.mmaped ∧ page.f = page''.f) : Derives s s' := by
  intro pid v page'' file found notMapped isFile
  by_cases same : (⟨pid, v⟩ : FrameElem) = ⟨pd, u⟩
  · cases same
    obtain noFile | ⟨page, entry, mapped, file⟩ := here page'' (replaces.here.symm.trans found)
    · rw [noFile] at isFile
      cases isFile
    · exact ⟨page, entry, mapped.trans notMapped, file.trans isFile⟩
  · exact ⟨page'', (replaces.elsewhere ⟨pid, v⟩ same).symm.trans found, notMapped, isFile⟩

theorem Derives.moved {page page' : Page} (entry : s.pageLookup pd u = some page)
    (replaces : Replaces s s' pd u (some page')) (mapped : page.mmaped = page'.mmaped) (file : page.f = page'.f) :
    Derives s s' := by
  apply Derives.replace replaces
  intro page'' isPage
  cases isPage
  exact .inr ⟨page, entry, mapped, file⟩

theorem Derives.stack (replaces : Replaces s s' pd u (some zeroPage)) : Derives s s' := by
  apply Derives.replace replaces
  intro page' isPage
  cases isPage
  exact .inl rfl

theorem Derives.erase (replaces : Replaces s s' pd u none) : Derives s s' := by
  apply Derives.replace replaces
  intro page' isPage
  cases isPage

/-- Each process has its executable. -/
def Settled (s : State) : Prop :=
  ∀ pid u page file, s.pageLookup pid u = some page → page.mmaped = false → page.f = some file →
    s.execFile pid = some file

theorem Backed.idle (h : Backed s) (idle : s.tasks = []) : Settled s := by
  intro pid u page file found notMapped isFile
  apply (h pid u page file found notMapped isFile).resolve_right
  rintro ⟨-, loads | ⟨exits, -⟩⟩
  · simp [loading, idle] at loads
  · simp [idle] at exits

theorem Backed.settled (h : Backed s) (top : s.tasks = task :: rest) (notLoading : task.file = none := by rfl)
    (running : task = .exit → s.mmapList s.current ≠ [] := by simp) : Settled s := by
  intro pid u page file found notMapped isFile
  apply (h pid u page file found notMapped isFile).resolve_right
  rintro ⟨-, loads | ⟨exits, noMappings⟩⟩
  · simp [loading, top, notLoading] at loads
  · cases top.symm.trans exits
    exact running rfl noMappings

theorem Settled.kept (h : Settled s) (derives : Derives s s') (execFile : s'.execFile = s.execFile := by rfl) :
    Backed s' := by
  intro pid u page' file found notMapped isFile
  obtain ⟨page, before, notMapped, isFile⟩ := derives pid u page' file found notMapped isFile
  rw [execFile]
  exact .inl (h pid u page file before notMapped isFile)

/-- `load` goes on, or fails. -/
theorem Backed.continued (h : Backed s) (loading : Loading s) (top : s.tasks = task :: rest)
    (isLoading : task.file.isSome) (after : s'.loading = s.loading ∨ s'.tasks = [.exit]) (derives : Derives s s')
    (execFile : s'.execFile = s.execFile := by rfl) (current : s'.current = s.current := by rfl)
    (mmapList : s'.mmapList = s.mmapList := by rfl) : Backed s' := by
  intro pid u page' file found notMapped isFile
  obtain ⟨page, before, notMapped, isFile⟩ := derives pid u page' file found notMapped isFile
  rw [execFile, current, mmapList]
  refine (h pid u page file before notMapped isFile).imp_right ?_
  rintro ⟨mine, loads | exits⟩
  · cases after with
    | inl same => exact ⟨mine, .inl (same.trans loads)⟩
    | inr exits => exact ⟨mine, .inr ⟨exits, (loading.fresh task rest top isLoading).1⟩⟩
  · cases top.symm.trans exits.1
    cases isLoading

theorem Settled.load (h : Settled s) (added : Added (OfExecutable file) pid (s.newProcess pid file) s') :
    Backed s' := by
  obtain ⟨_, _, rfl⟩ := added.state_eq
  intro q u page file' found notMapped isFile
  by_cases same : q = pid
  · obtain ⟨-, ofFile, -⟩ := (loaded_lookup added (same ▸ found)).1
    exact .inr ⟨same, .inl (ofFile.symm.trans isFile)⟩
  · rw [loaded_lookup_ne added same] at found
    exact .inl ((update_of_ne same ..).trans (h q u page file' found notMapped isFile))

theorem Settled.mmap {mi : MmapElem} (h : Settled s) (added : Added (OfMapping mi) pid (s.addMapping pid mi) s') :
    Backed s' := by
  refine h.kept ?_ (by rw [added.rest]; rfl)
  intro q u page' file found notMapped isFile
  obtain ⟨old, -⟩ | ⟨-, page, ⟨count, -, -, rfl⟩, found', -⟩ := mapped_lookup added q u
  · exact ⟨page', old ▸ found, notMapped, isFile⟩
  · cases found'.symm.trans found
    cases notMapped

/-- The end of `load`: the executable is the one that was being loaded. -/
theorem Backed.loaded {k : Kpage} (h : Backed s) (loading : Loading s) (top : s.tasks = .setupInstall file k :: rest)
    (derives : Derives s s') (execFile : s'.execFile = update s.execFile s.current (some file)) : Backed s' := by
  intro pid u page' file' found notMapped isFile
  obtain ⟨page, before, notMapped, isFile⟩ := derives pid u page' file' found notMapped isFile
  refine .inl ?_
  rw [execFile]
  cases h pid u page file' before notMapped isFile with
  | inl executes =>
    have other : pid ≠ s.current := by
      rintro rfl
      rw [(loading.fresh _ _ top rfl).2.1] at executes
      cases executes
    rw [update_of_ne other]
    exact executes
  | inr loads =>
    obtain ⟨rfl, loads | exits⟩ := loads
    · rw [update_self, ← loads, State.loading, top]
      rfl
    · cases top.symm.trans exits.1

theorem Backed.teardown (h : Backed s) {usedMap : Bitmap} {memory : Kpage → Bytes} :
    Backed (s.tornDown usedMap memory) := by
  unfold tornDown
  intro pid u page file found notMapped isFile
  have other : pid ≠ s.current := by
    rintro rfl
    simp [pageLookup] at found
  simp only [pageLookup, update_of_ne other] at found
  refine .inl ?_
  simp only [update_of_ne other]
  exact (h pid u page file found notMapped isFile).resolve_right fun mine => other mine.1

theorem Backed.moves (h : Backed s) (loading : Loading s) (moves : Moves label s s') : Backed s' := by
  cases moves with
  | enter idle | read idle | store idle => exact (h.idle idle).kept (.same rfl)
  | load idle fresh added => exact (h.idle idle).load added
  | mmap idle live mid whole inside absent added all isMmap => exact (h.idle idle).mmap added
  | silent top silent =>
    cases silent with
    | full | fullAgain | dirty | clean | absent => exact (h.settled top).kept (.same rfl)
    | setupFull file => exact h.continued loading top rfl (.inl (loading_of_top top rfl rfl)) (.same rfl)
    | setupFullAgain file => exact h.continued loading top rfl (.inr rfl) (.same rfl)
    | exit mi rest member => exact (h.settled top rfl fun _ => List.ne_nil_of_mem member).kept (.same rfl)
  | take top takes free =>
    cases takes with
    | fault | evicted => exact (h.settled top).kept (.same rfl)
    | setup | setupEvicted =>
      exact h.continued loading top rfl (.inl (loading_of_top top rfl rfl)) (.same rfl)
  | lose top | munmapEnd top | munmapWrite top | toFile top | lazyLoad top =>
    exact (h.settled top).kept (.same rfl)
  | putBack top puts same =>
    cases puts with
    | fault | faultExit => exact (h.settled top).kept (.same rfl)
    | setup file => exact h.continued loading top rfl (.inr rfl) (.same rfl)
  | toSwap top evicts isVictim perm entry found present changes clear =>
    cases evicts with
    | fault => exact (h.settled top).kept (.moved entry (.insert _ rfl) rfl rfl)
    | setup =>
      exact h.continued loading top rfl (.inl (loading_of_top top rfl rfl)) (.moved entry (.insert _ rfl) rfl rfl)
  | grow top => exact (h.settled top).kept (.stack (.insert _ rfl))
  | swapIn top entry => exact (h.settled top).kept (.moved entry (.insert _ rfl) rfl rfl)
  | setupInstall top => exact h.loaded loading top (.stack (.insert _ rfl)) rfl
  | munmapAbsent top | munmapPresent top => exact (h.settled top).kept (.erase (.erase rfl))
  | teardown top => exact h.teardown

end Executables

theorem backed_boot (poolSize swapSize : Nat) (files : File → FileData) : Backed (boot poolSize swapSize files) := by
  intro pid u page file found
  cases found

end Pintos.Vm
