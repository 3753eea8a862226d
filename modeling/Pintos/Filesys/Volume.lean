import Pintos.Filesys.Extension
import Pintos.Filesys.Persistence

/-! # The files of a disk

What the inode layer is for: a volume is a set of files, each with a length and the bytes of its data sectors, and a
free map that says which sectors they take.  The operations on a volume say what the functions of `inode.c` do to the
files; which sectors a file gets is fixed by the free map, and nothing depends on what a free sector holds.  The free
map file is a file like the others, but every change of the free map is also written to it.
-/

namespace Pintos.Filesys

open Library Kernel Function List

/-- A file: the sectors of its blocks after the first one and of its data, its length, and the bytes of its data
    sectors.  Those past the length are there too, since an extension may bring them into the file. -/
structure File where
  blocks : List Word
  data : List Word
  length : Nat
  bytes : List UInt8

/-- An open inode, without the block in memory. -/
structure Handle where
  sector : Word
  openCnt : Nat
  removed : Bool
  denyWriteCnt : Nat
  deriving DecidableEq

/-- The files are found by the sector of their first block. -/
structure Volume where
  freeMap : Bitmap
  files : Word → Option File
  handles : List Handle

namespace File

def empty : File where
  blocks := []
  data := []
  length := 0
  bytes := []

/-- The sectors of a file whose first block is at `head`. -/
def sectors (head : Word) (f : File) : List Word :=
  head :: (f.blocks ++ f.data)

/-- How many sectors are added to reach a length. -/
def growth (f : File) (newLength : Nat) : Nat :=
  bytesToSectors newLength - f.data.length

/-- How many sectors this takes, with those of new blocks. -/
def needs (f : File) (newLength : Nat) : Nat :=
  growthSectors (usedSlots f.blocks f.data) (f.growth newLength)

def grow (f : File) (newLength : Nat) (taken : List Word) : File where
  blocks := f.blocks ++ (carve (usedSlots f.blocks f.data) (f.growth newLength) taken).1
  data := f.data ++ (carve (usedSlots f.blocks f.data) (f.growth newLength) taken).2
  length := newLength
  bytes := f.bytes ++ replicate (512 * f.growth newLength) 0

def overwrite (f : File) (offset : Nat) (buffer : List UInt8) : File :=
  { f with bytes := splice f.bytes offset buffer }

/-- What `inode_read_at` reads. -/
def read (f : File) (size offset : Nat) : List UInt8 :=
  slice f.bytes offset (min size (f.length - offset))

/-- The file after the free map has been written to its file. -/
def mapStored (freeMap : Bitmap) (head : Word) (f : File) : File :=
  if head = freeMapSector then f.overwrite 0 (bitmapBytes freeMap) else f

section MapStored

variable (freeMap : Bitmap) (head : Word) (f : File)

@[simp] theorem mapStored_blocks : (f.mapStored freeMap head).blocks = f.blocks := by
  unfold mapStored
  split <;> rfl

@[simp] theorem mapStored_data : (f.mapStored freeMap head).data = f.data := by
  unfold mapStored
  split <;> rfl

@[simp] theorem mapStored_length : (f.mapStored freeMap head).length = f.length := by
  unfold mapStored
  split <;> rfl

@[simp] theorem mapStored_sectors : (f.mapStored freeMap head).sectors head = f.sectors head := by
  simp [sectors]

theorem mapStored_other (other : head ≠ freeMapSector) : f.mapStored freeMap head = f :=
  if_neg other

end MapStored

variable {head s : Word} {f : File}

theorem block_mem (member : s ∈ head :: f.blocks) : s ∈ f.sectors head := by
  rw [sectors, ← cons_append]
  exact mem_append_left _ member

theorem data_mem (member : s ∈ f.data) : s ∈ f.sectors head :=
  mem_cons_of_mem _ (mem_append_right _ member)

end File

namespace Volume

/-- The free map is changed, and written to its file. -/
def setMap (a : Volume) (freeMap : Bitmap) : Volume :=
  { a with freeMap := freeMap, files := fun head => (a.files head).map (File.mapStored freeMap head) }

/-- The file at `head` after some sectors have been taken, one by one, or none. -/
def kept (a : Volume) (taken : List Word) (head : Word) (f : File) : File :=
  if taken = [] then f else f.mapStored (markAll a.freeMap taken) head

def take (a : Volume) (taken : List Word) : Volume :=
  { a with freeMap := markAll a.freeMap taken, files := fun head => (a.files head).map (a.kept taken head) }

def put (a : Volume) (head : Word) (f : File) : Volume :=
  { a with files := update a.files head (some f) }

/-- The sectors the next allocations will give. -/
def next (a : Volume) (count : Nat) : List Word :=
  (freeSectors a.freeMap).take count

/-- A file is extended to a new length. -/
def extend (a : Volume) (head : Word) (newLength : Nat) : Volume :=
  match a.files head with
  | none => a
  | some f =>
    let taken := a.next (f.needs newLength)
    (a.take taken).put head ((a.kept taken head f).grow newLength taken)

def overwrite (a : Volume) (head : Word) (offset : Nat) (buffer : List UInt8) : Volume :=
  match a.files head with
  | none => a
  | some f => a.put head (f.overwrite offset buffer)

theorem overwrite_eq {a : Volume} {head : Word} {f : File} (found : a.files head = some f) (offset : Nat)
    (buffer : List UInt8) : a.overwrite head offset buffer = a.put head (f.overwrite offset buffer) := by
  rw [overwrite, found]

/-- `inode_write_at` -/
def write (a : Volume) (head : Word) (buffer : List UInt8) (offset : Nat) : Volume :=
  match a.files head with
  | none => a
  | some f =>
    if offset ≥ f.length ∧ buffer.length > 0 then
      (a.extend head (offset + buffer.length)).overwrite head offset buffer
    else
      a.overwrite head offset buffer

/-- `inode_create` on a sector that is in use and belongs to no file. -/
def create (a : Volume) (head : Word) (length : Nat) : Volume :=
  let taken := a.next (File.empty.needs length)
  (a.take taken).put head (File.empty.grow length taken)

/-- The free map with some sectors given back. -/
def clearAll (freeMap : Bitmap) (freed : List Word) : Bitmap :=
  freed.foldl (fun freeMap s => freeMap.set s.toNat false) freeMap

def handle (a : Volume) (sector : Word) : Option Handle :=
  a.handles.find? fun handle => handle.sector == sector

def setHandle (a : Volume) (sector : Word) (change : Handle → Handle) : Volume :=
  { a with handles := a.handles.map fun handle => if handle.sector == sector then change handle else handle }

/-- `inode_open` -/
def opened (a : Volume) (sector : Word) : Volume :=
  match a.handle sector with
  | some _ => a.setHandle sector fun handle => { handle with openCnt := handle.openCnt + 1 }
  | none => { a with handles := { sector := sector, openCnt := 1, removed := false, denyWriteCnt := 0 } :: a.handles }

/-- `inode_remove` -/
def remove (a : Volume) (sector : Word) : Volume :=
  a.setHandle sector fun handle => { handle with removed := true }

/-- A file is deleted and its sectors are given back. -/
def delete (a : Volume) (head : Word) : Volume :=
  match a.files head with
  | none => a
  | some f =>
    let freed := clearAll a.freeMap (f.sectors head)
    { a with files := update a.files head none }.setMap freed

/-- `inode_close` -/
def close (a : Volume) (sector : Word) : Volume :=
  match a.handle sector with
  | none => a
  | some handle =>
    if handle.openCnt = 1 then
      let closed := { a with handles := a.handles.filter fun handle => handle.sector != sector }
      if handle.removed then closed.delete sector else closed
    else
      a.setHandle sector fun handle => { handle with openCnt := handle.openCnt - 1 }

theorem files_opened (a : Volume) (head : Word) : (a.opened head).files = a.files := by
  unfold opened
  split <;> rfl

theorem freeMap_opened (a : Volume) (head : Word) : (a.opened head).freeMap = a.freeMap := by
  unfold opened
  split <;> rfl

/-! ## Volumes that are in order -/

def Owned (a : Volume) (s : Word) : Prop :=
  ∃ head f, a.files head = some f ∧ s ∈ f.sectors head

structure Sound (a : Volume) : Prop where
  bounded : a.freeMap.length ≤ 2 ^ 28
  used : ∀ {head f s}, a.files head = some f → s ∈ f.sectors head → Used a.freeMap s
  distinct : ∀ {head f}, a.files head = some f → (f.sectors head).Nodup
  disjoint : ∀ {head head' f f' s}, a.files head = some f → a.files head' = some f' →
    s ∈ f.sectors head → s ∈ f'.sectors head' → head = head'
  count : ∀ {head f}, a.files head = some f → f.data.length = bytesToSectors f.length
  small : ∀ {head f}, a.files head = some f → f.length + 512 < 2 ^ 31
  map : ∃ f, a.files freeMapSector = some f ∧ byteCnt a.freeMap.length ≤ f.length
  mapOpen : freeMapSector ∈ a.handles.map (·.sector)
  mapAllowed : ∀ handle ∈ a.handles, handle.sector = freeMapSector → handle.denyWriteCnt = 0
  once : (a.handles.map (·.sector)).Nodup
  live : ∀ handle ∈ a.handles, ∃ f, a.files handle.sector = some f

section Kept

variable (a : Volume) (taken : List Word) (head : Word) (f : File)

@[simp] theorem kept_blocks : (a.kept taken head f).blocks = f.blocks := by
  unfold kept
  split <;> simp

@[simp] theorem kept_data : (a.kept taken head f).data = f.data := by
  unfold kept
  split <;> simp

@[simp] theorem kept_length : (a.kept taken head f).length = f.length := by
  unfold kept
  split <;> simp

@[simp] theorem kept_sectors : (a.kept taken head f).sectors head = f.sectors head := by
  simp [File.sectors]

theorem kept_other (other : head ≠ freeMapSector) : a.kept taken head f = f := by
  unfold kept
  rw [File.mapStored_other _ _ _ other, ite_self]

end Kept

variable {a : Volume} {head : Word} {f : File} {taken : List Word}

variable {g : File} {freeMap : Bitmap} {other : Word}

theorem Sound.map_long (sound : a.Sound) (found : a.files freeMapSector = some f) :
    byteCnt a.freeMap.length ≤ f.length := by
  obtain ⟨f', found', long⟩ := sound.map
  rw [found] at found'
  cases found'
  exact long

theorem Sound.covered (sound : a.Sound) (found : a.files head = some f) : f.length ≤ 512 * f.data.length :=
  sound.count found ▸ le_bytesToSectors f.length

theorem files_take : (a.take taken).files head = some g ↔ ∃ f, a.files head = some f ∧ a.kept taken head f = g :=
  Option.map_eq_some_iff

theorem files_setMap :
    (a.setMap freeMap).files head = some g ↔ ∃ f, a.files head = some f ∧ f.mapStored freeMap head = g :=
  Option.map_eq_some_iff

@[simp] theorem files_put_self (a : Volume) (head : Word) (f : File) : (a.put head f).files head = some f :=
  update_self _ _ _

theorem files_put_other (a : Volume) (f : File) (different : other ≠ head) :
    (a.put head f).files other = a.files other :=
  update_of_ne different _ _

theorem files_put_some (found : (a.put head g).files other = some f) :
    (other = head ∧ f = g) ∨ (other ≠ head ∧ a.files other = some f) := by
  by_cases same : other = head
  · subst same
    rw [files_put_self] at found
    exact .inl ⟨rfl, (Option.some.inj found).symm⟩
  · rw [files_put_other a g same] at found
    exact .inr ⟨same, found⟩

theorem next_subset (a : Volume) (count : Nat) : a.next count ⊆ freeSectors a.freeMap :=
  take_subset _ _

theorem length_next {count : Nat} (enough : count ≤ (freeSectors a.freeMap).length) :
    (a.next count).length = count := by
  rw [next, length_take, Nat.min_eq_left enough]

variable {s : Word} {mapped : File}

/-- Sectors that files have had are still in use, whatever is taken. -/
theorem used_take (bounded : a.freeMap.length ≤ 2 ^ 28) (free : taken ⊆ freeSectors a.freeMap) :
    Used (a.take taken).freeMap s ↔ s ∈ taken ∨ Used a.freeMap s :=
  used_markAll fun _ member => free_lt bounded (free member)

namespace Sound

theorem setMap (sound : a.Sound) (size : freeMap.length = a.freeMap.length)
    (used : ∀ {head f s}, a.files head = some f → s ∈ f.sectors head → Used freeMap s) : (a.setMap freeMap).Sound where
  bounded := size ▸ sound.bounded
  used found member := by
    obtain ⟨f, before, rfl⟩ := files_setMap.mp found
    rw [File.mapStored_sectors] at member
    exact used before member
  distinct found := by
    obtain ⟨f, before, rfl⟩ := files_setMap.mp found
    rw [File.mapStored_sectors]
    exact sound.distinct before
  disjoint found found' member member' := by
    obtain ⟨f, before, rfl⟩ := files_setMap.mp found
    obtain ⟨f', before', rfl⟩ := files_setMap.mp found'
    rw [File.mapStored_sectors] at member member'
    exact sound.disjoint before before' member member'
  count found := by
    obtain ⟨f, before, rfl⟩ := files_setMap.mp found
    rw [File.mapStored_data, File.mapStored_length]
    exact sound.count before
  small found := by
    obtain ⟨f, before, rfl⟩ := files_setMap.mp found
    rw [File.mapStored_length]
    exact sound.small before
  map := by
    obtain ⟨f, found, long⟩ := sound.map
    refine ⟨_, files_setMap.mpr ⟨f, found, rfl⟩, ?_⟩
    rw [File.mapStored_length]
    show byteCnt freeMap.length ≤ f.length
    rwa [size]
  mapOpen := sound.mapOpen
  mapAllowed := sound.mapAllowed
  once := sound.once
  live handle member := by
    obtain ⟨f, found⟩ := sound.live handle member
    exact ⟨_, files_setMap.mpr ⟨f, found, rfl⟩⟩

theorem take (sound : a.Sound) (free : taken ⊆ freeSectors a.freeMap) : (a.take taken).Sound := by
  by_cases none : taken = []
  · have same : a.take taken = a := by
      subst none
      have kept : a.kept [] = fun _ f => f := rfl
      simp [Volume.take, kept]
    rw [same]
    exact sound
  · have same : a.take taken = a.setMap (markAll a.freeMap taken) := by
      have kept : a.kept taken = File.mapStored (markAll a.freeMap taken) := by
        funext head f
        exact if_neg none
      rw [Volume.take, kept]
      rfl
    rw [same]
    apply sound.setMap (length_markAll _ _)
    intro head f s found member
    exact (used_take sound.bounded free).mpr (.inr (sound.used found member))

theorem put (sound : a.Sound) (used : ∀ s ∈ g.sectors head, Used a.freeMap s) (distinct : (g.sectors head).Nodup)
    (apart : ∀ {s other f}, s ∈ g.sectors head → a.files other = some f → s ∈ f.sectors other → other = head)
    (count : g.data.length = bytesToSectors g.length) (small : g.length + 512 < 2 ^ 31)
    (map : head = freeMapSector → byteCnt a.freeMap.length ≤ g.length) : (a.put head g).Sound := by
  constructor
  case bounded => exact sound.bounded
  case used =>
    intro other f s found member
    obtain ⟨rfl, rfl⟩ | ⟨-, before⟩ := files_put_some found
    · exact used s member
    · exact sound.used before member
  case distinct =>
    intro other f found
    obtain ⟨rfl, rfl⟩ | ⟨-, before⟩ := files_put_some found
    · exact distinct
    · exact sound.distinct before
  case disjoint =>
    intro other other' f f' s found found' member member'
    obtain ⟨rfl, rfl⟩ | ⟨different, before⟩ := files_put_some found
    · obtain ⟨rfl, rfl⟩ | ⟨different', before'⟩ := files_put_some found'
      · rfl
      · exact absurd (apart member before' member') different'
    · obtain ⟨rfl, rfl⟩ | ⟨different', before'⟩ := files_put_some found'
      · exact absurd (apart member' before member) different
      · exact sound.disjoint before before' member member'
  case count =>
    intro other f found
    obtain ⟨rfl, rfl⟩ | ⟨-, before⟩ := files_put_some found
    · exact count
    · exact sound.count before
  case small =>
    intro other f found
    obtain ⟨rfl, rfl⟩ | ⟨-, before⟩ := files_put_some found
    · exact small
    · exact sound.small before
  case map =>
    by_cases same : freeMapSector = head
    · subst same
      exact ⟨g, files_put_self a _ g, map rfl⟩
    · obtain ⟨f, found, long⟩ := sound.map
      exact ⟨f, (files_put_other a g same).trans found, long⟩
  case mapOpen => exact sound.mapOpen
  case mapAllowed => exact sound.mapAllowed
  case once => exact sound.once
  case live =>
    intro handle member
    by_cases same : handle.sector = head
    · exact ⟨g, by rw [same, files_put_self]⟩
    · obtain ⟨f, found⟩ := sound.live handle member
      exact ⟨f, (files_put_other a g same).trans found⟩

/-- Only the bytes of a file change. -/
theorem overwrite (sound : a.Sound) (head : Word) (offset : Nat) (buffer : List UInt8) :
    (a.overwrite head offset buffer).Sound := by
  unfold Volume.overwrite
  split
  next => exact sound
  next f found =>
    apply sound.put
    case used => exact fun s member => sound.used found member
    case distinct => exact (sound.distinct found : (f.sectors head).Nodup)
    case apart => exact fun member found' member' => sound.disjoint found' found member' member
    case count => exact (sound.count found : f.data.length = bytesToSectors f.length)
    case small => exact (sound.small found : f.length + 512 < 2 ^ 31)
    case map =>
      rintro rfl
      exact (sound.map_long found :)

end Sound

theorem Sound.apart (sound : a.Sound) (found : a.files head = some f) :
    (head :: f.blocks).Nodup ∧ f.data.Nodup ∧ (head :: f.blocks).Disjoint f.data := by
  have distinct := sound.distinct found
  rw [File.sectors, ← cons_append] at distinct
  exact nodup_append'.mp distinct

/-- The blocks of a file do not hold the free map. -/
theorem Sound.block_notMem (sound : a.Sound) (isMap : a.files freeMapSector = some mapped)
    (found : a.files head = some f) (member : s ∈ head :: f.blocks) : s ∉ mapped.data := by
  intro inMap
  have same := sound.disjoint found isMap (File.block_mem member) (File.data_mem inMap)
  subst same
  rw [isMap] at found
  cases found
  exact (sound.apart isMap).2.2 member inMap

theorem Sound.block_kept {v w : View} {touched : List Word} (sound : a.Sound)
    (isMap : a.files freeMapSector = some mapped) (takes : Takes mapped.data v w taken touched)
    (found : a.files head = some f) (member : s ∈ head :: f.blocks) (apart : s ∉ touched) : w.sectors s = v.sectors s :=
  takes.frame s (sound.block_notMem isMap found member) apart

/-! ## Growing files -/

variable {newLength length offset : Nat} {buffer : List UInt8}

/-- A file that grows gets the sectors that were taken for it. -/
theorem perm_grow (head : Word) (count : taken.length = f.needs newLength) :
    ((f.grow newLength taken).sectors head).Perm (f.sectors head ++ taken) := by
  have perm := (carve_spec count).2
  show (head :: _).Perm (head :: _)
  apply List.Perm.cons
  unfold File.grow
  generalize carve (usedSlots f.blocks f.data) (f.growth newLength) taken = parts at perm ⊢
  have swapped : (f.blocks ++ parts.1 ++ (f.data ++ parts.2)).Perm (f.blocks ++ (f.data ++ (parts.1 ++ parts.2))) := by
    rw [append_assoc]
    exact (perm_append_comm_assoc _ _ _).append_left _
  refine swapped.trans ?_
  rw [← append_assoc]
  exact perm.append_left _

theorem length_data_grow (count : taken.length = f.needs newLength)
    (longer : f.data.length ≤ bytesToSectors newLength) :
    (f.grow newLength taken).data.length = bytesToSectors newLength := by
  have added : (carve (usedSlots f.blocks f.data) (f.growth newLength) taken).2.length = _ := (carve_spec count).1
  show (f.data ++ _).length = _
  rw [length_append, added, File.growth]
  omega

theorem bytesToSectors_mono {size size' : Nat} (longer : size ≤ size') :
    bytesToSectors size ≤ bytesToSectors size' := by
  unfold bytesToSectors
  omega

/-- The file at `head` is replaced by one that has grown, or a new one is made there. -/
theorem Sound.put_grown (sound : a.Sound) (free : taken ⊆ freeSectors a.freeMap) (distinct : taken.Nodup)
    (count : taken.length = f.needs newLength) (longer : f.data.length ≤ bytesToSectors newLength)
    (small : newLength + 512 < 2 ^ 31) (used : ∀ s ∈ f.sectors head, Used a.freeMap s) (once : (f.sectors head).Nodup)
    (apart : ∀ {s other g}, s ∈ f.sectors head → a.files other = some g → s ∈ g.sectors other → other = head)
    (map : head = freeMapSector → byteCnt a.freeMap.length ≤ newLength) :
    ((a.take taken).put head (f.grow newLength taken)).Sound := by
  have perm := perm_grow head count
  have inUse := fun {s : Word} => used_take (s := s) sound.bounded free
  apply (sound.take free).put
  case used =>
    intro s member
    apply inUse.mpr
    cases mem_append.mp (perm.mem_iff.mp member) with
    | inl old => exact .inr (used s old)
    | inr new => exact .inl new
  case distinct =>
    rw [perm.nodup_iff]
    refine once.append distinct ?_
    intro s old new
    exact not_used_of_free sound.bounded (free new) (used s old)
  case apart =>
    intro s other g member found inFile
    obtain ⟨g', before, rfl⟩ := files_take.mp found
    rw [kept_sectors] at inFile
    cases mem_append.mp (perm.mem_iff.mp member) with
    | inl old => exact apart old before inFile
    | inr new => exact absurd (sound.used before inFile) (not_used_of_free sound.bounded (free new))
  case count => exact length_data_grow count longer
  case small => exact small
  case map =>
    intro same
    show byteCnt (markAll a.freeMap taken).length ≤ newLength
    rw [length_markAll]
    exact map same

theorem needs_kept (a : Volume) (taken : List Word) (head : Word) (f : File) (newLength : Nat) :
    (a.kept taken head f).needs newLength = f.needs newLength := by
  simp [File.needs, File.growth]

theorem nodup_next (bounded : a.freeMap.length ≤ 2 ^ 28) (count : Nat) : (a.next count).Nodup :=
  (nodup_freeSectors bounded).sublist (take_sublist _ _)

theorem Sound.extend (sound : a.Sound) (found : a.files head = some f) (longer : f.length ≤ newLength)
    (small : newLength + 512 < 2 ^ 31) (enough : f.needs newLength ≤ (freeSectors a.freeMap).length) :
    (a.extend head newLength).Sound := by
  have unfolded : a.extend head newLength = (a.take (a.next (f.needs newLength))).put head
      ((a.kept (a.next (f.needs newLength)) head f).grow newLength (a.next (f.needs newLength))) := by
    rw [Volume.extend, found]
  rw [unfolded]
  apply sound.put_grown (next_subset a _) (nodup_next sound.bounded _)
  case count => rw [needs_kept, length_next enough]
  case longer =>
    rw [kept_data, sound.count found]
    exact bytesToSectors_mono longer
  case small => exact small
  case used =>
    rw [kept_sectors]
    exact fun s member => sound.used found member
  case once =>
    rw [kept_sectors]
    exact sound.distinct found
  case apart =>
    rw [kept_sectors]
    exact fun member found' member' => sound.disjoint found' found member' member
  case map =>
    rintro rfl
    exact Nat.le_trans (sound.map_long found) longer

theorem Sound.create (sound : a.Sound) (used : Used a.freeMap head) (loose : ¬ a.Owned head)
    (small : length + 512 < 2 ^ 31) (enough : File.empty.needs length ≤ (freeSectors a.freeMap).length) :
    (a.create head length).Sound := by
  apply sound.put_grown (next_subset a _) (nodup_next sound.bounded _) (length_next enough) (Nat.zero_le _) small
  case used =>
    intro s member
    rwa [mem_singleton.mp member]
  case once => exact nodup_singleton head
  case apart =>
    intro s other g member found inFile
    rw [mem_singleton.mp member] at inFile
    exact absurd ⟨other, g, found, inFile⟩ loose
  case map =>
    rintro rfl
    obtain ⟨f, found, -⟩ := sound.map
    exact absurd ⟨_, f, found, mem_cons_self⟩ loose

theorem Sound.write (sound : a.Sound) (found : a.files head = some f)
    (fits : f.length ≤ offset → 0 < buffer.length → offset + buffer.length + 512 < 2 ^ 31 ∧
      f.needs (offset + buffer.length) ≤ (freeSectors a.freeMap).length) : (a.write head buffer offset).Sound := by
  unfold Volume.write
  rw [found]
  dsimp only
  split
  next grows =>
    obtain ⟨small, enough⟩ := fits grows.1 grows.2
    exact (sound.extend found (Nat.le_trans grows.1 (Nat.le_add_right _ _)) small enough).overwrite head offset buffer
  next => exact sound.overwrite head offset buffer

/-! ## Handles, and giving sectors back -/

variable {sector : Word} {change : Handle → Handle} {handle : Handle}

theorem map_sector_setHandle (keeps : ∀ handle : Handle, (change handle).sector = handle.sector) :
    (a.setHandle sector change).handles.map (·.sector) = a.handles.map (·.sector) := by
  rw [setHandle, map_map]
  apply map_congr_left
  intro handle _
  dsimp only [Function.comp]
  split
  next => exact keeps handle
  next => rfl

section

variable (sound : a.Sound)

include sound

theorem Sound.withHandles {handles : List Handle} (mapOpen : freeMapSector ∈ handles.map (·.sector))
    (mapAllowed : ∀ handle ∈ handles, handle.sector = freeMapSector → handle.denyWriteCnt = 0)
    (once : (handles.map (·.sector)).Nodup) (live : ∀ sector ∈ handles.map (·.sector), ∃ f, a.files sector = some f) :
    ({ a with handles := handles } : Volume).Sound :=
  { sound with
    mapOpen := mapOpen
    mapAllowed := mapAllowed
    once := once
    live := fun handle member => live handle.sector (mem_map_of_mem member) }

theorem Sound.live_sector (member : sector ∈ a.handles.map (·.sector)) :
    ∃ f, a.files sector = some f := by
  obtain ⟨handle, isOpen, rfl⟩ := mem_map.mp member
  exact sound.live handle isOpen

theorem Sound.setHandle (keeps : ∀ handle : Handle, (change handle).sector = handle.sector ∧
      (sector = freeMapSector → handle.denyWriteCnt = 0 → (change handle).denyWriteCnt = 0)) :
    (a.setHandle sector change).Sound := by
  have same : (a.setHandle sector change).handles.map (·.sector) = a.handles.map (·.sector) :=
    map_sector_setHandle fun handle => (keeps handle).1
  apply sound.withHandles
  case mapOpen => exact same ▸ sound.mapOpen
  case mapAllowed =>
    intro handle member isMap
    obtain ⟨before, isOpen, rfl⟩ := mem_map.mp member
    by_cases changed : before.sector == sector
    · rw [if_pos changed, (keeps before).1] at isMap
      rw [if_pos changed]
      exact (keeps before).2 ((beq_iff_eq.mp changed).symm.trans isMap) (sound.mapAllowed before isOpen isMap)
    · rw [if_neg changed] at isMap ⊢
      exact sound.mapAllowed before isOpen isMap
  case once => exact same ▸ sound.once
  case live =>
    intro other member
    exact sound.live_sector (same ▸ member)

theorem Sound.opened (live : a.files sector = some f) : (a.opened sector).Sound := by
  unfold Volume.opened
  split
  · exact sound.setHandle fun _ => ⟨rfl, fun _ => id⟩
  rename_i none
  have absent : sector ∉ a.handles.map (·.sector) := by
    intro member
    obtain ⟨handle, member, same⟩ := mem_map.mp member
    exact find?_eq_none.mp none handle member (beq_iff_eq.mpr same)
  apply sound.withHandles
  case mapOpen => exact mem_cons_of_mem _ sound.mapOpen
  case mapAllowed =>
    intro handle member isMap
    cases mem_cons.mp member with
    | inl new => rw [new]
    | inr old => exact sound.mapAllowed handle old isMap
  case once => exact nodup_cons.mpr ⟨absent, sound.once⟩
  case live =>
    intro other member
    cases mem_cons.mp member with
    | inl same => exact ⟨f, same ▸ live⟩
    | inr member => exact sound.live_sector member

theorem Sound.remove (sector : Word) : (a.remove sector).Sound :=
  sound.setHandle fun _ => ⟨rfl, fun _ => id⟩

end

@[simp] theorem length_clearAll (freeMap : Bitmap) (freed : List Word) :
    (clearAll freeMap freed).length = freeMap.length := by
  induction freed generalizing freeMap with
  | nil => rfl
  | cons s freed ih =>
    show (clearAll (freeMap.set s.toNat false) freed).length = _
    rw [ih, length_set]

theorem used_set_false {t : Word} : Used (freeMap.set t.toNat false) s ↔ Used freeMap s ∧ s ≠ t := by
  unfold Used
  rw [getElem?_set]
  split
  next same =>
    have equal : s = t := BitVec.eq_of_toNat_eq same.symm
    split <;> simp [equal]
  next other =>
    have different : s ≠ t := fun same => other (same ▸ rfl)
    simp [different]

theorem used_clearAll {freed : List Word} : Used (clearAll freeMap freed) s ↔ Used freeMap s ∧ s ∉ freed := by
  induction freed generalizing freeMap with
  | nil => simp [clearAll]
  | cons t freed ih =>
    show Used (clearAll (freeMap.set t.toNat false) freed) s ↔ _
    rw [ih, used_set_false, mem_cons, not_or, and_assoc]

/-- The files that are left when one is deleted. -/
theorem files_erase (found : update a.files head none other = some g) : other ≠ head ∧ a.files other = some g := by
  by_cases same : other = head
  · rw [same, update_self] at found
    cases found
  · rw [update_of_ne same] at found
    exact ⟨same, found⟩

theorem Sound.erase (sound : a.Sound) (notMap : head ≠ freeMapSector) (closed : head ∉ a.handles.map (·.sector)) :
    ({ a with files := update a.files head none } : Volume).Sound where
  bounded := sound.bounded
  used found member := sound.used (files_erase found).2 member
  distinct found := sound.distinct (files_erase found).2
  disjoint found found' member member' := sound.disjoint (files_erase found).2 (files_erase found').2 member member'
  count found := sound.count (files_erase found).2
  small found := sound.small (files_erase found).2
  map := by
    obtain ⟨f, found, long⟩ := sound.map
    exact ⟨f, (update_of_ne (Ne.symm notMap) _ _).trans found, long⟩
  mapOpen := sound.mapOpen
  mapAllowed := sound.mapAllowed
  once := sound.once
  live handle member := by
    obtain ⟨f, found⟩ := sound.live handle member
    have other : handle.sector ≠ head := by
      intro same
      exact closed (same ▸ mem_map_of_mem member)
    exact ⟨f, (update_of_ne other _ _).trans found⟩

theorem Sound.delete (sound : a.Sound) (notMap : head ≠ freeMapSector) (closed : head ∉ a.handles.map (·.sector)) :
    (a.delete head).Sound := by
  unfold Volume.delete
  split
  next => exact sound
  next f found =>
    apply (sound.erase notMap closed).setMap (length_clearAll _ _)
    intro other g s found' member
    obtain ⟨different, found'⟩ := files_erase found'
    refine used_clearAll.mpr ⟨sound.used found' member, ?_⟩
    intro freed
    exact different (sound.disjoint found' found member freed)

theorem handle_eq_some (found : a.handle sector = some handle) : handle ∈ a.handles ∧ handle.sector = sector := by
  have matched := find?_some (p := fun handle : Handle => handle.sector == sector) found
  exact ⟨mem_of_find?_eq_some found, beq_iff_eq.mp matched⟩

/-- The last handle of a file is given up. -/
theorem Sound.filterHandles (sound : a.Sound) (notMap : sector ≠ freeMapSector) :
    ({ a with handles := a.handles.filter fun handle => handle.sector != sector } : Volume).Sound ∧
      sector ∉ (a.handles.filter fun handle => handle.sector != sector).map (·.sector) := by
  have left : (a.handles.filter fun handle => handle.sector != sector).map (·.sector) =
      (a.handles.map (·.sector)).filter (· != sector) := by
    rw [filter_map]
    rfl
  constructor
  · apply sound.withHandles
    case mapOpen =>
      rw [left, mem_filter]
      exact ⟨sound.mapOpen, bne_iff_ne.mpr (Ne.symm notMap)⟩
    case mapAllowed =>
      intro handle member isMap
      exact sound.mapAllowed handle (mem_filter.mp member).1 isMap
    case once =>
      rw [left]
      exact sound.once.filter _
    case live =>
      intro other member
      rw [left] at member
      exact sound.live_sector (mem_filter.mp member).1
  · rw [left, mem_filter]
    intro member
    simp at member

theorem Sound.close (sound : a.Sound) (found : a.handle sector = some handle)
    (own : sector = freeMapSector → handle.openCnt ≠ 1) : (a.close sector).Sound := by
  unfold Volume.close
  rw [found]
  dsimp only
  split
  next last =>
    have notMap : sector ≠ freeMapSector := fun same => own same last
    obtain ⟨closed, absent⟩ := sound.filterHandles notMap
    split
    next => exact closed.delete notMap absent
    next => exact closed
  next => exact sound.setHandle fun _ => ⟨rfl, fun _ => id⟩

/-! ## No sector is lost -/

end Volume

end Pintos.Filesys
