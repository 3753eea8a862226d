import Pintos.Filesys.CacheTransparency
import Pintos.Library.Transition

/-! # The buffer cache between threads

A finer model of `cache.c`, in which any number of threads take turns at every operation on a `buffer_lock` and at every
transfer of a sector.  There is no lock for the cache as a whole: a thread that has not found its sector is on its own
from there to the `memcpy`, and the locks of the slots do not tell it what other threads do.
-/

namespace Pintos.Filesys.CacheRace

open Library Function List

/-- A call of `buffer_cache_read` or `buffer_cache_write`. -/
inductive Op
  | read (secNo : Word) (size offset : Nat)
  | write (secNo : Word) (buffer : List UInt8) (offset : Nat)
  deriving DecidableEq, Repr

def Op.secNo : Op → Word
  | read secNo _ _ | write secNo _ _ => secNo

def Op.isWrite : Op → Bool
  | read _ _ _ => false
  | write _ _ _ => true

def Op.call : Op → CacheCall
  | read secNo size offset => .read secNo size offset
  | write secNo buffer offset => .write secNo buffer offset

/-- What a thread is at, and with which slot. -/
inductive Pc
  | idle
  -- `buffer_cache_find_victim`: before and after `accessed` is cleared under the lock
  | clearing (op : Op) (i : Fin 64)
  | cleared (op : Op) (i : Fin 64)
  -- The slot is to be emptied: before the lock is taken, and with it before and after `disk_write`.
  | evicting (op : Op) (i : Fin 64)
  | writing (op : Op) (i : Fin 64)
  | written (op : Op) (i : Fin 64)
  -- The slot is marked free, and the lock is held.
  | evicted (op : Op) (i : Fin 64)
  -- The slot is to be filled: before the lock is taken, and with it before and after `disk_read`.
  | loading (op : Op) (i : Fin 64)
  | reading (op : Op) (i : Fin 64)
  | loaded (op : Op) (i : Fin 64)
  -- Before the `memcpy`, without the lock
  | copying (op : Op) (i : Fin 64)
  -- `buffer_cache_write_back`: before the lock is taken, and with it before and after `disk_write`
  | saving (i : Fin 64)
  | storing (i : Fin 64)
  | stored (i : Fin 64)
  deriving DecidableEq, Repr

/-- The cache, the holders of the locks, where the threads are, and the calls completed so far with their replies. -/
structure World (threads : Nat) where
  cache : CacheState
  owner : Fin 64 → Option (Fin threads)
  pc : Fin threads → Pc
  log : List (Op × CacheReply)

inductive Call
  | op (op : Op)
  | writeBack
  deriving DecidableEq, Repr

/-- The thread that takes the next step, and what it calls if it is not in a call. -/
structure Label (threads : Nat) where
  thread : Fin threads
  call : Call
  deriving DecidableEq, Repr

/-- The `memcpy` at the end of a call. -/
def copy (op : Op) (i : Fin 64) (c : CacheState) : CacheReply × CacheState :=
  match op with
  | .read _ size offset => (.bytes ((c.bufferCache i).data.load size offset), c)
  | .write _ buffer offset =>
    (.done, c.setSlot i { c.bufferCache i with data := (c.bufferCache i).data.store buffer offset, dirty := true })

/-- The head of the `while` loop of `buffer_cache_find_victim`. -/
def turnHand (op : Op) (i : Fin 64) (c : CacheState) : Pc × CacheState :=
  if (c.bufferCache i).accessed then (.clearing op i, c) else (.evicting op i, { c with lookupStartIndex := i + 1 })

/-- `buffer_cache_find_victim` up to the first lock. -/
def findVictim (op : Op) (c : CacheState) : Pc × CacheState :=
  match (finRange 64).find? fun i => !(c.bufferCache i).allocated with
  | some i => (.loading op i, c)
  | none => turnHand op c.lookupStartIndex c

/-- The loop of `buffer_cache_write_back` from slot `n` on, up to the next lock. -/
def nextDirty (n : Nat) (c : CacheState) : Pc :=
  match (finRange 64).find? fun i => decide (n ≤ i.val) && ((c.bufferCache i).allocated && (c.bufferCache i).dirty) with
  | some i => .saving i
  | none => .idle

namespace World

variable {threads : Nat}

def setPc (t : Fin threads) (pc : Pc) (w : World threads) : World threads :=
  { w with pc := update w.pc t pc }

def setCache (c : CacheState) (w : World threads) : World threads :=
  { w with cache := c }

/-- `lock_acquire (&buffer_cache[i].buffer_lock)` -/
def acquire (t : Fin threads) (i : Fin 64) (w : World threads) : Option (World threads) :=
  if w.owner i = none then some { w with owner := update w.owner i (some t) } else none

/-- `lock_release (&buffer_cache[i].buffer_lock)` -/
def release (i : Fin 64) (w : World threads) : World threads :=
  { w with owner := update w.owner i none }

/-- The call is over. -/
def finish (t : Fin threads) (op : Op) (i : Fin 64) (w : World threads) : World threads :=
  { w with cache := (copy op i w.cache).2, pc := update w.pc t .idle, log := w.log ++ [(op, (copy op i w.cache).1)] }

/-- The slot with `allocated` set to false. -/
def vacate (i : Fin 64) (w : World threads) : World threads :=
  w.setCache (w.cache.setSlot i { w.cache.bufferCache i with allocated := false })

/-- `disk_write (filesys_disk, buffer_cache[i].sector_no, &buffer_cache[i].data)` -/
def flush (i : Fin 64) (w : World threads) : World threads :=
  w.setCache (w.cache.diskWrite (w.cache.bufferCache i).sectorNo (w.cache.bufferCache i).data)

/-- A call of `buffer_cache_read` or `buffer_cache_write` up to the first lock: all of it, if the sector is found. -/
def begin (t : Fin threads) (op : Op) (w : World threads) : World threads :=
  match w.cache.findSlot op.secNo with
  | some i => w.finish t op i
  | none => (w.setCache (findVictim op w.cache).2).setPc t (findVictim op w.cache).1

end World

/-- A step of a thread, from one of the points where threads take turns to the next.  There is none while the lock is
held. -/
def step {threads : Nat} (label : Label threads) (w : World threads) : Option (World threads) :=
  let t := label.thread
  match w.pc t with
  | .idle =>
    match label.call with
    | .op op => some (w.begin t op)
    | .writeBack => some (w.setPc t (nextDirty 0 w.cache))
  | .clearing op i =>
    (w.acquire t i).map fun w =>
      (w.setCache (w.cache.setSlot i { w.cache.bufferCache i with accessed := false })).setPc t (.cleared op i)
  | .cleared op i => some (((w.release i).setCache (turnHand op (i + 1) w.cache).2).setPc t
    (turnHand op (i + 1) w.cache).1)
  | .evicting op i =>
    (w.acquire t i).map fun w =>
      if (w.cache.bufferCache i).dirty then w.setPc t (.writing op i) else (w.vacate i).setPc t (.evicted op i)
  | .writing op i => some ((w.flush i).setPc t (.written op i))
  | .written op i => some ((w.vacate i).setPc t (.evicted op i))
  | .evicted op i => some ((w.release i).setPc t (.loading op i))
  | .loading op i => (w.acquire t i).map (·.setPc t (.reading op i))
  | .reading op i =>
    some ((w.setCache (w.cache.setSlot i { w.cache.bufferCache i with
      data := w.cache.disk op.secNo, allocated := true, accessed := true, sectorNo := op.secNo })).setPc t
        (.loaded op i))
  | .loaded op i => some ((w.release i).setPc t (.copying op i))
  | .copying op i => some (w.finish t op i)
  | .saving i => (w.acquire t i).map (·.setPc t (.storing i))
  | .storing i => some ((w.flush i).setPc t (.stored i))
  | .stored i => some ((w.release i).setPc t (nextDirty (i.val + 1) w.cache))

/-- After `buffer_cache_init`, before the first call. -/
def start (threads : Nat) (before : CacheState) : World threads where
  cache := bufferCacheInit before
  owner _ := none
  pc _ := .idle
  log := []

/-! ## Where the threads are -/

namespace Pc

/-- Whether the thread did not find its sector, and has not yet copied. -/
def missing : Pc → Bool
  | idle | saving _ | storing _ | stored _ => false
  | _ => true

/-- The sector that the thread did not find, and has not yet loaded. -/
def wants : Pc → Option Word
  | clearing op _ | cleared op _ | evicting op _ | writing op _ | written op _ | evicted op _ | loading op _
  | reading op _ =>
    some op.secNo
  | _ => none

/-- Whether the thread found no free slot, and has not yet emptied one. -/
def hunts : Pc → Bool
  | clearing _ _ | cleared _ _ | evicting _ _ | writing _ _ | written _ _ => true
  | _ => false

/-- The slot that has been written out, and is still allocated. -/
def flushed : Pc → Option (Fin 64)
  | written _ i => some i
  | _ => none

/-- The slot that the thread is going to fill. -/
def vacates : Pc → Option (Fin 64)
  | evicted _ i | loading _ i | reading _ i => some i
  | _ => none

/-- The sector and the slot that the thread has loaded and is going to copy from or to. -/
def fills : Pc → Option (Word × Fin 64)
  | loaded op i | copying op i => some (op.secNo, i)
  | _ => none

/-- The slot that `buffer_cache_write_back` is going to write. -/
def saves : Pc → Option (Fin 64)
  | saving i | storing i => some i
  | _ => none

end Pc

/-- Where a call may begin: if the sector is not found, then no other thread is in the same situation; and nothing is
written to a slot that another thread has written out and not yet marked free. -/
def Calm {threads : Nat} (label : Label threads) (w : World threads) : Prop :=
  match w.pc label.thread, label.call with
  | .idle, .op op =>
    match w.cache.findSlot op.secNo with
    | none => ∀ t, (w.pc t).missing = false
    | some i => op.isWrite = true → ∀ t, (w.pc t).flushed ≠ some i
  | _, _ => True

instance {threads : Nat} (label : Label threads) (w : World threads) : Decidable (Calm label w) := by
  unfold Calm
  split
  · split <;> infer_instance
  · infer_instance

/-! ## What holds in calm runs -/

/-- The sector on the disk is as in the slot. -/
def InSync (c : CacheState) (i : Fin 64) : Prop :=
  c.disk (c.bufferCache i).sectorNo = (c.bufferCache i).data

/-- The completed calls, in the order of their `memcpy`, have the replies that a plain array of sectors gives, and the
cache stands for that array. -/
structure Explains (initial : Word → Sector) (c : CacheState) (log : List (Op × CacheReply)) : Prop where
  coherent : Coherent c
  replies : (sectorArray.run (log.map fun done => done.1.call) initial).1 = log.map Prod.snd
  content : logical c = (sectorArray.run (log.map fun done => done.1.call) initial).2

structure Settled {threads : Nat} (c : CacheState) (pc : Fin threads → Pc) : Prop where
  single : ∀ {t u}, (pc t).missing = true → (pc u).missing = true → t = u
  wanted : ∀ {t s}, (pc t).wants = some s → Uncached c s
  hunting : ∀ {t}, (pc t).hunts = true → ∀ i, (c.bufferCache i).allocated = true
  flushed : ∀ {t i}, (pc t).flushed = some i → InSync c i
  vacant : ∀ {t i}, (pc t).vacates = some i → (c.bufferCache i).allocated = false
  -- A slot can be emptied between the check and the lock of `buffer_cache_write_back`.
  stale : ∀ {t u i}, (pc t).vacates = some i → (pc u).saves = some i →
    InSync c i ∧ Uncached c (c.bufferCache i).sectorNo
  saved : ∀ {t i}, (pc t).saves = some i → (c.bufferCache i).allocated = true ∨ ∃ u, (pc u).vacates = some i
  filled : ∀ {t s i}, (pc t).fills = some (s, i) → (c.bufferCache i).allocated = true ∧ (c.bufferCache i).sectorNo = s

variable {threads : Nat} {c c' : CacheState} {pc : Fin threads → Pc} {t u : Fin threads} {new : Pc} {s : Word}

/-- What a thread may go on to, if the slots keep their sectors. -/
structure Enters (c c' : CacheState) (pc : Fin threads → Pc) (t : Fin threads) (new : Pc) : Prop where
  alone : new.missing = true → ∀ u, u ≠ t → (pc u).missing = false
  wants : ∀ s, new.wants = some s → Uncached c s
  hunts : new.hunts = true → ∀ i, (c.bufferCache i).allocated = true
  flushed : ∀ i, new.flushed = some i → InSync c' i
  vacates : ∀ i, new.vacates = some i → (c.bufferCache i).allocated = false
  keeps : ∀ i, (pc t).vacates = some i → new.vacates = some i
  saves : ∀ i, new.saves = some i → (pc t).saves = some i ∨ (c.bufferCache i).allocated = true
  fills : ∀ s i, new.fills = some (s, i) → (c.bufferCache i).allocated = true ∧ (c.bufferCache i).sectorNo = s

/-- What is true of a thread now was true of it before, or it is the thread that has moved. -/
theorem updated (property : Pc → Prop) (holds : property (update pc t new u)) :
    u = t ∧ property new ∨ u ≠ t ∧ property (pc u) := by
  by_cases own : u = t
  · subst own
    rw [update_self] at holds
    exact .inl ⟨rfl, holds⟩
  · rw [update_of_ne own] at holds
    exact .inr ⟨own, holds⟩

theorem Settled.move (settled : Settled c pc) (same : SameMap c c')
    (synced : ∀ i, InSync c i → Uncached c (c.bufferCache i).sectorNo ∨ (∃ u, u ≠ t ∧ (pc u).flushed = some i) →
      InSync c' i)
    (enters : Enters c c' pc t new) : Settled c' (update pc t new) := by
  have savedBefore : ∀ {u i}, (update pc t new u).saves = some i →
      (pc u).saves = some i ∨ (c.bufferCache i).allocated = true := by
    intro u i saves
    cases updated (fun pc => pc.saves = some i) saves with
    | inl own =>
      rw [own.1]
      exact enters.saves i own.2
    | inr other => exact .inl other.2
  have vacant : ∀ {u i}, (update pc t new u).vacates = some i → (c.bufferCache i).allocated = false := by
    intro u i vacates
    cases updated (fun pc => pc.vacates = some i) vacates with
    | inl own => exact enters.vacates i own.2
    | inr other => exact settled.vacant other.2
  constructor
  case single =>
    intro u v missing missing'
    cases updated (fun pc => pc.missing = true) missing with
    | inl own =>
      cases updated (fun pc => pc.missing = true) missing' with
      | inl own' => rw [own.1, own'.1]
      | inr other =>
        have not := enters.alone own.2 v other.1
        rw [other.2] at not
        cases not
    | inr other =>
      cases updated (fun pc => pc.missing = true) missing' with
      | inl own =>
        have not := enters.alone own.2 u other.1
        rw [other.2] at not
        cases not
      | inr other' => exact settled.single other.2 other'.2
  case wanted =>
    intro u s wants
    cases updated (fun pc => pc.wants = some s) wants with
    | inl own => exact same.uncached (enters.wants s own.2)
    | inr other => exact same.uncached (settled.wanted other.2)
  case hunting =>
    intro u hunts i
    rw [(same i).1]
    cases updated (fun pc => pc.hunts = true) hunts with
    | inl own => exact enters.hunts own.2 i
    | inr other => exact settled.hunting other.2 i
  case flushed =>
    intro u i flushed
    cases updated (fun pc => pc.flushed = some i) flushed with
    | inl own => exact enters.flushed i own.2
    | inr other => exact synced i (settled.flushed other.2) (.inr ⟨u, other.1, other.2⟩)
  case vacant =>
    intro u i vacates
    rw [(same i).1]
    exact vacant vacates
  case stale =>
    intro u v i vacates saves
    -- both threads were at the slot before
    have free : (c.bufferCache i).allocated ≠ true := Bool.eq_false_iff.mp (vacant vacates)
    have savesBefore : (pc v).saves = some i := (savedBefore saves).resolve_right free
    obtain ⟨u', before⟩ := (settled.saved savesBefore).resolve_left free
    obtain ⟨inSync, uncached⟩ := settled.stale before savesBefore
    rw [(same i).2]
    exact ⟨synced i inSync (.inl uncached), same.uncached uncached⟩
  case saved =>
    intro u i saves
    rw [(same i).1]
    cases savedBefore saves with
    | inl before =>
      cases settled.saved before with
      | inl allocated => exact .inl allocated
      | inr vacated =>
        obtain ⟨v, vacates⟩ := vacated
        refine .inr ⟨v, ?_⟩
        by_cases own : v = t
        · subst own
          rw [update_self]
          exact enters.keeps i vacates
        · rw [update_of_ne own]
          exact vacates
    | inr allocated => exact .inl allocated
  case filled =>
    intro u s i fills
    rw [(same i).1, (same i).2]
    cases updated (fun pc => pc.fills = some (s, i)) fills with
    | inl own => exact enters.fills s i own.2
    | inr other => exact settled.filled other.2

/-! ## One thread at a time is without its sector -/

namespace Pc

variable {a : Pc}

theorem missing_of_hunts (hunts : a.hunts = true) : a.missing = true := by
  cases a <;> first | rfl | cases hunts

variable {i : Fin 64}

theorem missing_of_flushed (flushed : a.flushed = some i) : a.missing = true := by
  cases a <;> first | rfl | cases flushed

theorem missing_of_vacates (vacates : a.vacates = some i) : a.missing = true := by
  cases a <;> first | rfl | cases vacates

theorem hunts_of_flushed (flushed : a.flushed = some i) : a.hunts = true := by
  cases a <;> first | rfl | cases flushed

theorem only_wants (wants : a.wants = some s) : a.saves = none ∧ a.fills = none := by
  cases a <;> first | exact ⟨rfl, rfl⟩ | cases wants

end Pc

/-- What only a thread without its sector can be at, no other thread is at. -/
theorem Settled.only (settled : Settled c pc) (missing : (pc t).missing = true) (property : Pc → Prop)
    (holds : property (update pc t new u))
    (implies : ∀ a, property a → a.missing = true := by intro a holds; cases a <;> first | rfl | cases holds) :
    u = t ∧ property new := by
  cases updated property holds with
  | inl own => exact own
  | inr other => exact absurd (settled.single (implies _ other.2) missing) other.1

/-- Where the thread without its sector moves, and looks for no slot any more, the others are where nothing depends on
the slots. -/
theorem Settled.sole (settled : Settled c pc) (missing : (pc t).missing = true) (hunts : new.hunts = false)
    (wants : ∀ s, new.wants = some s → Uncached c' s)
    (vacates : ∀ i, new.vacates = some i →
      (c'.bufferCache i).allocated = false ∧ InSync c' i ∧ Uncached c' (c'.bufferCache i).sectorNo)
    (saves : ∀ u i, (update pc t new u).saves = some i → (c'.bufferCache i).allocated = true ∨ new.vacates = some i)
    (fills : ∀ s i, new.fills = some (s, i) → (c'.bufferCache i).allocated = true ∧ (c'.bufferCache i).sectorNo = s) :
    Settled c' (update pc t new) where
  single first second := by
    rw [(settled.only missing (·.missing = true) first).1, (settled.only missing (·.missing = true) second).1]
  wanted wanted := wants _ (settled.only missing (·.wants = some _) wanted).2
  hunting hunting := by cases hunts.symm.trans (settled.only missing (·.hunts = true) hunting).2
  flushed flushed := by
    have now := (settled.only missing (·.flushed = some _) flushed).2
    cases hunts.symm.trans (Pc.hunts_of_flushed now)
  vacant vacant := (vacates _ (settled.only missing (·.vacates = some _) vacant).2).1
  stale vacant _ := (vacates _ (settled.only missing (·.vacates = some _) vacant).2).2
  saved {_ i} saved := (saves _ i saved).imp_right fun vacant => ⟨t, by rw [update_self]; exact vacant⟩
  filled filled := fills _ _ (settled.only missing (·.fills = some (_, _)) filled).2

variable {op : Op} {i : Fin 64} {slot : FileCache}

/-- The thread that is without its sector marks a slot free whose content is on the disk. -/
theorem Settled.vacate (settled : Settled c pc) (coherent : Coherent c) (hunts : (pc t).hunts = true)
    (wants : (pc t).wants = some op.secNo) (inSync : InSync c i) :
    Settled (c.setSlot i { c.bufferCache i with allocated := false }) (update pc t (.evicted op i)) := by
  have full := settled.hunting hunts
  have kept : ∀ j, ((c.setSlot i { c.bufferCache i with allocated := false }).bufferCache j).allocated = true →
      j ≠ i ∧ (c.setSlot i { c.bufferCache i with allocated := false }).bufferCache j = c.bufferCache j := by
    intro j allocated
    by_cases same : j = i
    · subst same
      simp at allocated
    · exact ⟨same, setSlot_other c _ same⟩
  apply settled.sole (Pc.missing_of_hunts hunts) rfl
  case wants =>
    rintro s ⟨⟩ j allocated
    obtain ⟨_, slot⟩ := kept j allocated
    rw [slot] at allocated ⊢
    exact settled.wanted wants j allocated
  case vacates =>
    rintro j ⟨⟩
    unfold InSync
    rw [setSlot_same]
    refine ⟨rfl, inSync, fun k allocated => ?_⟩
    obtain ⟨other, slot⟩ := kept k allocated
    rw [slot]
    intro sameSector
    exact other (coherent.unique k i (full k) (full i) sameSector)
  case saves =>
    intro u j _
    by_cases same : j = i
    · exact .inr (congrArg some same.symm)
    · rw [setSlot_other c _ same]
      exact .inl (full j)
  case fills => exact nofun

/-- The thread that is without its sector has loaded it. -/
theorem Settled.load (settled : Settled c pc) (at_ : pc t = .reading op i) (allocated : slot.allocated = true)
    (sector : slot.sectorNo = op.secNo) : Settled (c.setSlot i slot) (update pc t (.loaded op i)) := by
  have missing : (pc t).missing = true := congrArg Pc.missing at_
  apply settled.sole missing rfl
  case wants | vacates => exact nofun
  case saves =>
    intro u j saves
    refine .inl ?_
    by_cases same : j = i
    · subst same
      rw [setSlot_same]
      exact allocated
    · rw [setSlot_other c _ same]
      cases updated (fun pc => pc.saves = some j) saves with
      | inl moved => cases moved.2
      | inr other =>
        refine (settled.saved other.2).resolve_right fun ⟨v, vacates⟩ => ?_
        have filler := settled.single (Pc.missing_of_vacates vacates) missing
        rw [filler, at_] at vacates
        cases vacates
        exact absurd rfl same
  case fills =>
    rintro s j ⟨⟩
    rw [setSlot_same]
    exact ⟨allocated, sector⟩

/-! ## What the steps do to the sectors -/

variable {initial : Word → Sector} {log : List (Op × CacheReply)} {w : World threads}

theorem Explains.silent (explains : Explains initial c log) (coherent : Coherent c') (same : logical c' = logical c) :
    Explains initial c' log where
  coherent := coherent
  replies := explains.replies
  content := same.trans explains.content

/-- The reply is that of the sector, and so is what is left there. -/
theorem Explains.copy (explains : Explains initial c log) (allocated : (c.bufferCache i).allocated = true)
    (sector : (c.bufferCache i).sectorNo = op.secNo) :
    Explains initial (copy op i c).2 (log ++ [(op, (copy op i c).1)]) := by
  have data := explains.coherent.logical_slot allocated
  rw [sector, explains.content] at data
  cases op with
  | read secNo size offset =>
    refine ⟨explains.coherent, ?_, ?_⟩
    · rw [map_append, map_append, map_singleton, map_singleton, Machine.run_concat, explains.replies]
      exact congrArg (fun bytes => _ ++ [CacheReply.bytes (bytes.load size offset)]) data
    · rw [map_append, map_singleton, Machine.run_concat]
      exact explains.content
  | write secNo buffer offset =>
    obtain ⟨coherent, written⟩ := explains.coherent.storeSlot allocated ((c.bufferCache i).data.store buffer offset)
    refine ⟨coherent, ?_, ?_⟩
    · rw [map_append, map_append, map_singleton, map_singleton, Machine.run_concat, explains.replies]
      rfl
    · rw [map_append, map_singleton, Machine.run_concat]
      refine written.trans ?_
      rw [explains.content, sector, ← data]
      rfl

theorem sameMap_copy (op : Op) (i : Fin 64) (c : CacheState) : SameMap c (copy op i c).2 := by
  cases op with
  | read secNo size offset => exact fun _ => ⟨rfl, rfl⟩
  | write secNo buffer offset => exact sameMap_setSlot rfl rfl

/-- A slot that holds no sector is not written to, nor one that is not copied to. -/
theorem inSync_copy {j : Fin 64} (inSync : InSync c j) (other : op.isWrite = true → j ≠ i) :
    InSync (copy op i c).2 j := by
  cases op with
  | read secNo size offset => exact inSync
  | write secNo buffer offset =>
    show c.disk _ = _
    rw [copy, setSlot_other c _ (other rfl)]
    exact inSync

theorem flush_inSync (inSync : InSync c i) : c.diskWrite (c.bufferCache i).sectorNo (c.bufferCache i).data = c := by
  unfold CacheState.diskWrite
  rw [← inSync, update_eq_self]

/-- A slot whose content is on the disk can be marked free. -/
theorem coherent_vacate (coherent : Coherent c) (allocated : (c.bufferCache i).allocated = true)
    (inSync : InSync c i) : Coherent (c.setSlot i { c.bufferCache i with allocated := false }) ∧
      logical (c.setSlot i { c.bufferCache i with allocated := false }) = logical c := by
  have evicts : c.evict i = c.setSlot i { c.bufferCache i with allocated := false } := by
    unfold CacheState.evict
    dsimp only
    rw [flush_inSync inSync, ite_self]
  rw [← evicts]
  exact ⟨coherent.evict allocated, coherent.logical_evict allocated⟩

/-! ## Steps -/

structure Sound (initial : Word → Sector) (w : World threads) : Prop where
  explains : Explains initial w.cache w.log
  settled : Settled w.cache w.pc

/-- The thread is in the same part of the call as before. -/
structure Pc.Alike (old new : Pc) : Prop where
  missing : new.missing = old.missing
  wants : new.wants = old.wants
  hunts : new.hunts = old.hunts
  vacates : new.vacates = old.vacates
  saves : new.saves = old.saves
  fills : new.fills = old.fills

theorem Settled.stays (settled : Settled c pc) {old : Pc} (at_ : pc t = old)
    (alike : old.Alike new := by exact ⟨rfl, rfl, rfl, rfl, rfl, rfl⟩)
    (flushed : ∀ i, new.flushed = some i → InSync c' i := by exact fun _ flushed => nomatch flushed) :
    Enters c c' pc t new := by
  subst at_
  constructor
  case alone =>
    intro missing u other
    rw [alike.missing] at missing
    cases missingU : (pc u).missing with
    | false => rfl
    | true => exact absurd (settled.single missingU missing) other
  case wants =>
    intro s wants
    exact settled.wanted (alike.wants.symm.trans wants)
  case hunts =>
    intro hunts
    exact settled.hunting (alike.hunts.symm.trans hunts)
  case flushed => exact flushed
  case vacates =>
    intro i vacates
    exact settled.vacant (alike.vacates.symm.trans vacates)
  case keeps =>
    intro i vacates
    exact alike.vacates.trans vacates
  case saves =>
    intro i saves
    exact .inl (alike.saves.symm.trans saves)
  case fills =>
    intro s i fills
    exact settled.filled (alike.fills.symm.trans fills)

/-- The thread is not in a call of `buffer_cache_read` or `buffer_cache_write` any more. -/
theorem enters_quiet (free : (pc t).vacates = none) (missing : new.missing = false)
    (saves : ∀ i, new.saves = some i → (c.bufferCache i).allocated = true) : Enters c c' pc t new := by
  constructor
  case keeps =>
    intro i vacates
    cases free.symm.trans vacates
  case saves => exact fun i saved => .inr (saves i saved)
  all_goals cases new <;> first | (cases missing; done) | exact nofun

theorem nextDirty_missing (n : Nat) (c : CacheState) : (nextDirty n c).missing = false := by
  unfold nextDirty
  split <;> rfl

theorem nextDirty_allocated {n : Nat} (saves : (nextDirty n c).saves = some i) :
    (c.bufferCache i).allocated = true := by
  unfold nextDirty at saves
  split at saves
  next j found =>
    cases saves
    have matched := find?_some found
    simp only [Bool.and_eq_true] at matched
    exact matched.2.1
  next => cases saves

/-- The end of a call, at the slot of its sector. -/
theorem Sound.finish (sound : Sound initial w) (allocated : (w.cache.bufferCache i).allocated = true)
    (sector : (w.cache.bufferCache i).sectorNo = op.secNo) (free : (w.pc t).vacates = none)
    (unflushed : op.isWrite = true → ∀ u, u ≠ t → (w.pc u).flushed ≠ some i) : Sound initial (w.finish t op i) where
  explains := sound.explains.copy allocated sector
  settled := by
    apply sound.settled.move (sameMap_copy op i w.cache) _ (enters_quiet free rfl (by intro i saves; cases saves))
    intro j inSync watched
    apply inSync_copy inSync
    intro writes same
    subst same
    cases watched with
    | inl uncached => exact uncached j allocated rfl
    | inr flushed =>
      obtain ⟨u, other, flushed⟩ := flushed
      exact unflushed writes u other flushed

theorem World.acquire_some {w' : World threads} {next : World threads → World threads}
    (acquired : (w.acquire t i).map next = some w') : ∃ owner, w' = next { w with owner := owner } := by
  unfold World.acquire at acquired
  split_ifs at acquired <;> cases acquired
  exact ⟨_, rfl⟩

/-- The cache is not touched, or only where it does not count. -/
theorem Sound.enter (sound : Sound initial w) {hand : Fin 64} {owner : Fin 64 → Option (Fin threads)}
    (enters : Enters w.cache { w.cache with lookupStartIndex := hand } w.pc t new) :
    Sound initial { w with
      cache := { w.cache with lookupStartIndex := hand }, owner := owner, pc := update w.pc t new } where
  explains := sound.explains.silent ⟨sound.explains.coherent.unique, sound.explains.coherent.clean⟩ rfl
  settled := sound.settled.move (fun _ => ⟨rfl, rfl⟩) (fun _ inSync _ => inSync) enters

/-- The hand looks at the next slot. -/
theorem Sound.turnHand (sound : Sound initial w) (i : Fin 64)
    (clearing : Enters w.cache { w.cache with lookupStartIndex := w.cache.lookupStartIndex } w.pc t (.clearing op i))
    (evicting : Enters w.cache { w.cache with lookupStartIndex := i + 1 } w.pc t (.evicting op i))
    (owner : Fin 64 → Option (Fin threads)) :
    Sound initial { w with cache := (turnHand op i w.cache).2, owner := owner
                           pc := update w.pc t (turnHand op i w.cache).1 } := by
  unfold CacheRace.turnHand
  split
  next => exact sound.enter clearing
  next => exact sound.enter evicting

/-- A thread has not found its sector. -/
theorem enters_miss (free : (pc t).vacates = none) (alone : ∀ u, (pc u).missing = false)
    (uncached : Uncached c op.secNo) (wants : new.wants = some op.secNo) (flushed : new.flushed = none)
    (hunts : new.hunts = true → ∀ i, (c.bufferCache i).allocated = true)
    (vacates : ∀ i, new.vacates = some i → (c.bufferCache i).allocated = false) : Enters c c' pc t new := by
  obtain ⟨notSaves, notFills⟩ := Pc.only_wants wants
  constructor
  case alone => exact fun _ u _ => alone u
  case wants =>
    intro s wanted
    cases wants.symm.trans wanted
    exact uncached
  case hunts => exact hunts
  case flushed =>
    intro i written
    cases flushed.symm.trans written
  case vacates => exact vacates
  case keeps =>
    intro i vacated
    cases free.symm.trans vacated
  case saves =>
    intro i saves
    cases notSaves.symm.trans saves
  case fills =>
    intro s i fills
    cases notFills.symm.trans fills

/-- A call begins. -/
theorem Sound.begin (sound : Sound initial w) (at_ : w.pc t = .idle) (calm : Calm { thread := t, call := .op op } w) :
    Sound initial (w.begin t op) := by
  have free : (w.pc t).vacates = none := congrArg Pc.vacates at_
  unfold Calm at calm
  simp only [at_] at calm
  unfold World.begin
  cases found : w.cache.findSlot op.secNo with
  | some i =>
    rw [found] at calm
    obtain ⟨allocated, sector⟩ := findSlot_some found
    exact sound.finish allocated sector free fun writes u _ => calm writes u
  | none =>
    rw [found] at calm
    have uncached : Uncached w.cache op.secNo := findSlot_none found
    unfold findVictim
    cases chosen : (finRange 64).find? fun i => !(w.cache.bufferCache i).allocated with
    | some i =>
      have vacant : (w.cache.bufferCache i).allocated = false := by simpa using find?_some chosen
      apply sound.enter
      apply enters_miss free calm uncached rfl rfl (by intro hunts; cases hunts)
      intro j vacates
      cases vacates
      exact vacant
    | none =>
      have full : ∀ i, (w.cache.bufferCache i).allocated = true := by
        intro i
        simpa using find?_eq_none.mp chosen i (mem_finRange i)
      exact sound.turnHand _ (enters_miss free calm uncached rfl rfl (fun _ => full) nofun)
        (enters_miss free calm uncached rfl rfl (fun _ => full) nofun) w.owner

theorem Sound.flush (sound : Sound initial w) (allocated : (w.cache.bufferCache i).allocated = true)
    (enters : Enters w.cache (w.flush i).cache w.pc t new) : Sound initial ((w.flush i).setPc t new) := by
  obtain ⟨coherent, same⟩ := sound.explains.coherent.flush allocated
  refine ⟨sound.explains.silent coherent same, sound.settled.move (fun _ => ⟨rfl, rfl⟩) ?_ enters⟩
  intro j inSync watched
  show update w.cache.disk _ _ (w.cache.bufferCache j).sectorNo = (w.cache.bufferCache j).data
  by_cases sameSector : (w.cache.bufferCache j).sectorNo = (w.cache.bufferCache i).sectorNo
  · have slot : j = i := by
      cases watched with
      | inl uncached => exact absurd sameSector.symm (uncached i allocated)
      | inr flushed =>
        obtain ⟨u, _, flushed⟩ := flushed
        exact sound.explains.coherent.unique j i (sound.settled.hunting (Pc.hunts_of_flushed flushed) j)
          allocated sameSector
    subst slot
    exact update_self _ _ _
  · rw [update_of_ne sameSector]
    exact inSync

theorem Sound.vacate (sound : Sound initial w) (hunts : (w.pc t).hunts = true) (wants : (w.pc t).wants = some op.secNo)
    (inSync : InSync w.cache i) : Sound initial ((w.vacate i).setPc t (.evicted op i)) := by
  obtain ⟨coherent, same⟩ := coherent_vacate sound.explains.coherent (sound.settled.hunting hunts i) inSync
  exact ⟨sound.explains.silent coherent same, sound.settled.vacate sound.explains.coherent hunts wants inSync⟩

theorem Sound.clearAccessed (sound : Sound initial w)
    (enters : Enters w.cache (w.cache.setSlot i { w.cache.bufferCache i with accessed := false }) w.pc t new) :
    Sound initial ((w.setCache (w.cache.setSlot i { w.cache.bufferCache i with accessed := false })).setPc t new) := by
  obtain ⟨coherent, same⟩ := sound.explains.coherent.clearAccessed i
  have map : SameMap w.cache (w.cache.setSlot i { w.cache.bufferCache i with accessed := false }) :=
    sameMap_setSlot rfl rfl
  refine ⟨sound.explains.silent coherent same, sound.settled.move map ?_ enters⟩
  intro j inSync _
  show w.cache.disk ((w.cache.setSlot i { w.cache.bufferCache i with accessed := false }).bufferCache j).sectorNo =
    ((w.cache.setSlot i { w.cache.bufferCache i with accessed := false }).bufferCache j).data
  by_cases same : j = i
  · subst same
    rw [setSlot_same]
    exact inSync
  · rw [setSlot_other _ _ same]
    exact inSync

theorem step_sound {label : Label threads} {w' : World threads} (sound : Sound initial w) (calm : Calm label w)
    (taken : step label w = some w') : Sound initial w' := by
  obtain ⟨t, call⟩ := label
  have still : ∀ owner, Sound initial { w with owner := owner } := fun _ => ⟨sound.explains, sound.settled⟩
  have coherent := sound.explains.coherent
  unfold step at taken
  dsimp only at taken
  cases at_ : w.pc t with rw [at_] at taken
  | idle =>
    cases call with
    | op op =>
      cases taken
      exact sound.begin at_ calm
    | writeBack =>
      cases taken
      exact sound.enter
        (enters_quiet (congrArg Pc.vacates at_) (nextDirty_missing _ _) fun _ => nextDirty_allocated)
  | clearing op i =>
    obtain ⟨owner, rfl⟩ := World.acquire_some taken
    apply (still owner).clearAccessed
    exact sound.settled.stays at_
  | cleared op i =>
    cases taken
    exact sound.turnHand (i + 1) (sound.settled.stays at_) (sound.settled.stays at_) _
  | evicting op i =>
    obtain ⟨owner, rfl⟩ := World.acquire_some taken
    have hunts : (w.pc t).hunts = true := congrArg Pc.hunts at_
    split
    next dirty =>
      apply (still owner).enter
      exact sound.settled.stays at_
    next clean =>
      rw [Bool.not_eq_true] at clean
      exact (still owner).vacate hunts (congrArg Pc.wants at_)
        (coherent.clean i (sound.settled.hunting hunts i) clean).symm
  | writing op i =>
    cases taken
    apply sound.flush (sound.settled.hunting (congrArg Pc.hunts at_) i)
    refine sound.settled.stays at_ ⟨rfl, rfl, rfl, rfl, rfl, rfl⟩ fun j flushed => ?_
    cases flushed
    exact update_self _ _ _
  | written op i =>
    cases taken
    exact sound.vacate (congrArg Pc.hunts at_) (congrArg Pc.wants at_) (sound.settled.flushed (congrArg Pc.flushed at_))
  | evicted op i | loaded op i =>
    cases taken
    apply sound.enter
    exact sound.settled.stays at_
  | loading _ i | saving i =>
    obtain ⟨owner, rfl⟩ := World.acquire_some taken
    apply sound.enter
    exact sound.settled.stays at_
  | reading op i =>
    cases taken
    obtain ⟨coherent', same⟩ := coherent.load op.secNo { w.cache.bufferCache i with
      data := w.cache.disk op.secNo, allocated := true, accessed := true, sectorNo := op.secNo }
      (sound.settled.vacant (congrArg Pc.vacates at_)) (sound.settled.wanted (congrArg Pc.wants at_)) rfl rfl rfl
    exact ⟨sound.explains.silent coherent' same, sound.settled.load at_ rfl rfl⟩
  | copying op i =>
    cases taken
    obtain ⟨allocated, sector⟩ := sound.settled.filled (congrArg Pc.fills at_)
    apply sound.finish allocated sector (congrArg Pc.vacates at_)
    intro _ u other flushed
    exact other (sound.settled.single (Pc.missing_of_flushed flushed) (congrArg Pc.missing at_))
  | storing i =>
    cases taken
    have saves : (w.pc t).saves = some i := congrArg Pc.saves at_
    have quiet : ∀ c', Enters w.cache c' w.pc t (.stored i) := fun _ => enters_quiet (congrArg Pc.vacates at_) rfl nofun
    cases sound.settled.saved saves with
    | inl allocated => exact sound.flush allocated (quiet _)
    | inr vacated =>
      -- the slot has been emptied meanwhile, and what is written is on the disk already
      obtain ⟨u, vacates⟩ := vacated
      have inSync := (sound.settled.stale vacates saves).1
      have unchanged : w.flush i = w := congrArg (fun cache => w.setCache cache) (flush_inSync inSync)
      rw [unchanged]
      exact sound.enter (quiet _)
  | stored i =>
    cases taken
    exact sound.enter
      (enters_quiet (congrArg Pc.vacates at_) (nextDirty_missing _ _) fun _ => nextDirty_allocated)

/-! ## Runs -/

deriving instance DecidableEq for CacheReply

theorem start_sound (threads : Nat) (before : CacheState) : Sound before.disk (start threads before) where
  explains := ⟨coherent_init before, rfl, logical_init before⟩
  settled := by
    constructor
    case single => exact fun missing => nomatch missing
    case wanted => exact fun wants => nomatch wants
    case hunting => exact fun hunts => nomatch hunts
    case flushed => exact fun flushed => nomatch flushed
    case vacant => exact fun vacates => nomatch vacates
    case stale => exact fun vacates => nomatch vacates
    case saved => exact fun saves => nomatch saves
    case filled => exact fun fills => nomatch fills

/-- No two slots carry the same sector, and the calls that are completed, in the order of their `memcpy`, have the
replies that an array of sectors gives: a read gives the bytes of its sector, with every write that was completed
before. -/
theorem calls_explained {threads : Nat} (before : CacheState) {w : World threads}
    (reached : Reaches step Calm (start threads before) w) :
    (∀ i j, (w.cache.bufferCache i).allocated = true → (w.cache.bufferCache j).allocated = true →
      (w.cache.bufferCache i).sectorNo = (w.cache.bufferCache j).sectorNo → i = j) ∧
    (sectorArray.run (w.log.map fun done => done.1.call) before.disk).1 = w.log.map Prod.snd := by
  have sound := reached.invariant (Sound before.disk) (start_sound threads before) step_sound
  exact ⟨sound.explains.coherent.unique, sound.explains.replies⟩

/-- Every sector is filled with its number. -/
def numbered : CacheState :=
  .boot fun s => ⟨replicate 512 (UInt8.ofNat s.toNat), length_replicate⟩

def turn (thread : Fin 2) (op : Op) : Label 2 :=
  { thread := thread, call := .op op }

/-- One thread reads a sector, and writes to it while the other writes back. -/
theorem calls_explained_example : ∃ w : World 2, Reaches step Calm (start 2 numbered) w ∧
    w.log.map Prod.snd = [.bytes [1], .done, .bytes [7]] ∧
    (sectorArray.run (w.log.map fun done => done.1.call) numbered.disk).1 = w.log.map Prod.snd := by
  obtain ⟨w, reached, replies⟩ := exists_reached step Calm (start 2 numbered)
    (fun w => w.log.map Prod.snd = [.bytes [1], .done, .bytes [7]])
    (replicate 5 (turn 0 (.read 1 1 0)) ++ [turn 0 (.write 1 [7] 0)] ++ [{ thread := 1, call := .writeBack }] ++
      [{ thread := 1, call := .writeBack }, turn 0 (.read 1 1 0)])
    (by decide +kernel)
  exact ⟨w, reached, replies, (calls_explained numbered reached).2⟩

/-- Two threads load different sectors into the same free slot, and the first copies what the second has loaded. -/
theorem read_other_sector : ∃ w : World 2, Reaches step (fun _ _ => True) (start 2 numbered) w ∧
    (sectorArray.run (w.log.map fun done => done.1.call) numbered.disk).1 ≠ w.log.map Prod.snd := by
  apply exists_reached step (fun _ _ => True) (start 2 numbered) _
    ([turn 0 (.read 1 1 0), turn 1 (.read 2 1 0)] ++ replicate 3 (turn 0 (.read 1 1 0)) ++
      replicate 3 (turn 1 (.read 2 1 0)) ++ [turn 0 (.read 1 1 0)])
  decide +kernel

end Pintos.Filesys.CacheRace
