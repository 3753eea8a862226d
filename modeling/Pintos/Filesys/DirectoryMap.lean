import Pintos.Filesys.DirectoryFile

/-! # A directory is a finite map

The entries of a directory are the slots of a table, from names to sectors, and those of its inode in `Directory`.
-/

namespace Pintos.DirectoryFile

open Library Directory List Option

variable {data : List UInt8} {name : CString} {sector : UInt32} {m : Map CString UInt32} {e : DirEntry} {ofs i : Nat}

def DirEntry.slot (e : DirEntry) : Option (Σ _ : CString, UInt32) :=
  if e.inUse then some ⟨e.string, e.inodeSector⟩ else none

/-- The slots of a directory. -/
def slots (data : List UInt8) : Slots CString UInt32 :=
  (layout.records data).map DirEntry.slot

/-- A directory holds a map in whole entries. -/
structure Holds (data : List UInt8) (m : Map CString UInt32) : Prop where
  whole : entrySize ∣ data.length
  entries : (slots data).Represents m

theorem DirEntry.slot_eq_some :
    e.slot = some ⟨name, sector⟩ ↔ e.inUse = true ∧ e.string = name ∧ e.inodeSector = sector := by
  rw [DirEntry.slot]
  split <;> simp_all

theorem DirEntry.slot_eq_none : e.slot = none ↔ e.inUse = false := by
  rw [DirEntry.slot]
  split <;> simp_all

/-! ## `lookup` -/

theorem lookup_some (found : lookup data name = some (ofs, e)) :
    ∃ i, ofs = layout.size * i ∧ (layout.records data)[i]? = some e ∧ e.slot = some ⟨name, e.inodeSector⟩ := by
  rw [lookup] at found
  rcases index : (layout.records data).findIdx? fun e => e.inUse && e.string = name with _ | i
  · obtain ⟨_, scanned⟩ := layout.scan_missing (e := []) index
    rw [scanned] at found
    cases found
  obtain ⟨buffer, scanned, record, satisfied⟩ := layout.scan_found (e := []) index
  rw [scanned] at found
  cases found
  have satisfied : (layout.decode buffer).inUse = true ∧ (layout.decode buffer).string = name := by
    simpa using satisfied
  exact ⟨i, rfl, record, DirEntry.slot_eq_some.mpr ⟨satisfied.1, satisfied.2, rfl⟩⟩

theorem lookup_none (missing : lookup data name = none) : some ⟨name, sector⟩ ∉ slots data := by
  intro isSlot
  obtain ⟨e, isRecord, isUsed⟩ := mem_map.mp isSlot
  obtain ⟨inUse, named, _⟩ := DirEntry.slot_eq_some.mp isUsed
  rw [lookup] at missing
  cases index : (layout.records data).findIdx? fun e => e.inUse && e.string = name with
  | none =>
    have other := findIdx?_eq_none_iff.mp index e isRecord
    simp [inUse, named] at other
  | some i =>
    obtain ⟨buffer, scanned, _⟩ := layout.scan_found (e := []) index
    rw [scanned] at missing
    cases missing

theorem getElem?_slots (found : (layout.records data)[i]? = some e) : (slots data)[i]? = some e.slot := by
  rw [slots, getElem?_map, found]
  rfl

/-- `dir_lookup` finds the value of a name in the map. -/
theorem Holds.dirLookup (holds : Holds data m) (name : CString) : dirLookup data name = m.lookup name := by
  rw [DirectoryFile.dirLookup]
  cases found : lookup data name with
  | none =>
    cases inMap : m.lookup name with
    | none => rfl
    | some sector => exact absurd (holds.entries.lookup.mp inMap) (lookup_none found)
  | some entry =>
    obtain ⟨i, _, record, isUsed⟩ := lookup_some found
    have isSlot : some ⟨name, entry.2.inodeSector⟩ ∈ slots data := isUsed ▸ mem_of_getElem? (getElem?_slots record)
    exact (holds.entries.lookup.mpr isSlot).symm

theorem Holds.lookup_eq_none (holds : Holds data m) : lookup data name = none ↔ name ∉ m := by
  rw [← Finmap.lookup_eq_none, ← holds.dirLookup, DirectoryFile.dirLookup, map_eq_none_iff]

/-! ## `dir_add` and `dir_remove` -/

theorem slots_set {entry : DirEntry} (found : (layout.records data)[i]? = some entry) :
    slots (writeAt data (layout.encode e) (layout.size * i)) = (slots data).set i e.slot := by
  rw [slots, layout.records_writeAt_of_lt (List.getElem?_eq_some_iff.mp found).1, List.map_set]
  rfl

theorem slots_append (whole : entrySize ∣ data.length) :
    slots (writeAt data (layout.encode e) (layout.size * (layout.records data).length)) = slots data ++ [e.slot] := by
  rw [slots, layout.records_writeAt_end whole, map_append]
  rfl

/-- The names that `dir_add` accepts. -/
def CString.IsFileName (name : CString) : Prop :=
  1 ≤ name.chars.length ∧ name.chars.length ≤ nameMax

instance (name : CString) : Decidable name.IsFileName :=
  inferInstanceAs (Decidable (_ ∧ _))

theorem CString.isFileName_iff : name.IsFileName ↔ ¬(name.chars = [] ∨ nameMax < name.chars.length) := by
  rw [CString.IsFileName, ← length_eq_zero_iff]
  omega

/-- The entry that `dir_add` writes, in the first free slot or after the last one. -/
theorem dirAdd_written (sector : UInt32) (isName : name.IsFileName) (missing : lookup data name = none)
    (bytes : List UInt8) :
    ∃ e : DirEntry, e.inUse = true ∧ e.string = name ∧ e.inodeSector = sector ∧ dirAdd bytes name sector data =
      (true, writeAt data (layout.encode e) (layout.size *
        ((layout.records data).findIdx? fun e => !e.inUse).getD (layout.records data).length)) := by
  have notFound : ¬(lookup data name).isSome = true := by simp [missing]
  obtain ⟨flag, buffer, scanned⟩ : ∃ flag buffer, layout.scan data (fun e => !e.inUse) 0 bytes =
      (flag, layout.size * ((layout.records data).findIdx? fun e => !e.inUse).getD (layout.records data).length,
        buffer) := by
    cases index : (layout.records data).findIdx? fun e => !e.inUse with
    | some i =>
      obtain ⟨buffer, scanned, -⟩ := layout.scan_found (e := bytes) index
      exact ⟨true, buffer, scanned⟩
    | none =>
      obtain ⟨buffer, scanned⟩ := layout.scan_missing (e := bytes) index
      exact ⟨false, buffer, scanned⟩
  rw [dirAdd, if_neg (CString.isFileName_iff.mp isName), if_neg notFound, scanned]
  let e := layout.decode buffer
  exact ⟨{ e with inUse := true, name := strlcpy e.name name, inodeSector := sector }, rfl,
    stringOf_strlcpy isName.2, rfl,
    rfl⟩

section

variable (holds : Holds data m)

include holds

/-- An entry is added in a free slot where there is one, and else in a new slot. -/
theorem Holds.add (isName : name.IsFileName) (missing : name ∉ m) (bytes : List UInt8) :
    ∃ data', dirAdd bytes name sector data = (true, data') ∧ Holds data' (m.insert name sector) ∧
      (slots data').length ≤ max (slots data).length (m.insert name sector).keys.card := by
  obtain ⟨e, inUse, named, isSector, added⟩ :=
    dirAdd_written sector isName (holds.lookup_eq_none.mpr missing) bytes
  have newSlot : e.slot = some ⟨name, sector⟩ := DirEntry.slot_eq_some.mpr ⟨inUse, named, isSector⟩
  refine ⟨_, added, ?_⟩
  cases index : (layout.records data).findIdx? fun e => !e.inUse with
  | some i =>
    obtain ⟨inside, isFree, -⟩ := List.findIdx?_eq_some_iff_getElem.mp index
    have record := List.getElem?_eq_getElem inside
    have free : (slots data)[i]? = some none := by
      rw [getElem?_slots record, DirEntry.slot_eq_none.mpr (by simpa using isFree)]
    rw [getD_some]
    refine ⟨⟨(layout.length_writeAt_of_lt inside).symm ▸ holds.whole, ?_⟩, ?_⟩ <;> rw [slots_set record]
    · exact newSlot ▸ holds.entries.set free missing
    · rw [length_set]
      exact le_max_left _ _
  | none =>
    have represents : Slots.Represents (slots data ++ [some ⟨name, sector⟩]) (m.insert name sector) :=
      holds.entries.append missing
    rw [getD_none]
    refine ⟨⟨(layout.length_writeAt_end holds.whole).symm ▸ Nat.dvd_add holds.whole dvd_rfl, ?_⟩, ?_⟩ <;>
      rw [slots_append holds.whole, newSlot]
    · exact represents
    · have full : none ∉ slots data ++ [some ⟨name, sector⟩] := by
        simp only [mem_append, mem_singleton, reduceCtorEq, or_false]
        intro isFree
        obtain ⟨e, isRecord, isFree⟩ := mem_map.mp isFree
        have used := findIdx?_eq_none_iff.mp index e isRecord
        simp [DirEntry.slot_eq_none.mp isFree] at used
      rw [represents.length full]
      exact le_max_right _ _

theorem Holds.add_refused (refused : ¬(name.IsFileName ∧ name ∉ m)) (bytes : List UInt8) :
    dirAdd bytes name sector data = (false, data) := by
  rw [dirAdd]
  split
  next => rfl
  next valid =>
    have found : (lookup data name).isSome = true := by
      rw [← ne_none_iff_isSome, ne_eq, holds.lookup_eq_none]
      exact fun missing => refused ⟨CString.isFileName_iff.mpr valid, missing⟩
    exact if_pos found

/-- An entry is removed unless its inode is kept. -/
theorem Holds.remove (inodes : Inodes) (found : m.lookup name = some sector)
    (removes : inodes.keeps sector = false) :
    ∃ data', dirRemove inodes name data = (true, data') ∧ Holds data' (m.erase name) ∧
      (slots data').length = (slots data).length := by
  have isSector := holds.dirLookup name
  rw [found, DirectoryFile.dirLookup] at isSector
  obtain ⟨⟨ofs, e⟩, isEntry, rfl⟩ := map_eq_some_iff.mp isSector
  obtain ⟨i, rfl, record, isUsed⟩ := lookup_some isEntry
  rw [dirRemove, isEntry]
  have isFree : DirEntry.slot { e with inUse := false } = none := DirEntry.slot_eq_none.mpr rfl
  have sized := layout.length_writeAt_of_lt (r := { e with inUse := false }) (List.getElem?_eq_some_iff.mp record).1
  refine ⟨_, if_neg (by simpa using removes), ⟨sized.symm ▸ holds.whole, ?_⟩, ?_⟩
  · rw [slots_set record, isFree]
    exact holds.entries.free ((getElem?_slots record).trans (congrArg some isUsed))
  · rw [slots_set record, length_set]

theorem Holds.remove_refused (inodes : Inodes)
    (kept : ∀ sector, m.lookup name = some sector → inodes.keeps sector = true) :
    dirRemove inodes name data = (false, data) := by
  rw [dirRemove]
  split
  next => rfl
  next ofs e found =>
    have isSector : m.lookup name = some e.inodeSector := by
      rw [← holds.dirLookup, DirectoryFile.dirLookup, found]
      rfl
    exact if_pos (kept _ isSector)

end

/-! ## Runs -/

/-- A call on a directory; `dir_add` with the bytes that its local `e` has at first. -/
inductive Call
  | lookup (name : CString)
  | add (e : List UInt8) (name : CString) (inodeSector : UInt32)
  | remove (inodes : Inodes) (name : CString)

inductive Reply
  | found (inodeSector : Option UInt32)
  | success (success : Bool)
  deriving DecidableEq

def directory : Machine (List UInt8) Call Reply where
  step
    | .lookup name, data => (.found (dirLookup data name), data)
    | .add e name inodeSector, data => (dirAdd e name inodeSector data).map .success id
    | .remove inodes name, data => (dirRemove inodes name data).map .success id

/-- What a directory is for: a finite map from names to sectors. -/
def finiteMap : Machine (Map CString UInt32) Call Reply where
  step
    | .lookup name, m => (.found (m.lookup name), m)
    | .add _ name inodeSector, m =>
      if name.IsFileName ∧ name ∉ m then (.success true, m.insert name inodeSector) else (.success false, m)
    | .remove inodes name, m =>
      if (m.lookup name).any fun sector => !inodes.keeps sector then (.success true, m.erase name)
      else (.success false, m)

/-- The greatest number of entries of the map in a run. -/
def peak : List Call → Map CString UInt32 → Nat
  | [], m => m.keys.card
  | call :: calls, m => max m.keys.card (peak calls (finiteMap.step call m).2)

theorem card_le_peak (calls : List Call) (m : Map CString UInt32) : m.keys.card ≤ peak calls m := by
  cases calls with
  | nil => exact le_rfl
  | cons => exact le_max_left _ _

/-- One call does to the directory what it does to the map. -/
theorem Holds.step (holds : Holds data m) (call : Call) :
    (directory.step call data).1 = (finiteMap.step call m).1 ∧
      Holds (directory.step call data).2 (finiteMap.step call m).2 ∧
      (slots (directory.step call data).2).length ≤ max (slots data).length (finiteMap.step call m).2.keys.card := by
  cases call with
  | lookup name => exact ⟨congrArg Reply.found (holds.dirLookup name), holds, le_max_left _ _⟩
  | add e name sector =>
    simp only [directory, finiteMap]
    split
    next accepted =>
      obtain ⟨data', added, after, count⟩ := holds.add accepted.1 accepted.2 e
      rw [added]
      exact ⟨rfl, after, count⟩
    next refused =>
      rw [holds.add_refused refused]
      exact ⟨rfl, holds, le_max_left _ _⟩
  | remove inodes name =>
    simp only [directory, finiteMap]
    split
    next removes =>
      obtain ⟨sector, found, removes⟩ := any_eq_true _ _ |>.mp removes
      obtain ⟨data', removed, after, count⟩ := holds.remove inodes found (by simpa using removes)
      rw [removed]
      exact ⟨rfl, after, count.le.trans (le_max_left _ _)⟩
    next kept =>
      have kept : ∀ sector, m.lookup name = some sector → inodes.keeps sector = true := by
        intro sector found
        simpa [found] using kept
      rw [holds.remove_refused inodes kept]
      exact ⟨rfl, holds, le_max_left _ _⟩

theorem simulation : Simulation directory finiteMap Holds where
  step call {_ _} holds := ⟨(holds.step call).1, (holds.step call).2.1⟩

/-- A run makes new slots only where the map needs them. -/
theorem Holds.length_slots (holds : Holds data m) (calls : List Call) :
    (slots (directory.run calls data).2).length ≤ max (slots data).length (peak calls m) := by
  induction calls generalizing data m with
  | nil => exact le_max_left _ _
  | cons call calls ih =>
    obtain ⟨_, after, count⟩ := holds.step call
    have highest := card_le_peak calls (finiteMap.step call m).2
    calc (slots (directory.run calls (directory.step call data).2).2).length
        ≤ max (slots (directory.step call data).2).length (peak calls (finiteMap.step call m).2) := ih after
      _ ≤ max (slots data).length (peak (call :: calls) m) := by
        rw [peak]
        omega

/-- The map of a new directory. -/
def newDirectory (sector parent : UInt32) : Map CString UInt32 :=
  ((∅ : Map CString UInt32).insert dot sector).insert dotDot parent

theorem slot_zeros {bytes : List UInt8} (zeros : ∀ byte ∈ bytes, byte = 0) : (layout.decode bytes).slot = none := by
  apply DirEntry.slot_eq_none.mpr
  show decide ((bytes.drop 19).headD 0 ≠ 0) = false
  cases rest : bytes.drop 19 with
  | nil => rfl
  | cons byte _ =>
    have isByte : byte ∈ bytes.drop 19 := rest ▸ mem_cons_self
    rw [zeros byte (mem_of_mem_drop isByte)]
    rfl

theorem length_slots_zeros (entryCnt : Nat) : (slots (replicate (entryCnt * entrySize) 0)).length = entryCnt := by
  rw [slots, length_map, layout.length_records, length_replicate]
  exact Nat.mul_div_cancel _ layout.size_pos

theorem holds_zeros (entryCnt : Nat) : Holds (replicate (entryCnt * entrySize) 0) ∅ := by
  refine ⟨⟨entryCnt, by rw [length_replicate, mul_comm]⟩, ?_⟩
  have free : ∀ slot ∈ slots (replicate (entryCnt * entrySize) 0), slot = none := by
    intro slot isSlot
    obtain ⟨e, isRecord, rfl⟩ := mem_map.mp isSlot
    obtain ⟨i, _, rfl⟩ := mem_map.mp isRecord
    apply slot_zeros
    intro byte isByte
    exact (mem_replicate.mp (mem_of_mem_drop (mem_of_mem_take isByte))).2
  have unused : (slots (replicate (entryCnt * entrySize) 0)).reduceOption = [] :=
    filterMap_eq_nil_iff.mpr free
  rw [Slots.Represents, Slots.contents, unused]
  rfl

theorem dirCreate_holds (sector parent : UInt32) (entryCnt : Nat) (e e' : List UInt8) :
    ∃ data, dirCreate sector parent entryCnt e e' = (true, data) ∧ Holds data (newDirectory sector parent) ∧
      (slots data).length ≤ max entryCnt (newDirectory sector parent).keys.card := by
  have missing : dotDot ∉ (∅ : Map CString UInt32).insert dot sector := by
    rw [Finmap.mem_insert, not_or]
    exact ⟨by decide, Finmap.notMem_empty⟩
  have isName : dot.IsFileName ∧ dotDot.IsFileName := by decide
  obtain ⟨data, addedDot, holds, count⟩ := (holds_zeros entryCnt).add isName.1 Finmap.notMem_empty e
  obtain ⟨data', addedDotDot, holds', count'⟩ := holds.add isName.2 missing e'
  refine ⟨data', ?_, holds', ?_⟩
  · rw [dirCreate, addedDot]
    exact addedDotDot
  · have one : ((∅ : Map CString UInt32).insert dot sector).keys.card = 1 := rfl
    have two : (newDirectory sector parent).keys.card = 2 := rfl
    have count' : (slots data').length ≤ max (slots data).length (newDirectory sector parent).keys.card := count'
    rw [length_slots_zeros, one] at count
    omega

/-- A directory is a finite map. -/
theorem directory_is_map (sector parent : UInt32) (entryCnt : Nat) (e e' : List UInt8) (calls : List Call) :
    ∃ data, dirCreate sector parent entryCnt e e' = (true, data) ∧
      (directory.run calls data).1 = (finiteMap.run calls (newDirectory sector parent)).1 ∧
      ((slots (directory.run calls data).2).reduceOption.map Sigma.fst).Nodup ∧
      (slots (directory.run calls data).2).length ≤ max entryCnt (peak calls (newDirectory sector parent)) := by
  obtain ⟨data, created, holds, count⟩ := dirCreate_holds sector parent entryCnt e e'
  obtain ⟨replies, after⟩ := simulation.run holds calls
  refine ⟨data, created, replies, after.entries.nodup, ?_⟩
  have slots := holds.length_slots calls
  have highest := card_le_peak calls (newDirectory sector parent)
  omega

/-! ## The entries of an inode -/

/-- An entry as `Directory` has it. -/
def DirEntry.entry (e : DirEntry) : Directory.DirEntry :=
  ⟨e.inodeSector.toNat, characters e.string.chars, e.inUse⟩

/-- The entries of an inode are those in some bytes. -/
structure Reads (inode : Inode) (data : List UInt8) : Prop where
  entries : inode.entries = (layout.records data).map DirEntry.entry
  tail : inode.tail = data.length % entrySize

def ReadsAt (s : State) (dir : SectorNo) (data : List UInt8) : Prop :=
  ∀ inode, s.inodes dir = some inode → Reads inode data

variable {s s' : State} {dir x : SectorNo} {inode : Inode} {result : Bool}

section

variable (reads : Reads inode data)

include reads

/-- `lookup` finds the same entry among the bytes. -/
theorem Reads.lookup : inode.lookup (characters name.chars) =
    (DirectoryFile.lookup data name).map fun found => (found.1 / entrySize, found.2.entry) := by
  have same : (inode.entries.findIdx? fun e => e.inUse && e.name = characters name.chars) =
      (layout.records data).findIdx? fun e => e.inUse && e.string = name := by
    have injective : Function.Injective fun byte : UInt8 => Char.ofNat byte.toNat := fun _ _ => (character_inj _ _).mp
    rw [reads.entries, findIdx?_map]
    simp [Function.comp_def, DirEntry.entry, characters, injective.list_map.eq_iff, CString.ext_iff]
  rw [Inode.lookup, lookupFrom_eq, same, DirectoryFile.lookup]
  cases index : (layout.records data).findIdx? fun e => e.inUse && e.string = name with
  | none =>
    obtain ⟨_, scanned⟩ := layout.scan_missing (e := []) index
    rw [scanned]
    rfl
  | some i =>
    obtain ⟨buffer, scanned, record, -⟩ := layout.scan_found (e := []) index
    have isEntry : inode.entries[i]? = some (layout.decode buffer).entry := by
      rw [reads.entries, getElem?_map, record, map_some]
    rw [scanned, bind_some, isEntry]
    simp [show layout.size = entrySize from rfl, entrySize]

theorem Reads.set (inside : i < (layout.records data).length) (e : DirEntry) :
    Reads { inode with entries := inode.entries.set i e.entry } (writeAt data (layout.encode e) (layout.size * i)) where
  entries := by rw [layout.records_writeAt_of_lt inside, List.map_set, ← reads.entries]
  tail := by rw [layout.length_writeAt_of_lt inside, ← reads.tail]

theorem Reads.append (full : inode.tail = 0) (e : DirEntry) (sectors : List SectorNo) :
    Reads { inode with entries := inode.entries ++ [e.entry], sectors := sectors }
      (writeAt data (layout.encode e) (layout.size * (layout.records data).length)) := by
  have whole : layout.size ∣ data.length := Nat.dvd_of_mod_eq_zero (reads.tail.symm.trans full)
  constructor
  · rw [layout.records_writeAt_end whole, map_append, ← reads.entries]
    rfl
  · rw [layout.length_writeAt_end whole, show layout.size = entrySize from rfl, Nat.add_mod_right]
    exact reads.tail

end

section

variable (reads : ReadsAt s dir data)

include reads

/-- `dir_add` writes the entry that it adds. -/
theorem ReadsAt.dirAdd (bytes : List UInt8)
    (adds : s.dirAdd dir (characters name.chars) sector.toNat = some (result, s')) :
    (DirectoryFile.dirAdd bytes name sector data).1 = result ∧
      ReadsAt s' dir (DirectoryFile.dirAdd bytes name sector data).2 := by
  obtain ⟨inode, found, adds⟩ := bind_eq_some_iff.mp adds
  have entries := reads inode found
  have refused : (characters name.chars = [] ∨ nameMax < (characters name.chars).length ∨
      (inode.lookup (characters name.chars)).isSome) ↔ ¬ (name.IsFileName ∧ DirectoryFile.lookup data name = none) := by
    rw [entries.lookup, CString.isFileName_iff]
    cases DirectoryFile.lookup data name <;> simp [characters, or_iff_not_imp_left]
  by_cases accepted : name.IsFileName ∧ DirectoryFile.lookup data name = none
  case neg =>
    have fails : DirectoryFile.dirAdd bytes name sector data = (false, data) := by
      rw [DirectoryFile.dirAdd, ← ite_or, if_pos]
      by_contra valid
      exact accepted ⟨CString.isFileName_iff.mpr (not_or.mp valid).1, by simpa using (not_or.mp valid).2⟩
    rw [if_pos (refused.mpr accepted)] at adds
    cases adds
    rw [fails]
    exact ⟨rfl, reads⟩
  rw [if_neg (refused.not.mpr (not_not.mpr accepted))] at adds
  obtain ⟨e, inUse, named, isSector, added⟩ := dirAdd_written sector accepted.1 accepted.2 bytes
  have isEntry : e.entry = ⟨sector.toNat, characters name.chars, true⟩ := by rw [DirEntry.entry, inUse, named, isSector]
  have free : (inode.entries.findIdx? fun e => !e.inUse) = (layout.records data).findIdx? fun e => !e.inUse := by
    rw [entries.entries, findIdx?_map]
    rfl
  rw [added]
  simp only [free, ← isEntry] at adds
  split at adds
  next i index =>
    cases adds
    refine ⟨rfl, fun inode' found' => ?_⟩
    cases (Function.update_self ..).symm.trans found'
    rw [index]
    exact entries.set (List.findIdx?_eq_some_iff_getElem.mp index).1 e
  next index =>
    split_ifs at adds with room
    obtain ⟨⟨sectors, after⟩, -, adds⟩ := bind_eq_some_iff.mp adds
    cases adds
    refine ⟨rfl, fun inode' found' => ?_⟩
    cases (Function.update_self ..).symm.trans found'
    rw [index]
    exact entries.append (by simpa using (not_or.mp room).1) e _

theorem ReadsAt.count (found : s.inodes x = some inode) (count : Nat) (removed : Bool) :
    ReadsAt (s.setInode x { inode with openCnt := count, removed := removed }) dir data := by
  intro inode' found'
  by_cases here : dir = x
  · subst here
    cases (Function.update_self ..).symm.trans found'
    exact ⟨(reads inode found).entries, (reads inode found).tail⟩
  · exact reads inode' (by simpa [State.setInode, here] using found')

theorem ReadsAt.close (closes : s.inodeClose x = some s') : ReadsAt s' dir data := by
  obtain ⟨inode, isInode, closes⟩ := bind_eq_some_iff.mp closes
  split_ifs at closes
  · obtain ⟨_, -, closes⟩ := bind_eq_some_iff.mp closes
    obtain ⟨_, released, closes⟩ := bind_eq_some_iff.mp closes
    obtain ⟨_, -, rfl⟩ := map_eq_some_iff.mp released
    cases closes
    intro inode' found'
    by_cases here : dir = x
    · simp [here] at found'
    · exact reads inode' (by simpa [here] using found')
  · cases closes
    exact reads.count isInode _ _

omit reads in
/-- What `dir_remove` reads of a state. -/
def inodesOf (s : State) (currentDir : UInt32) : Inodes where
  isDirectory sector := (s.inodes sector.toNat).any Inode.isDirectory
  dirIsEmpty sector := (s.inodes sector.toNat).any Inode.dirIsEmpty
  currentDir := currentDir

/-- `dir_remove` erases the entry that it removes. -/
theorem ReadsAt.dirRemove {currentDir : UInt32}
    (removes : s.dirRemove currentDir.toNat dir (characters name.chars) = some (result, s')) :
    (DirectoryFile.dirRemove (inodesOf s currentDir) name data).1 = result ∧
      ReadsAt s' dir (DirectoryFile.dirRemove (inodesOf s currentDir) name data).2 := by
  obtain ⟨dirInode, isDir, removes⟩ := bind_eq_some_iff.mp removes
  rw [(reads dirInode isDir).lookup] at removes
  rw [DirectoryFile.dirRemove]
  rcases looked : DirectoryFile.lookup data name with _ | ⟨ofs, e⟩
  · rw [looked] at removes
    cases removes
    exact ⟨rfl, reads⟩
  obtain ⟨i, rfl, record, -⟩ := lookup_some looked
  have index : layout.size * i / entrySize = i := Nat.mul_div_cancel_left i (by decide)
  simp only [looked, map_some, index] at removes
  obtain ⟨s₁, opened, removes⟩ := bind_eq_some_iff.mp removes
  obtain ⟨inode, found, rfl⟩ := map_eq_some_iff.mp opened
  obtain ⟨target, isTarget, removes⟩ := bind_eq_some_iff.mp removes
  cases (Function.update_self ..).symm.trans isTarget
  have reads := reads.count found (inode.openCnt + 1) inode.removed
  have keeps : (inodesOf s currentDir).keeps e.inodeSector = true ↔
      e.entry.inodeSector = currentDir.toNat ∨ (inode.isDirectory = true ∧ (!inode.dirIsEmpty) = true) := by
    have found : s.inodes e.inodeSector.toNat = some inode := found
    rw [Inodes.keeps, Bool.or_eq_true, decide_eq_true_iff]
    simp [inodesOf, found, DirEntry.entry, UInt32.toNat_inj]
  dsimp only
  split at removes
  next kept =>
    rw [if_pos (keeps.mpr kept)]
    obtain ⟨s₂, closed, removes⟩ := bind_eq_some_iff.mp removes
    cases removes
    exact ⟨rfl, reads.close closed⟩
  next accepted =>
    rw [if_neg (keeps.not.mpr accepted)]
    obtain ⟨dirInode, isDir, removes⟩ := bind_eq_some_iff.mp removes
    obtain ⟨marked, isMarked, removes⟩ := bind_eq_some_iff.mp removes
    obtain ⟨s₂, closed, removes⟩ := bind_eq_some_iff.mp removes
    cases removes
    refine ⟨rfl, ReadsAt.close (ReadsAt.count (fun inode' found' => ?_) isMarked _ _) closed⟩
    cases (Function.update_self ..).symm.trans found'
    exact (reads dirInode isDir).set (List.getElem?_eq_some_iff.mp record).1 { e with inUse := false }

end

end Pintos.DirectoryFile
