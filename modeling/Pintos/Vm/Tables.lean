import Mathlib.Data.List.Rotate
import Mathlib.Data.Nat.Find
import Pintos.Vm.Paging

/-! # The tables, operation by operation

What the page directories, the supplementary page tables and the bitmaps hold after each operation.  The accessed
and stack bits matter to the choice of a victim only, so that the results are about the other bits, `Pte.core`.
-/

namespace Pintos.Vm

open Kernel Library Function Option State Nat

/-! ## Page table entries -/

/-- A page table entry without its accessed and stack bits. -/
def Pte.core (pte : Pte) : Pte :=
  { pte with accessed := false, stack := false }

/-- The entry of a page that has just been installed. -/
def Pte.fresh (kpage : Kpage) (writable : Bool) : Pte :=
  { present := true, kpage, writable, dirty := false, accessed := false, stack := false }

def core (pagedir : Pid → Pagedir) (pd : Pid) (upage : Upage) : Option Pte :=
  ((pagedir pd).lookup upage).map Pte.core

variable {s' : State}

namespace State

variable {s : State} {pd pd' : Pid} {upage upage' : Upage} {page : Kpage}

theorem pagedirGetPage_eq : s.pagedirGetPage pd upage =
    (core s.pagedir pd upage).bind fun pte => if pte.present then some pte.kpage else none := by
  simp only [pagedirGetPage, lookupPage, core]
  cases (s.pagedir pd).lookup upage <;> rfl

theorem pagedirIsDirty_eq : s.pagedirIsDirty pd upage = (core s.pagedir pd upage).any Pte.dirty := by
  simp only [pagedirIsDirty, lookupPage, core]
  cases (s.pagedir pd).lookup upage <;> rfl

theorem lookupPage_updatePte (change : Pte → Pte) : (s.updatePte pd upage change).lookupPage pd' upage' =
    if pd' = pd ∧ upage' = upage then (s.lookupPage pd upage).map change else s.lookupPage pd' upage' := by
  by_cases same : pd' = pd
  · subst same
    simp only [lookupPage, updatePte, update_self, true_and]
    by_cases samePage : upage' = upage
    · rw [if_pos samePage, samePage]
      cases found : (s.pagedir pd').lookup upage <;> simp [found]
    · rw [if_neg samePage]
      cases (s.pagedir pd').lookup upage with
      | none => rfl
      | some pte => exact AList.lookup_insert_ne samePage
  · simp only [lookupPage, updatePte, update_of_ne same, same, false_and, if_false]

theorem core_updatePte_self (change : Pte → Pte) : core (s.updatePte pd upage change).pagedir pd upage =
    (s.lookupPage pd upage).map fun pte => (change pte).core := by
  show ((s.updatePte pd upage change).lookupPage pd upage).map Pte.core = _
  rw [lookupPage_updatePte, if_pos ⟨rfl, rfl⟩, map_map]
  rfl

theorem core_updatePte_ne (change : Pte → Pte) (other : ¬ (pd' = pd ∧ upage' = upage)) :
    core (s.updatePte pd upage change).pagedir pd' upage' = core s.pagedir pd' upage' := by
  show ((s.updatePte pd upage change).lookupPage pd' upage').map Pte.core = _
  rw [lookupPage_updatePte, if_neg other]
  rfl

/-- Changing bits that do not matter. -/
theorem core_updatePte {change : Pte → Pte} (keeps : ∀ pte, (change pte).core = pte.core) :
    core (s.updatePte pd upage change).pagedir = core s.pagedir := by
  funext pd' upage'
  by_cases same : pd' = pd ∧ upage' = upage
  · obtain ⟨rfl, rfl⟩ := same
    rw [core_updatePte_self]
    simp only [keeps]
    rfl
  · exact core_updatePte_ne _ same

theorem core_setAccessed (accessed : Bool) : core (s.pagedirSetAccessed pd upage accessed).pagedir = core s.pagedir :=
  core_updatePte fun _ => rfl

theorem core_setStack (stack : Bool) : core (s.pagedirSetStack pd upage stack).pagedir = core s.pagedir :=
  core_updatePte fun _ => rfl

theorem core_setPage_ne (kpage : Kpage) (writable : Bool) (other : ¬ (pd' = pd ∧ upage' = upage)) :
    core (s.pagedirSetPage pd upage kpage writable).pagedir pd' upage' = core s.pagedir pd' upage' := by
  by_cases same : pd' = pd
  · subst same
    have otherPage : upage' ≠ upage := fun isSame => other ⟨rfl, isSame⟩
    simp only [core, pagedirSetPage, update_self, AList.lookup_insert_ne otherPage]
  · simp only [core, pagedirSetPage, update_of_ne same]

/-- `set_new_dirty_page` changes stack bits. -/
theorem setNewDirtyPage_cases {motive : State → Prop} (newEsp : Nat) (pid : Pid)
    (holds : ∀ pagedir userEsp, core pagedir = core s.pagedir →
      motive { s with pagedir := pagedir, userEsp := userEsp }) : motive (s.setNewDirtyPage newEsp pid) := by
  unfold setNewDirtyPage
  split
  · exact holds _ _ ((core_setStack true).trans (core_setStack false))
  · exact holds _ _ rfl

/-! ## The user pool -/

theorem pallocGetPage_some (got : s.pallocGetPage = some (page, s')) :
    s.usedMap[page]? = some false ∧
      s' = { s with usedMap := s.usedMap.set page true, memory := update s.memory page fun _ => 0 } := by
  obtain ⟨⟨i, usedMap⟩, found, same⟩ := map_eq_some_iff.mp got
  obtain ⟨free, rfl⟩ := bitmapScanAndFlip_some found
  cases same
  exact ⟨free, rfl⟩

theorem pallocFreePage_some (freed : s.pallocFreePage page = some s') :
    s.usedMap[page]? = some true ∧ s' = { s with
      usedMap := s.usedMap.set page false, memory := update s.memory page fun _ => 0xcc } := by
  unfold pallocFreePage at freed
  split_ifs at freed with used
  exact ⟨used, (some.inj freed).symm⟩

end State

/-! ## Victims -/

variable {s : State} {k : Nat}

namespace State

/-- Whether the search passes over the entry that it has taken from the list. -/
def passesOver (p : FrameElem × State) : Bool :=
  p.2.pagedirIsAccessed p.1.pd p.1.vaddr || p.2.pagedirIsStack p.1.pd p.1.vaddr

/-- One turn: the accessed bit of the entry is cleared, and the list is turned by one. -/
def turn (p : FrameElem × State) : FrameElem × State :=
  ((p.2.frameTable ++ [p.1]).head (by simp),
    { p.2.pagedirSetAccessed p.1.pd p.1.vaddr false with frameTable := (p.2.frameTable ++ [p.1]).tail })

theorem victimLoop_succ (turns : Nat) (p : FrameElem × State) : victimLoop (turns + 1) p.1 p.2 =
    if passesOver p then victimLoop turns (turn p).1 (turn p).2 else some p := by
  rw [victimLoop]
  refine if_congr Iff.rfl ?_ rfl
  have list : (p.2.pagedirSetAccessed p.1.pd p.1.vaddr false).frameTable = p.2.frameTable := rfl
  simp only [list]
  split
  next isNil => simp at isNil
  next next rest isCons => simp only [turn, isCons, List.head_cons, List.tail_cons]

/-- The loop ends at the first entry that is not passed over. -/
theorem victimLoop_eq_some {turns : Nat} {p r : FrameElem × State} : victimLoop turns p.1 p.2 = some r ↔
    ∃ k < turns, turn^[k] p = r ∧ passesOver r = false ∧ ∀ j < k, passesOver (turn^[j] p) = true := by
  induction turns generalizing p with
  | zero => simp [victimLoop]
  | succ turns ih =>
    rw [victimLoop_succ]
    cases passes : passesOver p with
    | true =>
      rw [if_pos rfl, ih]
      constructor
      · rintro ⟨k, less, rfl, stops, before⟩
        refine ⟨k + 1, by omega, rfl, stops, ?_⟩
        intro j earlier
        cases j with
        | zero => exact passes
        | succ j => exact before j (by omega)
      · rintro ⟨_ | k, less, rfl, stops, before⟩
        · cases passes.symm.trans stops
        · exact ⟨k, by omega, rfl, stops, fun j earlier => before (j + 1) (by omega)⟩
    | false =>
      constructor
      · intro isP
        cases isP
        exact ⟨0, by omega, rfl, passes, by simp⟩
      · rintro ⟨_ | k, less, rfl, stops, before⟩
        · rfl
        · cases passes.symm.trans (before 0 (by omega))

section Turns

variable {s : State} {p : FrameElem × State}

theorem isStack_updatePte {pd : Pid} {upage : Upage} (change : Pte → Pte)
    (keeps : ∀ pte, (change pte).stack = pte.stack) :
    (s.updatePte pd upage change).pagedirIsStack = s.pagedirIsStack := by
  funext pd' upage'
  simp only [pagedirIsStack, lookupPage_updatePte]
  split
  next same =>
    rw [same.1, same.2]
    cases s.lookupPage pd upage with
    | none => rfl
    | some pte => exact keeps pte
  next => rfl

theorem isAccessed_setAccessed (pd : Pid) (upage : Upage) (x : FrameElem)
    (clear : x = ⟨pd, upage⟩ ∨ s.pagedirIsAccessed x.pd x.vaddr = false) :
    (s.pagedirSetAccessed pd upage false).pagedirIsAccessed x.pd x.vaddr = false := by
  simp only [pagedirIsAccessed, pagedirSetAccessed, lookupPage_updatePte]
  split
  next => cases s.lookupPage pd upage <;> rfl
  next other =>
    apply clear.resolve_left
    rintro rfl
    exact other ⟨rfl, rfl⟩

theorem turn_queue (k : Nat) : (turn^[k] p).1 :: (turn^[k] p).2.frameTable = (p.1 :: p.2.frameTable).rotate k := by
  induction k with
  | zero => rw [List.rotate_zero, iterate_zero_apply]
  | succ k ih =>
    rw [← List.rotate_rotate, ← ih, iterate_succ_apply', List.rotate_cons_succ, List.rotate_zero]
    exact List.cons_head_tail ..

theorem turn_keeps (k : Nat) : ∃ pagedir frameTable, (turn^[k] p).2 =
    { p.2 with pagedir := pagedir, frameTable := frameTable } ∧ core pagedir = core p.2.pagedir ∧
      (turn^[k] p).2.pagedirIsStack = p.2.pagedirIsStack := by
  induction k with
  | zero => exact ⟨_, _, rfl, rfl, rfl⟩
  | succ k ih =>
    obtain ⟨pagedir, frameTable, isState, same, sameStack⟩ := ih
    rw [iterate_succ_apply']
    generalize turn^[k] p = q at isState sameStack
    obtain ⟨totest, s⟩ := q
    cases isState
    refine ⟨_, _, rfl, (core_setAccessed false).trans same, Eq.trans ?_ sameStack⟩
    exact isStack_updatePte (fun pte => { pte with accessed := false }) (fun _ => rfl)

/-- An entry that has been passed over has its accessed bit clear. -/
theorem turn_clears {j : Nat} (earlier : j < k) :
    (turn^[k] p).2.pagedirIsAccessed (turn^[j] p).1.pd (turn^[j] p).1.vaddr = false := by
  induction k with
  | zero => cases earlier
  | succ k ih =>
    rw [iterate_succ_apply']
    apply isAccessed_setAccessed
    obtain rfl | earlier := eq_or_lt_of_le (le_of_lt_succ earlier)
    · exact .inl rfl
    · exact .inr (ih earlier)

/-- An entry that is not a stack page is taken in the second round at the latest. -/
theorem exists_not_passesOver {x : FrameElem} (member : x ∈ p.1 :: p.2.frameTable)
    (notStack : p.2.pagedirIsStack x.pd x.vaddr = false) :
    ∃ k < 2 * (p.1 :: p.2.frameTable).length, passesOver (turn^[k] p) = false := by
  obtain ⟨i, inside, rfl⟩ := List.mem_iff_getElem.mp member
  have head : ∀ k, (turn^[k] p).1 = ((p.1 :: p.2.frameTable).rotate k).head (by simp) := by
    intro k
    simp only [← turn_queue k, List.head_cons]
  have first : (turn^[i] p).1 = (p.1 :: p.2.frameTable)[i] := by
    simp only [head, List.head_eq_getElem, List.getElem_rotate, zero_add, mod_eq_of_lt inside]
  refine ⟨i + (p.1 :: p.2.frameTable).length, by omega, ?_⟩
  have again : (turn^[i + (p.1 :: p.2.frameTable).length] p).1 = (turn^[i] p).1 := by
    simp only [head, ← List.rotate_rotate]
    simp only [← List.length_rotate (p.1 :: p.2.frameTable) i, List.rotate_length]
  obtain ⟨-, -, -, -, sameStack⟩ := turn_keeps (p := p) (i + (p.1 :: p.2.frameTable).length)
  rw [passesOver, again, turn_clears (by simp), sameStack, first, notStack]
  rfl

end Turns

theorem frameTableFindVictim_some {victim : FrameElem}
    (found : s.frameTableFindVictim = some (victim, s')) : ∃ pagedir frameTable,
      s' = { s with pagedir := pagedir, frameTable := frameTable } ∧ core pagedir = core s.pagedir ∧
        s.frameTable.Perm (victim :: frameTable) ∧ s'.pagedirIsStack = s.pagedirIsStack := by
  unfold frameTableFindVictim at found
  split at found
  next => cases found
  next totest rest list =>
    obtain ⟨k, -, isTurn, -⟩ := victimLoop_eq_some (p := (totest, { s with frameTable := rest })).mp found
    obtain ⟨pagedir, frameTable, isState, same, sameStack⟩ :=
      turn_keeps (p := (totest, { s with frameTable := rest })) k
    have queue := turn_queue (p := (totest, { s with frameTable := rest })) k
    rw [isTurn] at isState queue sameStack
    cases isState
    exact ⟨pagedir, frameTable, rfl, same, list ▸ queue ▸ (List.rotate_perm ..).symm, sameStack⟩

theorem isRotated_erase {α : Type} [DecidableEq α] {x : α} {l rest : List α} (distinct : l.Nodup)
    (rotated : x :: rest = l.rotate k) : rest.IsRotated (l.erase x) := by
  have positive : 0 < l.length := by
    rw [← List.length_rotate l k, ← rotated]
    simp
  rw [List.rotate_eq_drop_append_take_mod] at rotated
  have inside := mod_lt k positive
  have split := List.take_append_drop (k % l.length) l
  generalize l.take (k % l.length) = before at rotated split
  cases drop : l.drop (k % l.length) with
  | nil => simp at drop; omega
  | cons y after =>
    rw [drop] at rotated split
    cases rotated
    rw [← split, List.nodup_append] at distinct
    rw [← split, List.erase_append_right, List.erase_cons_head]
    · exact List.isRotated_append
    · intro member
      exact distinct.2.2 x member x List.mem_cons_self rfl

/-- The search for a victim gives every page but the stack pages one more round, and takes the first that has not been
used since. -/
theorem frameTableFindVictim_secondChance {s : State} {totest : FrameElem} {rest : List FrameElem}
    (list : s.frameTable = totest :: rest) (distinct : s.frameTable.Nodup) :
    let start := (totest, { s with frameTable := rest })
    ((∃ turns, (victimLoop turns start.1 start.2).isSome) ↔ ∃ x ∈ s.frameTable, s.pagedirIsStack x.pd x.vaddr = false) ∧
    ∀ turns victim s', victimLoop turns start.1 start.2 = some (victim, s') →
      s.frameTableFindVictim = some (victim, s') ∧ victim ∈ s.frameTable ∧
      s'.pagedirIsAccessed victim.pd victim.vaddr = false ∧ s'.pagedirIsStack victim.pd victim.vaddr = false ∧
      s'.frameTable.IsRotated (s.frameTable.erase victim) ∧
      ∃ k, turn^[k] start = (victim, s') ∧ ∀ j < k, passesOver (turn^[j] start) = true ∧
        s'.pagedirIsAccessed (turn^[j] start).1.pd (turn^[j] start).1.vaddr = false := by
  intro start
  have queue : ∀ k, (turn^[k] start).1 :: (turn^[k] start).2.frameTable = s.frameTable.rotate k := by
    intro k
    rw [turn_queue, list]
  have sameStack : ∀ k, (turn^[k] start).2.pagedirIsStack = s.pagedirIsStack := by
    intro k
    obtain ⟨-, -, -, -, same⟩ := turn_keeps (p := start) k
    exact same
  have member : ∀ k, (turn^[k] start).1 ∈ s.frameTable := by
    intro k
    rw [← List.mem_rotate (n := k), ← queue]
    exact List.mem_cons_self
  have victims : ∀ {turns victim s'}, victimLoop turns start.1 start.2 = some (victim, s') →
      victim ∈ s.frameTable ∧ s'.pagedirIsAccessed victim.pd victim.vaddr = false ∧
        s.pagedirIsStack victim.pd victim.vaddr = false ∧ s'.pagedirIsStack victim.pd victim.vaddr = false := by
    intro turns victim s' found
    obtain ⟨k, -, isTurn, stops, -⟩ := victimLoop_eq_some.mp found
    have same := sameStack k
    have isMember := member k
    rw [isTurn] at same isMember
    obtain ⟨notAccessed, notStack⟩ := Bool.or_eq_false_iff.mp stops
    exact ⟨isMember, notAccessed, same ▸ notStack, notStack⟩
  have first : ∀ {x}, x ∈ s.frameTable → s.pagedirIsStack x.pd x.vaddr = false →
      ∃ k < 2 * s.frameTable.length, passesOver (turn^[k] start) = false := by
    rw [list]
    exact fun member notStack => exists_not_passesOver (p := start) member notStack
  refine ⟨⟨?_, ?_⟩, ?_⟩
  · rintro ⟨turns, found⟩
    obtain ⟨⟨victim, s'⟩, found⟩ := isSome_iff_exists.mp found
    obtain ⟨isMember, -, notStack, -⟩ := victims found
    exact ⟨victim, isMember, notStack⟩
  · rintro ⟨x, isMember, notStack⟩
    have stops : ∃ k, passesOver (turn^[k] start) = false := (first isMember notStack).imp fun _ both => both.2
    refine ⟨Nat.find stops + 1, isSome_iff_exists.mpr ⟨_, victimLoop_eq_some.mpr
      ⟨Nat.find stops, Nat.lt_succ_self _, rfl, Nat.find_spec stops, ?_⟩⟩⟩
    intro j earlier
    exact Bool.not_eq_false _ ▸ Nat.find_min stops earlier
  · intro turns victim s' found
    obtain ⟨isMember, notAccessed, notStack, notStack'⟩ := victims found
    obtain ⟨k, -, isTurn, stops, before⟩ := victimLoop_eq_some.mp found
    refine ⟨?_, isMember, notAccessed, notStack', isRotated_erase (k := k) distinct ?_, k, isTurn, ?_⟩
    · obtain ⟨k', inside, stops'⟩ := first isMember notStack
      have atMost : k ≤ k' := by
        by_contra later
        cases (before k' (by omega)).symm.trans stops'
      simp only [frameTableFindVictim, list]
      exact victimLoop_eq_some (p := start).mpr ⟨k, by rw [← list]; omega, isTurn, stops, before⟩
    · rw [← queue, isTurn]
    · intro j earlier
      refine ⟨before j earlier, ?_⟩
      have clear := turn_clears (p := start) earlier
      rwa [isTurn] at clear

/-- A stack page and a page that has been accessed are passed over. -/
theorem frameTableFindVictim_secondChance_example :
    let s : State := { boot 1 0 (fun _ => ⟨0, fun _ => 0⟩) with
      frameTable := [⟨1, 2⟩, ⟨1, 3⟩, ⟨1, 4⟩]
      pagedir := fun _ => ((∅ : Pagedir).insert 2 ⟨true, 0, true, false, false, true⟩).insert 3
        ⟨true, 1, true, false, true, false⟩ }
    s.pagedirIsStack 1 2 = true ∧ s.pagedirIsAccessed 1 3 = true ∧
      ∃ s', s.frameTableFindVictim = some (⟨1, 4⟩, s') ∧ s'.pagedirIsAccessed 1 3 = false ∧
        s'.frameTable.IsRotated [⟨1, 2⟩, ⟨1, 3⟩] := by
  intro s
  obtain ⟨isVictim, -, -, -, rotated, -⟩ :=
    (frameTableFindVictim_secondChance (s := s) rfl (by decide)).2 3 ⟨1, 4⟩ _ rfl
  exact ⟨rfl, rfl, _, isVictim, rfl, rotated⟩

end State

/-! ## The swap disk -/

/-- The bytes of a slot. -/
def slotBytes (disk : Nat → Bytes) (slot : Nat) : Bytes := fun k =>
  disk (slot * 8 + k / diskSectorSize) (k % diskSectorSize)

namespace State

theorem swapRead_eq (slot : Nat) (page : Bytes) (inside : k < pgSize) :
    s.swapRead slot page k = slotBytes s.swapDisk slot k := by
  have split : ∀ n, n ≤ 8 → ((List.range n).foldl (fun (page : Bytes) count k =>
      if count * diskSectorSize ≤ k ∧ k < (count + 1) * diskSectorSize then
        s.swapDisk (slot * 8 + count) (k - count * diskSectorSize)
      else page k) page) k = if k < n * diskSectorSize then slotBytes s.swapDisk slot k else page k := by
    intro n
    induction n with
    | zero => simp
    | succ n ih =>
      intro small
      rw [List.range_succ, List.foldl_append]
      simp only [List.foldl_cons, List.foldl_nil]
      rw [ih (by omega)]
      by_cases here : n * diskSectorSize ≤ k ∧ k < (n + 1) * diskSectorSize
      · have quotient : k / diskSectorSize = n := by
          simp only [diskSectorSize] at here ⊢
          omega
        have remainder : k % diskSectorSize = k - n * diskSectorSize := by
          simp only [diskSectorSize] at here ⊢
          omega
        rw [if_pos here, if_pos here.2, slotBytes, quotient, remainder]
      · have bounds : k < n * diskSectorSize ↔ k < (n + 1) * diskSectorSize := by
          simp only [diskSectorSize] at here ⊢
          omega
        rw [if_neg here, if_congr bounds rfl rfl]
  have whole := split 8 (le_refl 8)
  rw [if_pos (by simpa only [pgSize, diskSectorSize] using inside)] at whole
  exact whole

/-- Sectors are written in turn. -/
theorem foldl_diskWrite (first : Nat) (bytes disk : Nat → Bytes) (n sector : Nat) :
    (List.range n).foldl (fun disk count => update disk (first + count) (bytes count)) disk sector =
      if first ≤ sector ∧ sector < first + n then bytes (sector - first) else disk sector := by
  induction n with
  | zero =>
    rw [if_neg (by omega)]
    rfl
  | succ n ih =>
    rw [List.range_succ, List.foldl_append]
    simp only [List.foldl_cons, List.foldl_nil]
    by_cases isLast : sector = first + n
    · rw [isLast, update_self, if_pos (by omega), Nat.add_sub_cancel_left]
    · rw [update_of_ne isLast, ih]
      exact if_congr (by omega) rfl rfl

theorem slotBytes_swapWrite_self (slot : Nat) (page : Bytes) (inside : k < pgSize) :
    slotBytes (s.swapWrite slot page).swapDisk slot k = page k := by
  have sector : k / diskSectorSize < 8 := by
    simp only [pgSize, diskSectorSize] at inside ⊢
    omega
  simp only [slotBytes, swapWrite, foldl_diskWrite, Nat.add_sub_cancel_left]
  rw [if_pos ⟨Nat.le_add_right .., Nat.add_lt_add_left sector _⟩, div_add_mod']

theorem slotBytes_swapWrite_ne {slot slot' : Nat} (page : Bytes) (other : slot' ≠ slot) (inside : k < pgSize) :
    slotBytes (s.swapWrite slot page).swapDisk slot' k = slotBytes s.swapDisk slot' k := by
  simp only [slotBytes, swapWrite, foldl_diskWrite]
  rw [if_neg]
  simp only [pgSize, diskSectorSize] at inside ⊢
  omega

end State

/-! ## Giving pages back -/

variable {upage : Upage} {pd : Pid}

namespace State

/-- After `palloc_free_page` for each present page of a list of entries. -/
theorem foldlM_freePage {entries : List (Σ _ : Upage, Pte)} (freed : entries.foldlM (fun (s : State) entry =>
      if entry.2.present then s.pallocFreePage entry.2.kpage else some s) s = some s') : ∃ usedMap memory,
      s' = { s with usedMap := usedMap, memory := memory } ∧
      (∀ k, usedMap[k]? = some true ↔
        s.usedMap[k]? = some true ∧ ∀ entry ∈ entries, entry.2.present = true → entry.2.kpage ≠ k) ∧
      ∀ k, (∀ entry ∈ entries, entry.2.present = true → entry.2.kpage ≠ k) → memory k = s.memory k := by
  induction entries generalizing s with
  | nil =>
    cases freed
    exact ⟨_, _, rfl, by simp, by simp⟩
  | cons entry rest ih =>
    simp only [List.foldlM_cons, bind_eq_bind, bind_eq_some_iff] at freed
    obtain ⟨t, first, freed⟩ := freed
    obtain ⟨usedMap, memory, rfl, used, same⟩ := ih freed
    cases isPresent : entry.2.present with
    | false =>
      simp only [isPresent, Bool.false_eq_true, if_false, some.injEq] at first
      subst first
      refine ⟨usedMap, memory, rfl, ?_, ?_⟩
      · intro k
        rw [used k]
        simp [isPresent]
      · intro k outside
        exact same k fun entry' member => outside entry' (List.mem_cons_of_mem _ member)
    | true =>
      simp only [isPresent, if_true] at first
      obtain ⟨wasUsed, rfl⟩ := pallocFreePage_some first
      refine ⟨usedMap, memory, rfl, ?_, ?_⟩
      · intro k
        rw [used k]
        simp only [List.mem_cons, forall_eq_or_imp, isPresent, forall_const]
        by_cases isK : entry.2.kpage = k
        · subst isK
          simp [List.getElem?_set]
        · simp [isK]
      · intro k outside
        rw [same k fun entry' member => outside entry' (List.mem_cons_of_mem _ member)]
        exact update_of_ne (Ne.symm (outside entry (List.mem_cons_self ..) isPresent)) ..

theorem pagedirGetPage_iff {k : Kpage} : s.pagedirGetPage pd upage = some k ↔
    ∃ pte : Pte, (⟨upage, pte⟩ : Σ _ : Upage, Pte) ∈ (s.pagedir pd).entries ∧ pte.present = true ∧ pte.kpage = k := by
  simp only [pagedirGetPage, lookupPage, bind_eq_some_iff]
  constructor
  · rintro ⟨pte, found, isPage⟩
    split_ifs at isPage with present
    exact ⟨pte, AList.mem_lookup_iff.mp found, present, some.inj isPage⟩
  · rintro ⟨pte, member, present, rfl⟩
    exact ⟨pte, AList.mem_lookup_iff.mpr member, by simp [present]⟩

/-- `pagedir_destroy` gives back the pages that are present. -/
theorem pagedirDestroy_some (destroyed : s.pagedirDestroy pd = some s') : ∃ usedMap memory,
    s' = { s with usedMap := usedMap, memory := memory, pagedir := update s.pagedir pd ∅ } ∧
      (∀ k, usedMap[k]? = some true ↔ s.usedMap[k]? = some true ∧ ∀ upage, s.pagedirGetPage pd upage ≠ some k) ∧
      ∀ k, (∀ upage, s.pagedirGetPage pd upage ≠ some k) → memory k = s.memory k := by
  obtain ⟨t, freed, rfl⟩ := map_eq_some_iff.mp destroyed
  obtain ⟨usedMap, memory, rfl, used, same⟩ := foldlM_freePage freed
  have entries : ∀ k, (∀ entry ∈ (s.pagedir pd).entries, entry.2.present = true → entry.2.kpage ≠ k) ↔
      ∀ upage, s.pagedirGetPage pd upage ≠ some k := by
    intro k
    constructor
    · intro outside upage found
      obtain ⟨pte, member, present, isK⟩ := pagedirGetPage_iff.mp found
      exact outside ⟨upage, pte⟩ member present isK
    · rintro outside ⟨upage, pte⟩ member present isK
      exact outside upage (pagedirGetPage_iff.mpr ⟨pte, member, present, isK⟩)
  refine ⟨usedMap, memory, rfl, ?_, ?_⟩
  · intro k
    rw [used k, entries k]
  · intro k outside
    exact same k ((entries k).mpr outside)

theorem frameElemDelete_absent (absent : ⟨pd, upage⟩ ∉ s.frameTable) : s.frameElemDelete upage pd = some s := by
  have none : s.frameTable.filter (fun i => decide (i = ⟨pd, upage⟩)) = [] := by
    rw [List.filter_eq_nil_iff]
    intro i member same
    exact absent (of_decide_eq_true same ▸ member)
  have all : s.frameTable.filter (fun i => !decide (i = ⟨pd, upage⟩)) = s.frameTable := by
    rw [List.filter_eq_self]
    intro i member
    have other : i ≠ ⟨pd, upage⟩ := fun same => absent (same ▸ member)
    simp [other]
  simp only [frameElemDelete, List.partition_eq_filter_filter, none, Function.comp_def, all, List.foldlM_nil]
  rfl

theorem frameElemDelete_present {k : Kpage} (nodup : s.frameTable.Nodup)
    (member : ⟨pd, upage⟩ ∈ s.frameTable) (present : s.pagedirGetPage pd upage = some k)
    (deleted : s.frameElemDelete upage pd = some s') : s.usedMap[k]? = some true ∧ s' = { s with
        frameTable := s.frameTable.erase ⟨pd, upage⟩
        usedMap := s.usedMap.set k false
        memory := update s.memory k fun _ => 0xcc
        pagedir := (s.pagedirClearPage pd upage).pagedir } := by
  have one : s.frameTable.filter (fun i => decide (i = ⟨pd, upage⟩)) = [⟨pd, upage⟩] := by
    rw [List.filter_eq, List.count_eq_one_of_mem nodup member]
    rfl
  have rest : s.frameTable.filter (fun i => !decide (i = ⟨pd, upage⟩)) = s.frameTable.erase ⟨pd, upage⟩ := by
    rw [nodup.erase_eq_filter]
    apply List.filter_congr
    intro i _
    rw [bne, beq_eq_decide]
  simp only [frameElemDelete, List.partition_eq_filter_filter, one, Function.comp_def, rest, List.foldlM_cons,
    List.foldlM_nil, bind_eq_bind, bind_eq_some_iff] at deleted
  obtain ⟨t, removed, same⟩ := deleted
  rw [show pagedirGetPage { s with frameTable := s.frameTable.erase ⟨pd, upage⟩ } pd upage =
    some k from present] at removed
  obtain ⟨u, freed, rfl⟩ := map_eq_some_iff.mp removed
  obtain ⟨used, rfl⟩ := pallocFreePage_some freed
  cases same
  exact ⟨used, rfl⟩

end State

/-! ## New pages -/

/-- The process has got new entries in its supplementary page table. -/
structure Added (good : Upage → Page → Prop) (pid : Pid) (s s' : State) : Prop where
  rest : s' = { s with supplementaryPageTable := s'.supplementaryPageTable, image := s'.image }
  others : ∀ q, q ≠ pid → s'.supplementaryPageTable q = s.supplementaryPageTable q ∧ s'.image q = s.image q
  page : ∀ upage, s'.pageLookup pid upage = s.pageLookup pid upage ∧ s'.image pid upage = s.image pid upage ∨
    ∃ page, s'.pageLookup pid upage = some page ∧ good upage page ∧
      s'.image pid upage = ⟨s.initialBytes page, page.writable⟩

variable {q : Pid}

namespace Added

variable {good : Upage → Page → Prop} {pid : Pid} {s t u : State}

theorem refl (good : Upage → Page → Prop) (pid : Pid) (s : State) : Added good pid s s :=
  ⟨rfl, fun _ _ => ⟨rfl, rfl⟩, fun _ => .inl ⟨rfl, rfl⟩⟩

theorem state_eq (added : Added good pid s t) :
    ∃ table image, t = { s with supplementaryPageTable := table, image := image } :=
  ⟨_, _, added.rest⟩

theorem lookup_ne (added : Added good pid s t) (other : q ≠ pid) (upage : Upage) :
    t.pageLookup q upage = s.pageLookup q upage := by
  rw [pageLookup, (added.others q other).1]
  rfl

theorem trans (first : Added good pid s t) (second : Added good pid t u) : Added good pid s u where
  rest := by
    rw [second.rest, first.rest]
  others q other := by
    obtain ⟨table, image⟩ := first.others q other
    obtain ⟨table', image'⟩ := second.others q other
    exact ⟨table'.trans table, image'.trans image⟩
  page upage := by
    obtain ⟨sameEntry, sameImage⟩ | ⟨page, entry, isGood, image⟩ := second.page upage
    · rw [sameEntry, sameImage]
      exact first.page upage
    · exact .inr ⟨page, entry, isGood, by rw [image, first.rest]; rfl⟩

theorem addPage {page : Page} (isGood : good upage page) : Added good pid s (s.addPage pid upage page) where
  rest := rfl
  others q other := by
    constructor
    · exact update_of_ne other ..
    · exact update_of_ne other ..
  page upage' := by
    by_cases same : upage' = upage
    · subst same
      refine .inr ⟨page, ?_, isGood, ?_⟩
      · simp [pageLookup, addPage, replacePage]
      · simp [addPage]
    · refine .inl ⟨?_, ?_⟩
      · simp [State.pageLookup, State.addPage, State.replacePage, AList.lookup_insert_ne same]
      · simp [State.addPage, same]

theorem foldl {Item : Type} {items : List Item} {change : State → Item → State}
    (each : ∀ item ∈ items, ∀ s, Added good pid s (change s item)) (s : State) :
    Added good pid s (items.foldl change s) := by
  induction items generalizing s with
  | nil => exact refl good pid s
  | cons item rest ih =>
    refine (each item (List.mem_cons_self ..) s).trans ?_
    exact ih (fun item' member => each item' (List.mem_cons_of_mem _ member)) _

end Added

/-- The entries of `load_segment`. -/
def OfExecutable (file : File) (upage : Upage) (page : Page) : Prop :=
  upage < userPages ∧ page.f = some file ∧ page.swapOuted = false ∧ page.mmaped = false

theorem loadSegment_added (pid : Pid) (file : File) (writable : Bool) (pages ofs : Nat) (upage : Upage)
    (readBytes : Nat) (s : State) (inside : upage + pages ≤ userPages) :
    Added (OfExecutable file) pid s (s.loadSegment pid file writable pages ofs upage readBytes) := by
  induction pages generalizing ofs upage readBytes s with
  | zero => exact .refl _ pid s
  | succ pages ih =>
    have here : upage < userPages := Nat.lt_of_lt_of_le (Nat.lt_add_of_pos_right (Nat.succ_pos pages)) inside
    refine Added.trans ?_ (ih _ _ _ _ ?_)
    · exact Added.addPage ⟨here, rfl, rfl, rfl⟩
    · rwa [add_assoc, add_comm 1]

/-- The entries of `SYS_MMAP`. -/
def OfMapping (mi : MmapElem) (upage : Upage) (page : Page) : Prop :=
  ∃ count, upage = mi.startVaddr + count ∧ count < mi.pages ∧ page =
    { f := some mi.f, loadFilepos := pgSize * count, loadReadBytes := realReadBytes mi count, writable := true
      swapOuted := false, swapIndex := some 0, mmaped := true }

theorem mmapPages_added (pid : Pid) (mi : MmapElem) (pages count : Nat) (s : State)
    (inside : count + pages ≤ mi.pages) : Added (OfMapping mi) pid s (s.mmapPages pid mi pages count) := by
  induction pages generalizing count s with
  | zero => exact .refl _ pid s
  | succ pages ih =>
    have here : count < mi.pages := by omega
    refine Added.trans ?_ (ih _ _ ?_)
    · exact Added.addPage ⟨count, rfl, here, rfl⟩
    · rwa [add_assoc, add_comm 1]

theorem mmapPages_isSome (pid : Pid) (mi : MmapElem) (pages count : Nat) (s : State) (inside : count + pages ≤ mi.pages)
    {i : Nat} (isFrom : count ≤ i) (isTo : i < count + pages) :
    ((s.mmapPages pid mi pages count).pageLookup pid (mi.startVaddr + i)).isSome := by
  induction pages generalizing count s with
  | zero => omega
  | succ pages ih =>
    rw [mmapPages]
    by_cases isFirst : i = count
    · -- The first page is added now, and stays.
      obtain ⟨old, -⟩ | ⟨page, found, -⟩ :=
        (mmapPages_added pid mi pages (count + 1) _ (by omega)).page (mi.startVaddr + i)
      · rw [old, isFirst]
        simp [pageLookup, addPage, replacePage]
      · rw [found]
        rfl
    · exact ih (count + 1) _ (by omega) (by omega) (by omega)

section Loaded

variable {s s' : State} {pid : Pid} {file : File} (added : Added (OfExecutable file) pid (s.newProcess pid file) s')

include added

theorem loaded_lookup_ne (other : q ≠ pid) (upage : Upage) : s'.pageLookup q upage = s.pageLookup q upage := by
  rw [added.lookup_ne other]
  simp only [pageLookup, newProcess, update_of_ne other]

theorem loaded_lookup {page : Page} (found : s'.pageLookup pid upage = some page) :
    OfExecutable file upage page ∧ s'.image pid upage = ⟨s.initialBytes page, page.writable⟩ := by
  obtain ⟨old, -⟩ | ⟨page', found', isGood, image⟩ := added.page upage
  · rw [old] at found
    simp [pageLookup, newProcess] at found
  · obtain rfl : page' = page := some.inj (found'.symm.trans found)
    exact ⟨isGood, image⟩

theorem loaded_core_ne (other : q ≠ pid) (upage : Upage) : core s'.pagedir q upage = core s.pagedir q upage := by
  rw [added.rest]
  simp only [core, newProcess, update_of_ne other]

end Loaded

/-- Each entry is an old one, or the one of the mapping's page. -/
theorem mapped_lookup {pid : Pid} {mi : MmapElem} (added : Added (OfMapping mi) pid (s.addMapping pid mi) s') (q : Pid)
    (upage : Upage) :
    s'.pageLookup q upage = s.pageLookup q upage ∧ s'.image q upage = s.image q upage ∨
    q = pid ∧ ∃ page, OfMapping mi upage page ∧ s'.pageLookup q upage = some page ∧
      s'.image q upage = ⟨s.initialBytes page, page.writable⟩ := by
  by_cases same : q = pid
  · subst same
    obtain old | ⟨page, found, isGood, image⟩ := added.page upage
    · exact .inl old
    · exact .inr ⟨rfl, page, isGood, found, image⟩
  · refine .inl ⟨added.lookup_ne same upage, ?_⟩
    exact congrFun (added.others q same).2 upage

end Pintos.Vm
