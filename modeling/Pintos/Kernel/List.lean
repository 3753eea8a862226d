import Mathlib.Data.List.Perm.Basic
import Mathlib.Data.List.Pairwise
import Mathlib.Data.List.TakeWhile

/-!
# Ordered insertion and the natural merge sort of `lib/kernel/list.c`

A list is modelled by the sequence of its elements.  `less` is an arbitrary
comparison function; the results about order assume that it is a strict weak
order, as the comparators of the kernel are.
-/

namespace Pintos.Kernel

open List Nat

section Operations

variable {α : Type} (less : α → α → Bool)

/-- `list_insert_ordered`: the element goes in front of the first one it is less than. -/
def listInsertOrdered (elem : α) : List α → List α
  | [] => [elem]
  | e :: rest => if less elem e then elem :: e :: rest else e :: listInsertOrdered elem rest

/-- `find_end_of_run`: the run that starts at `a`, and what follows it. -/
def findEndOfRun (a : α) : List α → List α × List α
  | [] => ([a], [])
  | next :: rest =>
    if less next a then ([a], next :: rest)
    else
      let (run, tail) := findEndOfRun next rest
      (a :: run, tail)

/-- `inplace_merge`: the elements of the second run that are less than `a0` are
spliced in front of it, then `a0` moves on. -/
def inplaceMerge : List α → List α → List α
  | [], b => b
  | a0 :: a, b =>
    b.takeWhile (fun b0 => less b0 a0) ++ a0 :: inplaceMerge a (b.dropWhile fun b0 => less b0 a0)

/-- One pass of `list_sort`: `output_run_cnt`, and the list with adjacent runs
merged in pairs.  The first argument bounds the length of the list. -/
def mergePass : Nat → List α → Nat × List α
  | 0, list => (0, list)
  | _ + 1, [] => (0, [])
  | fuel + 1, a0 :: rest =>
    match findEndOfRun less a0 rest with
    | (run, []) => (1, run)
    | (run, a1b0 :: rest) =>
      let (second, tail) := findEndOfRun less a1b0 rest
      let (outputRunCnt, output) := mergePass fuel tail
      (outputRunCnt + 1, inplaceMerge less run second ++ output)

/-- The `do … while (output_run_cnt > 1)` loop of `list_sort`. -/
def mergePasses : Nat → List α → List α
  | 0, list => list
  | fuel + 1, list =>
    let (outputRunCnt, output) := mergePass less list.length list
    if outputRunCnt > 1 then mergePasses fuel output else output

/-- Every pass but the last halves the number of runs, so the length of the list bounds
the number of passes (`ordered_listSort`). -/
def listSort (list : List α) : List α :=
  mergePasses less list.length list

/-- `is_sorted`, which `list_sort` asserts in the end. -/
def isSorted : List α → Bool
  | a :: b :: rest => !less b a && isSorted (b :: rest)
  | _ => true

end Operations

/-- What the kernel's comparators have in common: neither direction of a pair
is less twice, and not being less is transitive. -/
structure StrictWeakOrder {α : Type} (less : α → α → Bool) : Prop where
  asymm : ∀ {a b}, less a b = true → less b a = false
  negTrans : ∀ {a b c}, less a b = false → less b c = false → less a c = false

variable {α : Type}

theorem StrictWeakOrder.less_of_less {less : α → α → Bool} (order : StrictWeakOrder less) {a b c : α}
    (smaller : less a b = true) (below : less c b = false) : less a c = true := by
  cases compared : less a c with
  | true => rfl
  | false => exact absurd (order.negTrans compared below) (by simp [smaller])

/-- Comparing by a key, larger keys first, is a strict weak order. -/
theorem StrictWeakOrder.ofKey (key : α → Int) :
    StrictWeakOrder fun a b => decide (key b < key a) where
  asymm := by
    intro a b smaller
    simp only [decide_eq_true_eq, decide_eq_false_iff_not] at *
    omega
  negTrans := by
    intro a b c first second
    simp only [decide_eq_false_iff_not] at *
    omega

/-- `list` is in nondecreasing order according to `less`. -/
def Ordered {α : Type} (less : α → α → Bool) (list : List α) : Prop :=
  list.Pairwise fun a b => less b a = false

section Lemmas

variable {α : Type} {less : α → α → Bool} {list : List α} {R : α → α → Prop} {fuel : Nat} {elem : α}

/-! ## Ordered insertion -/

theorem perm_listInsertOrdered (elem : α) (list : List α) : (listInsertOrdered less elem list).Perm (elem :: list) := by
  induction list with
  | nil => exact .refl _
  | cons e rest ih =>
    unfold listInsertOrdered
    split
    · exact .refl _
    · exact (ih.cons e).trans (.swap elem e rest)

@[simp]
theorem mem_listInsertOrdered {x : α} : x ∈ listInsertOrdered less elem list ↔ x = elem ∨ x ∈ list := by
  rw [(perm_listInsertOrdered elem list).mem_iff, mem_cons]

section

variable (order : StrictWeakOrder less) {b a : List α}

include order

/-- Insertion into an ordered list keeps every relation that holds between the
new element and those it lands between. -/
theorem pairwise_listInsertOrdered (ordered : Ordered less list) (related : list.Pairwise R)
    (after : ∀ e ∈ list, less elem e = false → R e elem) (before : ∀ e ∈ list, less elem e = true → R elem e) :
    (listInsertOrdered less elem list).Pairwise R := by
  induction list with
  | nil => exact pairwise_singleton R elem
  | cons e rest ih =>
    obtain ⟨eBelow, ordered⟩ := pairwise_cons.mp ordered
    obtain ⟨eRelated, restRelated⟩ := pairwise_cons.mp related
    unfold listInsertOrdered
    split
    next smaller =>
      -- `elem` is less than `e`, hence than everything behind `e`.
      refine pairwise_cons.mpr ⟨fun x member => ?_, related⟩
      rcases mem_cons.mp member with rfl | inRest
      · exact before x (mem_cons_self ..) smaller
      · exact before x (mem_cons_of_mem _ inRest) (order.less_of_less smaller (eBelow x inRest))
    next notSmaller =>
      refine pairwise_cons.mpr ⟨fun x member => ?_, ih ordered restRelated
        (fun x inRest => after x (mem_cons_of_mem _ inRest))
        (fun x inRest => before x (mem_cons_of_mem _ inRest))⟩
      rcases mem_listInsertOrdered.mp member with rfl | inRest
      · exact after e (mem_cons_self ..) (eq_false_of_ne_true notSmaller)
      · exact eRelated x inRest

theorem ordered_listInsertOrdered (ordered : Ordered less list) : Ordered less (listInsertOrdered less elem list) :=
  pairwise_listInsertOrdered order ordered ordered (fun _ _ notLess => notLess) (fun _ _ smaller => order.asymm smaller)

/-! ## Runs and merging -/

omit order in
theorem inplaceMerge_perm (less : α → α → Bool) (a b : List α) : (inplaceMerge less a b).Perm (a ++ b) := by
  induction a generalizing b with
  | nil => exact .refl _
  | cons a0 a ih =>
    refine perm_middle.trans (.cons a0 ?_)
    refine ((ih _).append_left _).trans ?_
    rw [← append_assoc]
    refine (perm_append_comm.append_right _).trans ?_
    rw [append_assoc, takeWhile_append_dropWhile]
    exact .refl _

theorem less_eq_false_of_mem_dropWhile {a0 y : α} (ordered : Ordered less b)
    (dropped : y ∈ b.dropWhile fun b0 => less b0 a0) : less y a0 = false := by
  induction b with
  | nil => simp at dropped
  | cons b0 b ih =>
    obtain ⟨b0Below, restOrdered⟩ := pairwise_cons.mp ordered
    rw [dropWhile_cons] at dropped
    split at dropped
    · exact ih restOrdered dropped
    next stop =>
      have notLess : less b0 a0 = false := eq_false_of_ne_true stop
      rcases mem_cons.mp dropped with rfl | inRest
      · exact notLess
      · exact order.negTrans (b0Below y inRest) notLess

/-- Merging two ordered runs keeps any relation that holds along both of them and
across them, in the direction in which the merge leaves two elements. -/
theorem inplaceMerge_pairwise (aOrdered : Ordered less a) (bOrdered : Ordered less b) (aRelated : a.Pairwise R)
    (bRelated : b.Pairwise R) (keeps : ∀ x ∈ a, ∀ y ∈ b, less y x = false → R x y)
    (swaps : ∀ x ∈ a, ∀ y ∈ b, less y x = true → R y x) : (inplaceMerge less a b).Pairwise R := by
  induction a generalizing b with
  | nil => exact bRelated
  | cons a0 a ih =>
    obtain ⟨a0Below, aOrdered⟩ := pairwise_cons.mp aOrdered
    obtain ⟨a0Related, aRelated⟩ := pairwise_cons.mp aRelated
    have takenSublist : (b.takeWhile fun b0 => less b0 a0).Sublist b := takeWhile_sublist _
    have droppedSublist : (b.dropWhile fun b0 => less b0 a0).Sublist b := dropWhile_sublist _
    have tailRelated := ih aOrdered (bOrdered.sublist droppedSublist) aRelated (bRelated.sublist droppedSublist)
      (fun x inRun y dropped => keeps x (mem_cons_of_mem _ inRun) y (droppedSublist.subset dropped))
      (fun x inRun y dropped => swaps x (mem_cons_of_mem _ inRun) y (droppedSublist.subset dropped))
    have memberOfMerge : ∀ x ∈ inplaceMerge less a (b.dropWhile fun b0 => less b0 a0),
        x ∈ a ∨ x ∈ b.dropWhile fun b0 => less b0 a0 := fun x member =>
      mem_append.mp ((inplaceMerge_perm less a _).mem_iff.mp member)
    refine pairwise_append.mpr ⟨bRelated.sublist takenSublist, pairwise_cons.mpr ⟨?_, tailRelated⟩, ?_⟩
    · intro x member
      rcases memberOfMerge x member with inRun | dropped
      · exact a0Related x inRun
      · exact keeps a0 (mem_cons_self ..) x (droppedSublist.subset dropped)
          (less_eq_false_of_mem_dropWhile order bOrdered dropped)
    · -- An element of `b` moves in front of `a0` only if it is less than `a0`,
      -- hence less than the rest of the run `a` as well.
      intro y taken x member
      have smaller : less y a0 = true := mem_takeWhile_imp (p := fun b0 => less b0 a0) taken
      have inSecond := takenSublist.subset taken
      rcases mem_cons.mp member with rfl | inMerge
      · exact swaps x (mem_cons_self ..) y inSecond smaller
      rcases memberOfMerge x inMerge with inRun | dropped
      · exact swaps x (mem_cons_of_mem _ inRun) y inSecond (order.less_of_less smaller (a0Below x inRun))
      · have parts := takeWhile_append_dropWhile (p := fun b0 => less b0 a0) (l := b)
        rw [← parts] at bRelated
        exact (pairwise_append.mp bRelated).2.2 y taken x dropped

theorem ordered_inplaceMerge (aOrdered : Ordered less a) (bOrdered : Ordered less b) :
    Ordered less (inplaceMerge less a b) :=
  inplaceMerge_pairwise order aOrdered bOrdered aOrdered bOrdered (fun _ _ _ _ notLess => notLess)
    (fun _ _ _ _ smaller => order.asymm smaller)

/-! ## Passes -/

omit order in
/-- The number of places where the list steps down, one less than its runs. -/
def descents (less : α → α → Bool) : List α → Nat
  | a :: b :: rest => (if less b a then 1 else 0) + descents less (b :: rest)
  | _ => 0

theorem descents_eq_zero_iff : descents less list = 0 ↔ Ordered less list := by
  have : Trans (fun a b => less b a = false) (fun a b => less b a = false) fun a b => less b a = false :=
    ⟨fun first second => order.negTrans second first⟩
  rw [Ordered, ← isChain_iff_pairwise]
  induction list with
  | nil => simp [descents]
  | cons a rest ih =>
    cases rest with
    | nil => simp [descents]
    | cons b rest => simp [descents, ih]

end

/-- Joining two lists adds at most one descent, and none if the second is empty. -/
theorem descents_append_le (less : α → α → Bool) (a b : List α) :
    descents less (a ++ b) ≤ descents less a + (descents less b + 1) := by
  induction a with
  | nil => simp [descents]
  | cons x a ih =>
    cases a with
    | nil =>
      cases b with
      | nil => simp [descents]
      | cons y b =>
        simp only [cons_append, nil_append, descents]
        split <;> omega
    | cons x' a =>
      simp only [cons_append, descents] at ih ⊢
      omega

theorem descents_lt_length (nonempty : list ≠ []) : descents less list < list.length := by
  induction list with
  | nil => exact absurd rfl nonempty
  | cons a rest ih =>
    cases rest with
    | nil => simp [descents]
    | cons b rest =>
      have bound := ih (cons_ne_nil b rest)
      simp only [descents, length_cons] at bound ⊢
      split <;> omega

/-- What `find_end_of_run` finds: a nonempty ordered run, behind which the list steps down once unless it ends. -/
structure EndOfRun (less : α → α → Bool) (list : List α) (found : List α × List α) : Prop where
  append : found.1 ++ found.2 = list
  nonempty : found.1 ≠ []
  ordered : Ordered less found.1
  descents : descents less list = if found.2 = [] then 0 else descents less found.2 + 1

section

variable (order : StrictWeakOrder less)

include order

theorem findEndOfRun_spec (a : α) (list : List α) : EndOfRun less (a :: list) (findEndOfRun less a list) := by
  induction list generalizing a with
  | nil => exact ⟨rfl, cons_ne_nil a [], pairwise_singleton .., rfl⟩
  | cons next rest ih =>
    obtain ⟨append, nonempty, ordered, count⟩ := ih next
    unfold findEndOfRun
    split
    next down =>
      exact ⟨rfl, cons_ne_nil a [], pairwise_singleton .., by simp [descents, down, Nat.add_comm]⟩
    next up =>
      have step : less next a = false := eq_false_of_ne_true up
      obtain ⟨b, run, runEq⟩ := exists_cons_of_ne_nil nonempty
      have sameHead : b = next := by
        rw [runEq, cons_append] at append
        exact (cons.inj append).1
      refine ⟨congrArg (cons a) append, cons_ne_nil a _, ?_, ?_⟩
      · refine (descents_eq_zero_iff order).mp ?_
        have flat := (descents_eq_zero_iff order).mpr ordered
        simp only [runEq, sameHead] at flat ⊢
        simp [descents, step, flat]
      · simpa [descents, step] using count

/-- Induction along a pass: the list is used up, or it is one run, or its first two runs are merged. -/
theorem mergePass_induction {motive : List α → Nat × List α → Prop} (nil : motive [] (0, []))
    (single : ∀ run, run ≠ [] → Ordered less run → motive run (1, run))
    (pair : ∀ run second tail result, Ordered less run → Ordered less second →
      descents less (run ++ (second ++ tail)) = (if tail = [] then 1 else descents less tail + 2) →
      motive tail result →
      motive (run ++ (second ++ tail)) (result.1 + 1, inplaceMerge less run second ++ result.2))
    (enough : list.length ≤ fuel) : motive list (mergePass less fuel list) := by
  induction fuel generalizing list with
  | zero =>
    rw [length_eq_zero_iff.mp (le_zero.mp enough)]
    exact nil
  | succ fuel ih =>
    rcases list with _ | ⟨a0, rest⟩
    · exact nil
    have first := findEndOfRun_spec order a0 rest
    simp only [mergePass]
    rcases found : findEndOfRun less a0 rest with ⟨run, _ | ⟨a1b0, afterRun⟩⟩ <;> rw [found] at first
    · have whole : run = a0 :: rest := by simpa using first.append
      exact whole ▸ single run first.nonempty first.ordered
    have next := findEndOfRun_spec order a1b0 afterRun
    rcases foundSecond : findEndOfRun less a1b0 afterRun with ⟨second, tail⟩
    rw [foundSecond] at next
    have parts : run ++ (second ++ tail) = a0 :: rest := by
      rw [next.append]
      exact first.append
    have shorter : tail.length ≤ fuel := by
      have total := congrArg length parts
      have runLength := length_pos_iff.mpr first.nonempty
      simp only [length_append, length_cons] at total enough
      simp only at runLength
      omega
    rw [← parts]
    simp only [foundSecond]
    refine pair run second tail _ first.ordered next.ordered ?_ (ih shorter)
    have steps := first.descents
    rw [next.descents] at steps
    rw [parts, steps]
    simp only [reduceCtorEq, if_false]
    split <;> rfl

theorem mergePass_perm (enough : list.length ≤ fuel) : (mergePass less fuel list).2.Perm list := by
  refine mergePass_induction (motive := fun list result => result.2.Perm list) order (.refl _)
    (fun run _ _ => .refl run) ?_ enough
  intro run second tail result _ _ _ ih
  rw [← append_assoc]
  exact (inplaceMerge_perm less run second).append ih

/-- A pass counts half of the runs, and leaves no more runs than it counts. -/
theorem descents_mergePass (enough : list.length ≤ fuel) :
    (mergePass less fuel list).1 ≤ descents less list / 2 + 1 ∧
      descents less (mergePass less fuel list).2 ≤ (mergePass less fuel list).1 - 1 := by
  have counted : if list = [] then mergePass less fuel list = (0, []) else
      (mergePass less fuel list).1 ≤ descents less list / 2 + 1 ∧
        descents less (mergePass less fuel list).2 + 1 ≤ (mergePass less fuel list).1 := by
    refine mergePass_induction (motive := fun list result => if list = [] then result = (0, []) else
      result.1 ≤ descents less list / 2 + 1 ∧ descents less result.2 + 1 ≤ result.1) order rfl ?_ ?_ enough
    · intro run nonempty ordered
      simp [nonempty, (descents_eq_zero_iff order).mpr ordered]
    · intro run second tail result runOrdered secondOrdered steps ih
      have mergedFlat := (descents_eq_zero_iff order).mpr (ordered_inplaceMerge order runOrdered secondOrdered)
      have joined := descents_append_le less (inplaceMerge less run second) result.2
      have nonempty : run ++ (second ++ tail) ≠ [] := by
        rintro empty
        rw [empty] at steps
        split at steps <;> simp [descents] at steps
      rw [if_neg nonempty, steps]
      split at ih
      next ended => simp [ended, ih, mergedFlat]
      next more => simp only [more, if_false]; omega
  split at counted
  next ended => simp [counted, descents]
  next more => omega

theorem mergePass_pairwise (swaps : ∀ x y, less y x = true → R y x) (enough : list.length ≤ fuel)
    (related : list.Pairwise R) : (mergePass less fuel list).2.Pairwise R := by
  have both : (mergePass less fuel list).2.Perm list ∧ (list.Pairwise R → (mergePass less fuel list).2.Pairwise R) := by
    refine mergePass_induction (motive := fun list result => result.2.Perm list ∧
      (list.Pairwise R → result.2.Pairwise R))
      order ⟨.refl _, fun related => related⟩ (fun run _ _ => ⟨.refl run, fun related => related⟩) ?_ enough
    intro run second tail result runOrdered secondOrdered _ ⟨tailPerm, tailKept⟩
    have mergedPerm := inplaceMerge_perm less run second
    refine ⟨by rw [← append_assoc]; exact mergedPerm.append tailPerm, fun related => ?_⟩
    rw [← append_assoc] at related
    obtain ⟨runsRelated, tailRelated, across⟩ := pairwise_append.mp related
    obtain ⟨runRelated, secondRelated, between⟩ := pairwise_append.mp runsRelated
    refine pairwise_append.mpr ⟨?_, tailKept tailRelated, fun x inMerged y inTail => ?_⟩
    · exact inplaceMerge_pairwise order runOrdered secondOrdered runRelated secondRelated
        (fun x inRun y inSecond _ => between x inRun y inSecond) (fun x _ y _ smaller => swaps x y smaller)
    · exact across x (mergedPerm.mem_iff.mp inMerged) y (tailPerm.mem_iff.mp inTail)
  exact both.2 related

end

/-! ## Sorting -/

section

variable (order : StrictWeakOrder less)

include order

theorem mergePasses_perm (fuel : Nat) (list : List α) : (mergePasses less fuel list).Perm list := by
  induction fuel generalizing list with
  | zero => exact .refl _
  | succ fuel ih =>
    have pass := mergePass_perm order (le_refl list.length)
    simp only [mergePasses]
    split
    · exact (ih _).trans pass
    · exact pass

theorem perm_listSort (list : List α) : (listSort less list).Perm list :=
  mergePasses_perm order _ list

theorem mergePasses_pairwise (swaps : ∀ x y, less y x = true → R y x) (fuel : Nat) (related : list.Pairwise R) :
    (mergePasses less fuel list).Pairwise R := by
  induction fuel generalizing list with
  | zero => exact related
  | succ fuel ih =>
    have pass := mergePass_pairwise order swaps (le_refl list.length) related
    simp only [mergePasses]
    split
    · exact ih pass
    · exact pass

/-- Stability: a relation along the list survives sorting if it holds wherever the sort may swap. -/
theorem pairwise_listSort (swaps : ∀ x y, less y x = true → R y x) (related : list.Pairwise R) :
    (listSort less list).Pairwise R :=
  mergePasses_pairwise order swaps _ related

theorem ordered_mergePasses (enough : descents less list ≤ fuel) : Ordered less (mergePasses less fuel list) := by
  induction fuel generalizing list with
  | zero => exact (descents_eq_zero_iff order).mp (le_zero.mp enough)
  | succ fuel ih =>
    obtain ⟨counted, left⟩ := descents_mergePass order (le_refl list.length)
    simp only [mergePasses]
    split
    next more => exact ih (by omega)
    next last => exact (descents_eq_zero_iff order).mp (by omega)

theorem ordered_listSort (list : List α) : Ordered less (listSort less list) := by
  refine ordered_mergePasses order ?_
  cases list with
  | nil => exact zero_le _
  | cons a rest => exact (descents_lt_length (cons_ne_nil a rest)).le

theorem isSorted_iff (list : List α) : isSorted less list = true ↔ Ordered less list := by
  induction list with
  | nil => simp [isSorted, Ordered]
  | cons a rest ih =>
    rcases rest with _ | ⟨b, rest⟩
    · simp [isSorted, Ordered]
    rw [isSorted, Bool.and_eq_true, ih]
    constructor
    · intro sorted
      have first : less b a = false := by simpa using sorted.1
      refine pairwise_cons.mpr ⟨?_, sorted.2⟩
      intro c member
      cases mem_cons.mp member with
      | inl same => exact same ▸ first
      | inr later => exact order.negTrans ((pairwise_cons.mp sorted.2).1 c later) first
    · intro sorted
      obtain ⟨first, rest⟩ := pairwise_cons.mp sorted
      exact ⟨by simpa using first b mem_cons_self, rest⟩

end

end Lemmas

end Pintos.Kernel
