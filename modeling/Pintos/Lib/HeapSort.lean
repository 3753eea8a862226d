import Mathlib.Data.List.FinRange
import Mathlib.Logic.Equiv.Basic

/-! # Heap sort (`sort` in `lib/stdlib.c`)

Elements are counted from 1, so that the children of `i` are `2 * i` and `2 * i + 1`.  The byte loops and the indices
are those of the source; `size_t` is large enough for the indices of an array that fits in memory.
-/

namespace Pintos.Lib

open Function List

/-- The bytes of the elements: byte `i` of the element with index `idx` is at `array + (idx - 1) * size + i`. -/
abbrev Elements (size : Nat) := Nat → Fin size → UInt8

section Functions

variable {size : Nat}

/-- A round of `do_swap`. -/
def swapByte (aIdx bIdx : Nat) (array : Elements size) (i : Fin size) : Elements size :=
  let t := array aIdx i
  let array := update array aIdx (update (array aIdx) i (array bIdx i))
  update array bIdx (update (array bIdx) i t)

def doSwap (array : Elements size) (aIdx bIdx : Nat) : Elements size :=
  (finRange size).foldl (swapByte aIdx bIdx) array

variable (compare : (Fin size → UInt8) → (Fin size → UInt8) → Int)

def doCompare (array : Elements size) (aIdx bIdx : Nat) : Int :=
  compare (array aIdx) (array bIdx)

/-- `max` in `heapify`. -/
def largest (array : Elements size) (i cnt : Nat) : Nat :=
  let left := 2 * i
  let right := 2 * i + 1
  let max := if left ≤ cnt ∧ doCompare compare array left i > 0 then left else i
  if right ≤ cnt ∧ doCompare compare array right max > 0 then right else max

variable {compare} in
theorem largest_cases {array : Elements size} {i cnt : Nat} (moves : largest compare array i cnt ≠ i) :
    largest compare array i cnt ≤ cnt ∧ largest compare array i cnt / 2 = i ∧ i < largest compare array i cnt := by
  unfold largest at *
  dsimp only at *
  split_ifs at * <;> omega

def heapify (array : Elements size) (i cnt : Nat) : Elements size :=
  let max := largest compare array i cnt
  if max = i then array else heapify (doSwap array i max) max cnt
termination_by cnt - i
decreasing_by
  have := largest_cases ‹_›
  omega

/-- The loop that builds a heap. -/
def buildHeap (cnt : Nat) : Nat → Elements size → Elements size
  | 0, array => array
  | i + 1, array => buildHeap cnt i (heapify compare array (i + 1) cnt)

/-- The loop that sorts the heap. -/
def sortHeap : Nat → Elements size → Elements size
  | i + 2, array => sortHeap (i + 1) (heapify compare (doSwap array 1 (i + 2)) 1 (i + 1))
  | _, array => array

def sort (array : Elements size) (cnt : Nat) : Option (Elements size) :=
  if size = 0 then none else some (sortHeap compare cnt (buildHeap compare cnt (cnt / 2) array))

end Functions

variable {size i cnt a b k l : Nat} {array array' array'' : Elements size}

/-! ## Swaps -/

theorem swapByte_apply (i j : Fin size) :
    swapByte a b array i k j = if i = j then array (Equiv.swap a b k) j else array k j := by
  simp only [swapByte, update_apply, Equiv.swap_apply_def]
  grind

theorem doSwap_eq : doSwap array a b = array ∘ Equiv.swap a b := by
  have rounds : ∀ (is : List (Fin size)), is.Nodup → ∀ (array : Elements size) k j,
      is.foldl (swapByte a b) array k j = if j ∈ is then array (Equiv.swap a b k) j else array k j := by
    intro is distinct
    induction is with
    | nil => simp
    | cons i is ih =>
      intro array k j
      rw [foldl_cons, ih (nodup_cons.mp distinct).2, swapByte_apply, swapByte_apply]
      grind
  funext k j
  exact (rounds _ (nodup_finRange size) array k j).trans (if_pos (mem_finRange j))

/-- The elements up to `cnt` are rearranged, and the others stay. -/
def Rearranged (cnt : Nat) (array array' : Elements size) : Prop :=
  ∃ f : Equiv.Perm Nat, (∀ k, f k ≠ k → 0 < k ∧ k ≤ cnt) ∧ array' = array ∘ f

theorem Rearranged.refl : Rearranged cnt array array :=
  ⟨.refl Nat, fun _ moved => absurd rfl moved, rfl⟩

theorem Rearranged.trans (first : Rearranged cnt array array') (second : Rearranged cnt array' array'') :
    Rearranged cnt array array'' := by
  obtain ⟨f, inside, rfl⟩ := first
  obtain ⟨g, inside', rfl⟩ := second
  refine ⟨g.trans f, fun k moved => ?_, rfl⟩
  by_cases stays : g k = k
  · exact inside k (by rwa [Equiv.trans_apply, stays] at moved)
  · exact inside' k stays

theorem Rearranged.swap (ha : 0 < a ∧ a ≤ cnt) (hb : 0 < b ∧ b ≤ cnt) : Rearranged cnt array (doSwap array a b) :=
  ⟨Equiv.swap a b, fun k moved => by grind, doSwap_eq⟩

/-! ## Heaps -/

variable (compare : (Fin size → UInt8) → (Fin size → UInt8) → Int)

/-- A comparison that is a total preorder. -/
structure Preorders : Prop where
  total : ∀ x y, compare x y ≤ 0 ∨ compare y x ≤ 0
  trans : ∀ {x y z}, compare x y ≤ 0 → compare y z ≤ 0 → compare x z ≤ 0

/-- From `low` on, the element above another is not less. -/
def Heap (low cnt : Nat) (array : Elements size) : Prop :=
  ∀ c ≤ cnt, low ≤ c / 2 → doCompare compare array c (c / 2) ≤ 0

/-- A heap apart from element `i`, below which there is nothing greater than what is above it. -/
structure HeapExcept (low cnt i : Nat) (array : Elements size) : Prop where
  elsewhere : ∀ c ≤ cnt, low ≤ c / 2 → c / 2 ≠ i → doCompare compare array c (c / 2) ≤ 0
  around : ∀ c ≤ cnt, c / 2 = i → low ≤ i / 2 → doCompare compare array c (i / 2) ≤ 0

variable {compare} {low : Nat} (preorders : Preorders compare)

include preorders

theorem largest_max : doCompare compare array i (largest compare array i cnt) ≤ 0 ∧
    ∀ c ≤ cnt, c / 2 = i → doCompare compare array c (largest compare array i cnt) ≤ 0 := by
  have total : ∀ k l, doCompare compare array k l ≤ 0 ∨ doCompare compare array l k ≤ 0 :=
    fun _ _ => preorders.total _ _
  have trans : ∀ k l m, doCompare compare array k l ≤ 0 → doCompare compare array l m ≤ 0 →
      doCompare compare array k m ≤ 0 := fun _ _ _ => preorders.trans
  have children : ∀ c, c / 2 = i → c = 2 * i ∨ c = 2 * i + 1 := by omega
  unfold largest
  grind

/-- A child that is the largest goes up, and the hole is where it was. -/
theorem HeapExcept.down (heap : HeapExcept compare low cnt i array) (positive : 0 < low ∧ low ≤ i)
    (moves : largest compare array i cnt ≠ i) : HeapExcept compare low cnt (largest compare array i cnt)
      (doSwap array i (largest compare array i cnt)) := by
  obtain ⟨least, greatest⟩ := @largest_max size i cnt array compare preorders
  obtain ⟨inside, isChild, later⟩ := largest_cases moves
  generalize largest compare array i cnt = max at *
  rw [doSwap_eq]
  unfold doCompare at *
  constructor <;> intro c inHeap
  case elsewhere =>
    have := heap.elsewhere c inHeap
    have := heap.around max inside isChild
    have := greatest c inHeap
    grind [doCompare]
  case around =>
    have := heap.elsewhere c inHeap
    grind [doCompare]

theorem heapify_heap (positive : 0 < low ∧ low ≤ i) (heap : HeapExcept compare low cnt i array) :
    Heap compare low cnt (heapify compare array i cnt) ∧ Rearranged cnt array (heapify compare array i cnt) := by
  fun_induction heapify compare array i cnt with
  | case1 array i max stops =>
    obtain ⟨_, greatest⟩ := @largest_max size i cnt array compare preorders
    refine ⟨fun c inHeap fromLow => ?_, .refl⟩
    by_cases here : c / 2 = i
    · have most := greatest c inHeap here
      rwa [show largest compare array i cnt = i from stops, ← here] at most
    · exact heap.elsewhere c inHeap fromLow here
  | case2 array i max moves ih =>
    obtain ⟨inside, _, later⟩ := largest_cases moves
    obtain ⟨isHeap, rearranged⟩ := ih (by omega) (heap.down preorders positive moves)
    exact ⟨isHeap, (Rearranged.swap (by omega) (by omega)).trans rearranged⟩

theorem buildHeap_heap (heap : Heap compare (i + 1) cnt array) :
    Heap compare 1 cnt (buildHeap compare cnt i array) ∧ Rearranged cnt array (buildHeap compare cnt i array) := by
  induction i generalizing array with
  | zero => exact ⟨heap, .refl⟩
  | succ i ih =>
    obtain ⟨isHeap, rearranged⟩ := @heapify_heap _ (i + 1) cnt array _ (i + 1) preorders (by omega)
      ⟨fun c inHeap fromLow other => heap c inHeap (by omega), fun c inHeap here fromLow => by omega⟩
    exact (ih isHeap).imp_right rearranged.trans

theorem Heap.root (heap : Heap compare 1 cnt array) (inside : 0 < k ∧ k ≤ cnt) : doCompare compare array k 1 ≤ 0 := by
  induction k using Nat.strongRecOn with
  | ind k ih =>
    by_cases isRoot : k = 1
    · subst isRoot
      exact (preorders.total _ _).elim id id
    · exact preorders.trans (heap k inside.2 (by omega)) (ih (k / 2) (by omega) (by omega))

/-- After the heap of the first `i` elements the array is in order, and nothing in the heap is greater. -/
theorem sortHeap_sorted (heap : Heap compare 1 i array) (inside : i ≤ cnt)
    (ordered : ∀ k l, 0 < k → k ≤ l → i < l → l ≤ cnt → doCompare compare array k l ≤ 0) :
    (∀ k l, 0 < k → k ≤ l → l ≤ cnt → doCompare compare (sortHeap compare i array) k l ≤ 0) ∧
      Rearranged cnt array (sortHeap compare i array) := by
  fun_induction sortHeap compare i array with
  | case1 i array ih =>
    have swaps : Rearranged cnt array (doSwap array 1 (i + 2)) := .swap (by omega) (by omega)
    rw [doSwap_eq] at *
    have heap' : HeapExcept compare 1 (i + 1) 1 (array ∘ Equiv.swap 1 (i + 2)) := by
      refine ⟨fun c inHeap fromLow other => ?_, fun c _ _ fromLow => by omega⟩
      rw [doCompare, comp_apply, comp_apply, Equiv.swap_apply_of_ne_of_ne (by omega) (by omega),
        Equiv.swap_apply_of_ne_of_ne (by omega) (by omega)]
      exact heap c (by omega) fromLow
    obtain ⟨isHeap, f, inRange, same⟩ := heapify_heap preorders ⟨Nat.one_pos, Nat.le_refl 1⟩ heap'
    refine (ih isHeap (by omega) fun k l hk before out inCnt => ?_).imp_right
      (swaps.trans ⟨f, fun k moved => by have := inRange k moved; omega, same⟩).trans
    have stays : f l = l := by
      have := inRange l
      omega
    have swapped : 0 < Equiv.swap 1 (i + 2) (f k) ∧ Equiv.swap 1 (i + 2) (f k) ≤ l := by
      have moved := inRange (f k)
      rw [Ne, f.injective.eq_iff] at moved
      rw [Equiv.swap_apply_def]
      split_ifs <;> omega
    simp only [doCompare, same, comp_apply, stays]
    by_cases last : l = i + 2
    · -- The root of the heap comes after it.
      subst last
      rw [Equiv.swap_apply_right]
      exact heap.root preorders swapped
    · rw [Equiv.swap_apply_of_ne_of_ne (by omega) last]
      exact ordered _ l swapped.1 swapped.2 (by omega) inCnt
  | case2 i array small =>
    refine ⟨fun k l hk before inRange => ?_, .refl⟩
    by_cases isFirst : l = 1
    · rw [show k = l by omega]
      exact (preorders.total _ _).elim id id
    · have single : i ≠ i - 2 + 2 := small (i - 2)
      exact ordered k l hk before (by omega) inRange

/-- `sort` leaves the elements in order. -/
theorem sort_sorted (positive : 0 < size) : ∃ array', sort compare array cnt = some array' ∧
    (∀ k l, 0 < k → k ≤ l → l ≤ cnt → doCompare compare array' k l ≤ 0) ∧ Rearranged cnt array array' := by
  obtain ⟨isHeap, rearranged⟩ := @buildHeap_heap size (cnt / 2) cnt array compare preorders
    fun c inHeap fromLow => by omega
  refine ⟨_, if_neg (by omega), ?_⟩
  exact (sortHeap_sorted preorders isHeap (Nat.le_refl cnt) fun k l _ _ out inRange => by omega).imp_right
    rearranged.trans

omit preorders in
/-- Three elements of one byte. -/
theorem sort_sorted_example : ∃ array', sort (fun x y : Fin 1 → UInt8 => (x 0).toNat - (y 0).toNat)
    (fun idx _ => if idx = 2 then 1 else 5) 3 = some array' ∧ array' 1 0 ≤ array' 2 0 ∧ array' 2 0 ≤ array' 3 0 := by
  obtain ⟨array', isSorted, sorted, -⟩ := @sort_sorted 1 3 (fun idx _ => if idx = 2 then 1 else 5)
    (fun x y => (x 0).toNat - (y 0).toNat) ⟨fun x y => by omega, fun first second => by omega⟩ Nat.one_pos
  have first := sorted 1 2
  have second := sorted 2 3
  simp [doCompare] at first second
  exact ⟨array', isSorted, UInt8.le_iff_toNat_le.mpr (by omega), UInt8.le_iff_toNat_le.mpr (by omega)⟩

end Pintos.Lib
