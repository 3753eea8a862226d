import Mathlib.Data.List.Basic

/-! # Reading and overwriting a range of a list

`slice xs ofs n` is what `memcpy (dst, xs + ofs, n)` copies, `splice xs ofs ys` what `xs` becomes under
`memcpy (xs + ofs, ys, ys.length)`.  Both are total: what would fall outside `xs` is dropped, so
`splice` keeps the length.  The append lemmas split a transfer at a boundary, which is how a transfer
that covers several blocks is followed block by block.
-/

namespace Pintos.Library

open List Option

variable {α : Type} {ys : List α}

def slice (xs : List α) (ofs n : Nat) : List α :=
  (xs.drop ofs).take n

def splice (xs : List α) (ofs : Nat) (ys : List α) : List α :=
  xs.mapIdx fun i x => if i < ofs then x else (ys[i - ofs]?).getD x

@[simp] theorem length_splice (xs : List α) (ofs : Nat) (ys : List α) : (splice xs ofs ys).length = xs.length := by
  simp [splice]

theorem getElem?_splice (xs : List α) (ofs : Nat) (ys : List α) (i : Nat) :
    (splice xs ofs ys)[i]? = xs[i]?.map fun x => if i < ofs then x else (ys[i - ofs]?).getD x := by
  simp [splice]

theorem length_slice (xs : List α) (ofs n : Nat) : (slice xs ofs n).length = min n (xs.length - ofs) := by
  simp [slice]

theorem getElem?_slice (xs : List α) (ofs n i : Nat) : (slice xs ofs n)[i]? = if i < n then xs[ofs + i]? else none := by
  simp [slice, getElem?_take]

theorem slice_min (xs : List α) (ofs n : Nat) : slice xs ofs (min n (xs.length - ofs)) = slice xs ofs n := by
  rw [slice, slice, ← length_drop, ← take_take, take_length]

theorem slice_append (xs zs : List α) (ofs n : Nat) :
    slice (xs ++ zs) ofs n = slice xs ofs n ++ slice zs (ofs - xs.length) (n - (xs.length - ofs)) := by
  simp [slice, drop_append, take_append]

theorem splice_append (xs zs : List α) (ofs : Nat) (ys : List α) :
    splice (xs ++ zs) ofs ys = splice xs ofs ys ++ splice zs (ofs - xs.length) (ys.drop (xs.length - ofs)) := by
  apply ext_getElem?
  intro i
  by_cases inside : i < xs.length
  · rw [getElem?_append_left (by simpa using inside), getElem?_splice, getElem?_splice, getElem?_append_left inside]
  · have shift : (splice xs ofs ys).length ≤ i := by simpa using inside
    rw [getElem?_append_right shift, getElem?_splice, getElem?_splice, getElem?_append_right (by omega), length_splice]
    congr 1
    funext x
    by_cases before : i < ofs
    · rw [if_pos before, if_pos (by omega)]
    · rw [if_neg before, if_neg (by omega), getElem?_drop]
      congr 2
      omega

@[simp] theorem splice_nil (xs : List α) (ofs : Nat) : splice xs ofs [] = xs := by
  apply ext_getElem?
  intro i
  rw [getElem?_splice]
  cases xs[i]? <;> simp

theorem splice_splice (xs : List α) (ofs : Nat) {zs : List α} (covered : ys.length ≤ zs.length) :
    splice (splice xs ofs ys) ofs zs = splice xs ofs zs := by
  apply ext_getElem?
  intro i
  rw [getElem?_splice, getElem?_splice, getElem?_splice, Option.map_map]
  congr 1
  funext x
  by_cases before : i < ofs
  · simp [before]
  · by_cases written : i - ofs < zs.length
    · simp [before, getElem?_eq_getElem written]
    · simp [before, getElem?_eq_none (Nat.not_lt.mp written),
        getElem?_eq_none (Nat.le_trans covered (Nat.not_lt.mp written))]

/-- Only what fits is written. -/
theorem splice_take (xs : List α) (ofs : Nat) (ys : List α) :
    splice xs ofs (ys.take (xs.length - ofs)) = splice xs ofs ys := by
  apply ext_getElem?
  intro i
  rw [getElem?_splice, getElem?_splice]
  by_cases inside : i < xs.length
  · by_cases before : i < ofs
    · simp [before]
    · rw [getElem?_take, if_pos (by omega : i - ofs < xs.length - ofs)]
  · have past : xs[i]? = none := getElem?_eq_none (Nat.not_lt.mp inside)
    rw [past, map_none, map_none]

theorem splice_whole {xs : List α} (same : ys.length = xs.length) : splice xs 0 ys = ys := by
  apply ext_getElem?
  intro i
  rw [getElem?_splice]
  by_cases inside : i < xs.length
  · have written : i < ys.length := by omega
    simp [getElem?_eq_getElem inside, getElem?_eq_getElem written]
  · have past : ys.length ≤ i := by omega
    rw [getElem?_eq_none (Nat.not_lt.mp inside), getElem?_eq_none past, map_none]

/-- What has been written can be read back. -/
theorem slice_splice (xs : List α) {ofs : Nat} (fits : ofs + ys.length ≤ xs.length) :
    slice (splice xs ofs ys) ofs ys.length = ys := by
  apply ext_getElem?
  intro i
  rw [getElem?_slice, getElem?_splice]
  by_cases written : i < ys.length
  · have inside : ofs + i < xs.length := by omega
    rw [if_pos written, getElem?_eq_getElem inside, map_some, if_neg (by omega), Nat.add_sub_cancel_left,
      getElem?_eq_getElem written, getD_some]
  · rw [if_neg written, getElem?_eq_none (Nat.not_lt.mp written)]

end Pintos.Library
