import Mathlib.Data.List.Basic
import Mathlib.Data.List.Forall2

/-! # Byte and string functions (`lib/string.c`)

`memmove` on ranges that may overlap, and the tokens that calls of `strtok_r` return.
-/

namespace Pintos.Lib

open List

/-- The bytes at the addresses from `NULL` on. -/
abbrev Memory := List UInt8

variable {memory : Memory} {dst src size : Nat}

/-! ## `memmove` -/

/-- `*dst = *src` -/
def copyByte (dst src : Nat) (memory : Memory) : Option Memory := do
  let byte ← memory[src]?
  if dst < memory.length then some (memory.set dst byte) else none

/-- `while (size-- > 0) *dst++ = *src++`, with the pointer `dst` after it. -/
def copyUp (dst src : Nat) : Nat → Memory → Option (Nat × Memory)
  | 0, memory => some (dst, memory)
  | size + 1, memory => do copyUp (dst + 1) (src + 1) size (← copyByte dst src memory)

/-- `while (size-- > 0) *--dst = *--src`, with the pointer `dst` after it. -/
def copyDown (dst src : Nat) : Nat → Memory → Option (Nat × Memory)
  | 0, memory => some (dst, memory)
  | size + 1, memory => do copyDown (dst - 1) (src - 1) size (← copyByte (dst - 1) (src - 1) memory)

def memmove (dst src size : Nat) (memory : Memory) : Option (Nat × Memory) :=
  if (dst = 0 ∨ src = 0) ∧ size ≠ 0 then none
  else if dst < src then copyUp dst src size memory
  else copyDown (dst + size) (src + size) size memory

/-- One range holds what another held before, and the rest is unchanged. -/
structure Moved (dst src size : Nat) (memory memory' : Memory) : Prop where
  inside : ∀ k < size, memory'[dst + k]? = memory[src + k]?
  outside : ∀ i, i < dst ∨ dst + size ≤ i → memory'[i]? = memory[i]?

theorem copyByte_inside (dstInside : dst < memory.length) (srcInside : src < memory.length) :
    copyByte dst src memory = some (memory.set dst memory[src]) := by
  simp [copyByte, dstInside, srcInside]

/-- Going up, the bytes still to be read are above those written. -/
theorem copyUp_moves (up : dst ≤ src) (dstInside : dst + size ≤ memory.length)
    (srcInside : src + size ≤ memory.length) :
    ∃ memory', copyUp dst src size memory = some (dst + size, memory') ∧ Moved dst src size memory memory' := by
  induction size generalizing dst src memory with
  | zero => exact ⟨memory, rfl, by simp, fun _ _ => rfl⟩
  | succ size ih =>
    have here : src < memory.length := by omega
    obtain ⟨memory', copied, moved⟩ := @ih (memory.set dst memory[src]) (dst + 1) (src + 1) (by omega)
      (by rw [length_set]; omega) (by rw [length_set]; omega)
    refine ⟨memory', ?_, fun k inRange => ?_, fun i out => ?_⟩
    · rw [copyUp, copyByte_inside (by omega) here]
      exact copied.trans (by rw [Nat.add_right_comm, Nat.add_assoc])
    · cases k with
      | zero =>
        rw [moved.outside _ (by omega)]
        exact (getElem?_set_self (by omega)).trans (getElem?_eq_getElem here).symm
      | succ k =>
        rw [Nat.add_comm k, ← Nat.add_assoc, moved.inside k (by omega), getElem?_set_ne (by omega), Nat.add_assoc]
    · rw [moved.outside i (by omega), getElem?_set_ne (by omega)]

/-- Going down, they are below. -/
theorem copyDown_moves (down : src ≤ dst) (dstInside : dst + size ≤ memory.length)
    (srcInside : src + size ≤ memory.length) :
    ∃ memory', copyDown (dst + size) (src + size) size memory = some (dst, memory') ∧
      Moved dst src size memory memory' := by
  induction size generalizing memory with
  | zero => exact ⟨memory, rfl, by simp, fun _ _ => rfl⟩
  | succ size ih =>
    have here : src + size < memory.length := by omega
    obtain ⟨memory', copied, moved⟩ := @ih (memory.set (dst + size) memory[src + size])
      (by rw [length_set]; omega) (by rw [length_set]; omega)
    refine ⟨memory', ?_, fun k inRange => ?_, fun i out => ?_⟩
    · rw [copyDown, ← Nat.add_assoc, ← Nat.add_assoc, Nat.add_sub_cancel, Nat.add_sub_cancel,
        copyByte_inside (by omega) here]
      exact copied
    · by_cases last : k = size
      · subst last
        rw [moved.outside _ (by omega), getElem?_set_self (by omega)]
        exact (getElem?_eq_getElem here).symm
      · rw [moved.inside k (by omega), getElem?_set_ne (by omega)]
    · rw [moved.outside i (by omega), getElem?_set_ne (by omega)]

/-- `memmove` moves the bytes; it returns the pointer it was given except where it has gone up. -/
theorem memmove_moves (dstInside : 0 < dst ∧ dst + size ≤ memory.length)
    (srcInside : 0 < src ∧ src + size ≤ memory.length) :
    ∃ result memory', memmove dst src size memory = some (result, memory') ∧ Moved dst src size memory memory' ∧
      (result = dst ↔ src ≤ dst ∨ size = 0) := by
  have asserted : ¬ ((dst = 0 ∨ src = 0) ∧ size ≠ 0) := by omega
  rw [memmove, if_neg asserted]
  split
  next up =>
    obtain ⟨memory', copied, moved⟩ := copyUp_moves (by omega) dstInside.2 srcInside.2
    exact ⟨_, memory', copied, moved, by omega⟩
  next down =>
    obtain ⟨memory', copied, moved⟩ := copyDown_moves (by omega) dstInside.2 srcInside.2
    exact ⟨_, memory', copied, moved, by omega⟩

/-- Ranges that overlap, with the destination above the source. -/
theorem memmove_moves_example : ∃ result memory', memmove 2 1 3 [0, 1, 2, 3, 4, 5] = some (result, memory') ∧
    Moved 2 1 3 [0, 1, 2, 3, 4, 5] memory' ∧ (result = 2 ↔ 1 ≤ 2 ∨ 3 = 0) :=
  memmove_moves (by decide) (by decide)

/-- With the destination below the source the pointer after the destination is returned. -/
theorem memmove_returns_end : memmove 1 2 3 [0, 1, 2, 3, 4, 5] = some (4, [0, 2, 3, 4, 4, 5]) := by
  decide

/-! ## `strtok_r` -/

/-- `strchr (string, c)`, of a string without its terminator: the string from the first `c` on. -/
def strchr : List UInt8 → UInt8 → Option (List UInt8)
  | [], c => if c = 0 then some [] else none
  | first :: rest, c => if first = c then some (first :: rest) else strchr rest c

/-- A pointer into some bytes: those before it, and those from it on. -/
abbrev Pointer := List UInt8 × List UInt8

/-- `while (p (*s)) s++`, with `*s` after it. -/
def scan (p : UInt8 → Bool) : List UInt8 → List UInt8 → Option (List UInt8 × UInt8 × List UInt8)
  | _, [] => none
  | before, c :: after => if p c then scan p (before ++ [c]) after else some (before, c, after)

/-- `strtok_r`, from `s`, or from `*save_ptr` if `s` is `NULL`: the token, and `*save_ptr` after the call. -/
def strtokR (delimiters : List UInt8) (s : Pointer) : Option (Option Nat × Pointer) := do
  let (before, c, after) ← scan (fun c => (strchr delimiters c).isSome && c != 0) s.1 s.2
  if c = 0 then return (none, before, c :: after)
  let token := before.length
  let (before, c, after) ← scan (fun c => (strchr delimiters c).isNone) before (c :: after)
  if c ≠ 0 then return (some token, before ++ [0], after)
  return (some token, before, c :: after)

/-- The strings at the tokens that calls return, up to the call that returns `NULL`. -/
def strtokCalls (delimiters : List UInt8) : Nat → Pointer → Option (List (List UInt8) × Pointer)
  | 0, _ => none
  | calls + 1, s => do
    let (token, s) ← strtokR delimiters s
    match token with
    | none => some ([], s)
    | some token =>
      let (tokens, s') ← strtokCalls delimiters calls s
      some (((s.1 ++ s.2).drop token).takeWhile (· != 0) :: tokens, s')

/-- The maximal substrings that are not empty and have no delimiter. -/
def words (delimiters string : List UInt8) : List (List UInt8) :=
  (string.splitOnP (· ∈ delimiters)).filter (· ≠ [])

/-- Only delimiters are overwritten. -/
def Overwritten (delimiters : List UInt8) : List UInt8 → List UInt8 → Prop :=
  Forall₂ fun old new => new = old ∨ old ∈ delimiters ∧ new = 0

variable {string delimiters token before after : List UInt8} {c : UInt8} {s : Pointer}

@[simp] theorem strchr_isSome : (strchr delimiters c).isSome = (decide (c ∈ delimiters) || c == 0) := by
  induction delimiters with
  | nil =>
    rw [strchr]
    split <;> simp [*]
  | cons first rest ih =>
    rw [strchr]
    split
    next same => simp [same]
    next other => simp [ih, Ne.symm other]

theorem scan_append {p : UInt8 → Bool} (passes : ∀ c ∈ token, p c = true) (stops : p c = false) :
    scan p before (token ++ c :: after) = some (before ++ token, c, after) := by
  induction token generalizing before with
  | nil => simp [scan, stops]
  | cons first rest ih =>
    rw [cons_append, scan, if_pos (passes first mem_cons_self),
      ih fun c isRest => passes c (mem_cons_of_mem first isRest)]
    simp

/-- A delimiter before the token is passed over. -/
theorem strtokCalls_skip (isDelimiter : c ∈ delimiters) (notZero : c ≠ 0) (calls : Nat) :
    strtokCalls delimiters calls (before, c :: after) = strtokCalls delimiters calls (before ++ [c], after) := by
  cases calls with
  | zero => rfl
  | succ calls => simp [strtokCalls, strtokR, scan, isDelimiter, notZero]

/-- A call returns the token in front of it, and overwrites the byte that ends it. -/
theorem strtokCalls_token (isToken : ∀ c ∈ token, c ∉ delimiters ∧ c ≠ 0) (notEmpty : token ≠ [])
    (ends : c ∈ delimiters ∨ c = 0) {tokens : List (List UInt8)} {calls : Nat}
    (others : strtokCalls delimiters calls
      (if c = 0 then (before ++ token, 0 :: after) else (before ++ token ++ [0], after)) = some (tokens, s)) :
    strtokCalls delimiters (calls + 1) (before, token ++ c :: after) = some (token :: tokens, s) := by
  have ended : scan (fun c => (strchr delimiters c).isNone) before (token ++ c :: after) =
      some (before ++ token, c, after) :=
    scan_append (fun c inToken => by simp [← Option.not_isSome, isToken c inToken])
      (by simpa [← Option.not_isSome, or_iff_not_imp_left] using ends)
  have isRead : (token ++ 0 :: after).takeWhile (· != 0) = token := by
    rw [takeWhile_append_of_pos fun c inToken => by simpa using (isToken c inToken).2]
    simp
  obtain ⟨first, rest, rfl⟩ := exists_cons_of_ne_nil notEmpty
  have isFirst := isToken first mem_cons_self
  rw [cons_append] at ended ⊢
  by_cases isZero : c = 0 <;> simp_all [strtokCalls, strtokR, scan]

theorem words_skip (isDelimiter : c ∈ delimiters) : words delimiters (c :: string) = words delimiters string := by
  simp [words, splitOnP_cons_eq_if_modifyHead, isDelimiter]

theorem words_token (isToken : ∀ c ∈ token, c ∉ delimiters) (notEmpty : token ≠ []) : words delimiters token = [token] ∧
    ∀ c string, c ∈ delimiters → words delimiters (token ++ c :: string) = token :: words delimiters string := by
  have alone := splitOnP_eq_singleton fun c inToken => decide_eq_false (isToken c inToken)
  refine ⟨by simp [words, alone, notEmpty], fun c string ends => ?_⟩
  rw [words, splitOnP_append_cons token string (decide_eq_true ends), alone]
  simp [words, notEmpty]

theorem exists_token (delimiters string : List UInt8) :
    ∃ token rest, string = token ++ rest ∧ (∀ c ∈ token, c ∉ delimiters) ∧ ∀ c ∈ rest.head?, c ∈ delimiters := by
  refine ⟨string.takeWhile (· ∉ delimiters), string.dropWhile (· ∉ delimiters), takeWhile_append_dropWhile.symm,
    fun c inToken => by simpa using all_eq_true.mp all_takeWhile c inToken, fun c isHead => ?_⟩
  have last := head?_dropWhile_not (· ∉ delimiters) string
  rw [isHead] at last
  simpa using last

/-- The calls on a string end, return its words and overwrite delimiters only, and from then on `NULL` is returned. -/
theorem strtok_words (before after : List UInt8) (terminated : 0 ∉ string) : ∃ calls string',
    strtokCalls delimiters calls (before, string ++ 0 :: after) =
        some (words delimiters string, before ++ string', 0 :: after) ∧
      Overwritten delimiters string string' ∧
      strtokR delimiters (before ++ string', 0 :: after) = some (none, before ++ string', 0 :: after) := by
  -- Each call leaves less of the string.
  induction remaining : string.length using Nat.strongRecOn generalizing before string with
  | ind _ ih =>
    subst remaining
    obtain ⟨token, rest, rfl, isToken, last⟩ := exists_token delimiters string
    have isToken' : ∀ c ∈ token, c ∉ delimiters ∧ c ≠ 0 := fun c inToken => ⟨isToken c inToken, by grind⟩
    by_cases isEmpty : token = []
    · subst isEmpty
      cases rest with
      | nil => exact ⟨1, [], by simp [strtokCalls, strtokR, scan, words], .nil, by simp [strtokR, scan]⟩
      | cons c rest =>
        obtain ⟨calls, string', called, written, ends⟩ := ih rest.length (by simp) (before ++ [c]) (by grind) rfl
        refine ⟨calls, c :: string', ?_, .cons (.inl rfl) written, by simpa using ends⟩
        rw [nil_append, words_skip (last c rfl), cons_append, strtokCalls_skip (last c rfl) (by grind)]
        simpa using called
    · have same : Overwritten delimiters token token := forall₂_same.mpr fun _ _ => .inl rfl
      have shorter := length_pos_iff.mpr isEmpty
      cases rest with
      | nil =>
        obtain ⟨calls, _, called, ⟨⟩, ends⟩ := ih 0 (by simpa) (before ++ token) (not_mem_nil) rfl
        refine ⟨calls + 1, token, ?_, by simpa using same, by simpa using ends⟩
        rw [append_nil, (words_token isToken isEmpty).1]
        exact strtokCalls_token isToken' isEmpty (.inr rfl) (by simpa [words] using called)
      | cons c rest =>
        obtain ⟨calls, string', called, written, ends⟩ :=
          ih rest.length (by simp; omega) (before ++ token ++ [0]) (by grind) rfl
        refine ⟨calls + 1, token ++ 0 :: string', ?_, rel_append same (.cons (.inr ⟨last c rfl, rfl⟩) written),
          by simpa using ends⟩
        rw [(words_token isToken isEmpty).2 c rest (last c rfl), append_assoc]
        refine strtokCalls_token isToken' isEmpty (.inl (last c rfl)) ?_
        rw [if_neg (by grind)]
        simpa using called

/-- The string `"/a/"`. -/
theorem strtok_words_example : ∃ calls string', strtokCalls [47] calls ([], [47, 97, 47] ++ [0]) =
      some (words [47] [47, 97, 47], string', [0]) ∧ Overwritten [47] [47, 97, 47] string' ∧
        words [47] [47, 97, 47] = [[97]] := by
  obtain ⟨calls, string', called, written, -⟩ := @strtok_words [47, 97, 47] [47] [] [] (by decide)
  exact ⟨calls, string', called, written, by decide⟩

end Pintos.Lib
