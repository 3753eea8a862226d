import Mathlib.Data.List.Basic
import Mathlib.Tactic.Ring

/-! # Records of a fixed size in an array that grows

An array of cells that is read and written at offsets, and grows when it is written past its end.  Its whole records are
those at the multiples of their size.
-/

namespace Pintos.Library

open List Nat

/-- Records as sequences of cells. -/
structure Codec (Cell Record : Type*) where
  size : Nat
  encode : Record → List Cell
  decode : List Cell → Record
  size_pos : 0 < size
  length_encode : ∀ r, (encode r).length = size
  decode_encode : ∀ r, decode (encode r) = r

variable {Cell Record : Type*} {data buffer : List Cell} {i j ofs size : Nat}

def readAt (data : List Cell) (size ofs : Nat) : List Cell :=
  (data.drop ofs).take size

/-- A write, which fills what it skips. -/
def writeAt [Inhabited Cell] (data buffer : List Cell) (ofs : Nat) : List Cell :=
  (data ++ replicate (ofs - data.length) default).take ofs ++ buffer ++ data.drop (ofs + buffer.length)

theorem length_readAt : (readAt data size ofs).length = min size (data.length - ofs) := by
  simp [readAt]

theorem getElem?_readAt : (readAt data size ofs)[i]? = if i < size then data[ofs + i]? else none := by
  rw [readAt, getElem?_take]
  split <;> simp

section Write

variable [Inhabited Cell]

section

variable (inside : ofs ≤ data.length)

include inside

theorem length_writeAt : (writeAt data buffer ofs).length = max data.length (ofs + buffer.length) := by
  simp only [writeAt, length_append, length_take, length_replicate, length_drop]
  omega

theorem getElem?_writeAt :
    (writeAt data buffer ofs)[i]? =
      if i < ofs then data[i]? else if i < ofs + buffer.length then buffer[i - ofs]? else data[i]? := by
  have unfilled : writeAt data buffer ofs = data.take ofs ++ (buffer ++ data.drop (ofs + buffer.length)) := by
    simp [writeAt, Nat.sub_eq_zero_of_le inside]
  have length : (data.take ofs).length = ofs := by simp [inside]
  rw [unfilled]
  split
  next before => rw [getElem?_append_left (by omega), getElem?_take_of_lt before]
  next after =>
    rw [getElem?_append_right (by omega), length]
    split
    next within => exact getElem?_append_left (by omega)
    next beyond =>
      rw [getElem?_append_right (by omega), getElem?_drop]
      congr 1
      omega

theorem readAt_writeAt_self : readAt (writeAt data buffer ofs) buffer.length ofs = buffer := by
  apply ext_getElem?
  intro i
  rw [getElem?_readAt, getElem?_writeAt inside]
  split
  next within => rw [if_neg (by omega), if_pos (by omega), Nat.add_sub_cancel_left]
  next beyond => exact (getElem?_eq_none (by omega)).symm

/-- A read that the write does not overlap. -/
theorem readAt_writeAt_other {ofs' : Nat} (apart : ofs' + size ≤ ofs ∨ ofs + buffer.length ≤ ofs') :
    readAt (writeAt data buffer ofs) size ofs' = readAt data size ofs' := by
  apply ext_getElem?
  intro i
  rw [getElem?_readAt, getElem?_readAt, getElem?_writeAt inside]
  split
  next within =>
    split
    next => rfl
    next => exact if_neg (by omega)
  next => rfl

end

end Write

namespace Codec

variable (c : Codec Cell Record)

/-- The whole records of an array. -/
def records (data : List Cell) : List Record :=
  (range (data.length / c.size)).map fun i => c.decode (readAt data c.size (c.size * i))

theorem length_records : (c.records data).length = data.length / c.size := by
  simp [records]

theorem lt_length_records : i < (c.records data).length ↔ c.size * i + c.size ≤ data.length := by
  rw [length_records, ← succ_le_iff, le_div_iff_mul_le c.size_pos, succ_mul, mul_comm]

theorem getElem?_records (whole : c.size * i + c.size ≤ data.length) :
    (c.records data)[i]? = some (c.decode (readAt data c.size (c.size * i))) := by
  have inRange : i < data.length / c.size := c.length_records ▸ c.lt_length_records.mpr whole
  simp [records, inRange]

theorem size_mul_le (index : i ≤ (c.records data).length) : c.size * i ≤ data.length :=
  calc c.size * i ≤ c.size * (data.length / c.size) := mul_le_mul_left _ (c.length_records ▸ index)
    _ ≤ data.length := mul_div_le _ _

/-- Distinct records do not overlap. -/
theorem apart (different : i ≠ j) : c.size * j + c.size ≤ c.size * i ∨ c.size * i + c.size ≤ c.size * j := by
  rcases lt_or_gt_of_ne different with less | greater
  · exact .inr (by rw [← mul_succ]; exact mul_le_mul_left _ less)
  · exact .inl (by rw [← mul_succ]; exact mul_le_mul_left _ greater)

section Write

variable [Inhabited Cell] {r : Record}

/-- What a write of one record leaves at each index that still is one. -/
theorem decode_writeAt (index : i ≤ (c.records data).length) :
    c.decode (readAt (writeAt data (c.encode r) (c.size * i)) c.size (c.size * j)) =
      if i = j then r else c.decode (readAt data c.size (c.size * j)) := by
  split
  next same =>
    subst same
    have back : readAt (writeAt data (c.encode r) (c.size * i)) (c.encode r).length (c.size * i) = c.encode r :=
      readAt_writeAt_self (c.size_mul_le index)
    rw [c.length_encode] at back
    rw [back, c.decode_encode]
  next different =>
    rw [readAt_writeAt_other (c.size_mul_le index)]
    rw [c.length_encode]
    exact c.apart different

theorem length_writeAt_of_lt (index : i < (c.records data).length) :
    (writeAt data (c.encode r) (c.size * i)).length = data.length := by
  rw [length_writeAt (c.size_mul_le index.le), c.length_encode]
  exact max_eq_left (c.lt_length_records.mp index)

/-- A record written in the place of another. -/
theorem records_writeAt_of_lt (index : i < (c.records data).length) :
    c.records (writeAt data (c.encode r) (c.size * i)) = (c.records data).set i r := by
  have length := c.length_writeAt_of_lt (r := r) index
  apply ext_getElem?
  intro j
  rw [getElem?_set]
  by_cases inRange : j < (c.records data).length
  · have wholeJ := c.lt_length_records.mp inRange
    rw [c.getElem?_records (length ▸ wholeJ), c.getElem?_records wholeJ, c.decode_writeAt index.le]
    split <;> simp_all
  · have outside := not_lt.mp inRange
    rw [getElem?_eq_none (by rwa [length_records, length, ← length_records]), if_neg (by omega),
      getElem?_eq_none outside]

theorem length_writeAt_end (full : c.size ∣ data.length) :
    (writeAt data (c.encode r) (c.size * (c.records data).length)).length = data.length + c.size := by
  have atEnd : c.size * (c.records data).length = data.length := by
    rw [length_records, Nat.mul_div_cancel' full]
  rw [length_writeAt atEnd.le, c.length_encode, atEnd]
  exact max_eq_right (le_add_right _ _)

/-- A record written at the end of an array without part of a record. -/
theorem records_writeAt_end (full : c.size ∣ data.length) :
    c.records (writeAt data (c.encode r) (c.size * (c.records data).length)) = c.records data ++ [r] := by
  have length := c.length_writeAt_end (r := r) full
  have count : (c.records (writeAt data (c.encode r) (c.size * (c.records data).length))).length =
      (c.records data).length + 1 := by
    rw [length_records, length, add_div_right _ c.size_pos, length_records]
  apply ext_getElem?
  intro j
  by_cases inRange : j < (c.records data).length + 1
  · rw [c.getElem?_records (c.lt_length_records.mp (count ▸ inRange)), c.decode_writeAt le_rfl]
    split
    next last => simp [← last]
    next earlier =>
      have inRange : j < (c.records data).length := by omega
      rw [getElem?_append_left inRange, c.getElem?_records (c.lt_length_records.mp inRange)]
  · rw [getElem?_eq_none (by omega), getElem?_eq_none (by simp; omega)]

end Write

/-! ## Scanning -/

/-- The loop that reads a record after the other into `e`, up to one that satisfies `p` or a short read. -/
def scan (data : List Cell) (p : Record → Bool) (ofs : Nat) (e : List Cell) : Bool × Nat × List Cell :=
  let buffer := readAt data c.size ofs
  if _whole : buffer.length = c.size then
    if p (c.decode buffer) then (true, ofs, buffer) else scan data p (ofs + c.size) buffer
  else (false, ofs, buffer ++ e.drop buffer.length)
termination_by data.length - ofs
decreasing_by
  have := c.size_pos
  rw [show buffer = readAt data c.size ofs from rfl, length_readAt] at _whole
  omega

variable {p : Record → Bool} {e : List Cell}

/-- One turn of the loop, at a record. -/
theorem scan_step {r : Record} (found : (c.records data)[i]? = some r) :
    c.scan data p (c.size * i) e =
      if p r then (true, c.size * i, readAt data c.size (c.size * i))
      else c.scan data p (c.size * (i + 1)) (readAt data c.size (c.size * i)) := by
  have inside := c.lt_length_records.mp (List.getElem?_eq_some_iff.mp found).1
  have whole : (readAt data c.size (c.size * i)).length = c.size := by
    rw [length_readAt]
    omega
  cases (c.getElem?_records inside).symm.trans found
  rw [scan]
  exact dif_pos whole

/-- The last turn, after the whole records. -/
theorem scan_end : ∃ buffer, c.scan data p (c.size * (c.records data).length) e =
    (false, c.size * (c.records data).length, buffer) := by
  have short : (readAt data c.size (c.size * (c.records data).length)).length ≠ c.size := by
    have outside := c.lt_length_records.not.mp (lt_irrefl (c.records data).length)
    have := c.size_pos
    rw [length_readAt]
    omega
  rw [scan]
  exact ⟨_, dif_neg short⟩

/-- A scan from a record on finds the first one that satisfies `p`, and where there is none gets to the end. -/
theorem scan_eq {rest : List Record} (split : (c.records data).drop i = rest) (index : i ≤ (c.records data).length) :
    match rest.findIdx? p with
    | some j => ∃ buffer, c.scan data p (c.size * i) e = (true, c.size * (i + j), buffer) ∧
        (c.records data)[i + j]? = some (c.decode buffer)
    | none => ∃ buffer, c.scan data p (c.size * i) e = (false, c.size * (c.records data).length, buffer) := by
  induction rest generalizing i e with
  | nil =>
    have atEnd : i = (c.records data).length := by
      have := drop_eq_nil_iff.mp split
      omega
    subst atEnd
    exact c.scan_end
  | cons r rest ih =>
    have found : (c.records data)[i]? = some r := by
      have head := congrArg (·[0]?) split
      simpa using head
    rw [c.scan_step found, List.findIdx?_cons]
    have inside := (List.getElem?_eq_some_iff.mp found).1
    cases satisfied : p r with
    | true =>
      refine ⟨_, rfl, ?_⟩
      exact c.getElem?_records (c.lt_length_records.mp inside)
    | false =>
      have split : (c.records data).drop (i + 1) = rest := by rw [← drop_drop, split]; rfl
      have later := ih (e := readAt data c.size (c.size * i)) split inside
      rcases found : rest.findIdx? p with _ | j
      · rw [found] at later
        exact later
      rw [found] at later
      obtain ⟨buffer, scanned, record⟩ := later
      rw [add_assoc, add_comm 1] at scanned record
      exact ⟨buffer, scanned, record⟩

theorem scan_found (found : (c.records data).findIdx? p = some j) :
    ∃ buffer, c.scan data p 0 e = (true, c.size * j, buffer) ∧ (c.records data)[j]? = some (c.decode buffer) ∧
      p (c.decode buffer) = true := by
  have scanned := c.scan_eq (i := 0) (p := p) (e := e) (drop_zero (l := c.records data)) (zero_le _)
  rw [found, mul_zero] at scanned
  simp only [zero_add] at scanned
  obtain ⟨buffer, scanned, record⟩ := scanned
  obtain ⟨_, satisfied, _⟩ := List.findIdx?_eq_some_iff_getElem.mp found
  rw [(List.getElem?_eq_some_iff.mp record).2] at satisfied
  exact ⟨buffer, scanned, record, satisfied⟩

theorem scan_missing (missing : (c.records data).findIdx? p = none) :
    ∃ buffer, c.scan data p 0 e = (false, c.size * (c.records data).length, buffer) := by
  have scanned := c.scan_eq (i := 0) (p := p) (e := e) (drop_zero (l := c.records data)) (zero_le _)
  rw [missing, mul_zero] at scanned
  exact scanned

end Codec

end Pintos.Library
