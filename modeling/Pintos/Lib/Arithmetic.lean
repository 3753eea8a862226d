import Mathlib.Data.Nat.Bitwise
import Mathlib.Tactic.Ring

/-! # 64-bit division (`lib/arithmetic.c`)

A divide error is `none`.  With a divisor of more than 32 bits `udiv64` divides by its leading 32 bits only;
`estimate_close` bounds the error of that estimate by one, for every shift of the divisor.
-/

namespace Pintos.Lib

open BitVec
open Nat (pow_add mod_eq_of_lt div_add_mod mod_lt)

/-- The instruction traps if the quotient needs more than 32 bits, and for a zero divisor. -/
def divl (n : BitVec 64) (d : BitVec 32) : Option (BitVec 32) :=
  if d ≠ 0 ∧ n.toNat / d.toNat < 2 ^ 32 then some (.ofNat 32 (n.toNat / d.toNat)) else none

/-- One of the first four tests of `nlz`. -/
def skipZeros (bound : BitVec 32) (zeros : Nat) (s : Nat × BitVec 32) : Nat × BitVec 32 :=
  if s.2 ≤ bound then (s.1 + zeros, s.2 <<< zeros) else s

def nlz (x : BitVec 32) : Nat :=
  let s := skipZeros 0x0000FFFF 16 (0, x)
  let s := skipZeros 0x00FFFFFF 8 s
  let s := skipZeros 0x0FFFFFFF 4 s
  let s := skipZeros 0x3FFFFFFF 2 s
  if s.2 ≤ 0x7FFFFFFF then s.1 + 1 else s.1

def udiv64 (n d : BitVec 64) : Option (BitVec 64) :=
  if d >>> 32 = 0 then do
    let b := 1#64 <<< 32
    let n1 := (n >>> 32).setWidth 32
    let n0 := n.setWidth 32
    let d0 := d.setWidth 32
    let q ← divl (b * (n1 % d0).setWidth 64 + n0.setWidth 64) d0
    return q.setWidth 64 + b * (n1 / d0).setWidth 64
  else if n < d then some 0
  else do
    let d1 := (d >>> 32).setWidth 32
    let s := nlz d1
    let q0 ← divl (n >>> 1) ((d <<< s >>> 32).setWidth 32)
    let q := (q0 >>> (31 - s)).setWidth 64
    return if n - (q - 1) * d < d then q - 1 else q

/-- The remainder is returned as a `uint32_t`. -/
def umod64 (n d : BitVec 64) : Option (BitVec 32) := do
  let q ← udiv64 n d
  return (n - d * q).setWidth 32

def sdiv64 (n d : BitVec 64) : Option (BitVec 64) := do
  let nAbs := if 0 ≤ n.toInt then n else -n
  let dAbs := if 0 ≤ d.toInt then d else -d
  let qAbs ← udiv64 nAbs dAbs
  return if decide (n.toInt < 0) = decide (d.toInt < 0) then qAbs else -qAbs

/-- The remainder is returned as an `int32_t`. -/
def smod64 (n d : BitVec 64) : Option (BitVec 32) := do
  let q ← sdiv64 n d
  return (n - d * q).setWidth 32

def divdi3 (n d : BitVec 64) : Option (BitVec 64) := sdiv64 n d

def moddi3 (n d : BitVec 64) : Option (BitVec 64) := (smod64 n d).map (signExtend 64)

def udivdi3 (n d : BitVec 64) : Option (BitVec 64) := udiv64 n d

def umoddi3 (n d : BitVec 64) : Option (BitVec 64) := (umod64 n d).map (setWidth 64)

/-! ## Leading zeros -/

/-- `x` has been shifted left by the count, has lost no bit, and is at least `2 ^ j` now. -/
def Shifted (x : BitVec 32) (j : Nat) (s : Nat × BitVec 32) : Prop :=
  s.2.toNat = x.toNat * 2 ^ s.1 ∧ 2 ^ j ≤ s.2.toNat

theorem Shifted.skipZeros {x : BitVec 32} {s : Nat × BitVec 32} {zeros : Nat}
    (shifted : Shifted x (32 - 2 * zeros) s) (bound : BitVec 32) (le : 2 * zeros ≤ 32)
    (limit : bound.toNat + 1 = 2 ^ (32 - zeros)) :
    Shifted x (32 - zeros) (skipZeros bound zeros s) := by
  obtain ⟨eq, large⟩ := shifted
  unfold Lib.skipZeros
  split
  next small =>
    have whole : 2 ^ (32 - zeros) * 2 ^ zeros = 2 ^ 32 := by rw [← pow_add]; congr 1; omega
    have half : 2 ^ (32 - 2 * zeros) * 2 ^ zeros = 2 ^ (32 - zeros) := by rw [← pow_add]; congr 1; omega
    have fits : s.2.toNat * 2 ^ zeros < 2 ^ 32 := by
      rw [← whole]
      exact Nat.mul_lt_mul_of_pos_right (by rw [le_def] at small; omega) (Nat.two_pow_pos _)
    have shift : (s.2 <<< zeros).toNat = s.2.toNat * 2 ^ zeros := by
      rw [toNat_shiftLeft, Nat.shiftLeft_eq, mod_eq_of_lt fits]
    refine ⟨?_, ?_⟩
    · rw [shift, eq, pow_add, Nat.mul_assoc]
    · rw [shift, ← half]
      exact Nat.mul_le_mul_right _ large
  next big => exact ⟨eq, by rw [le_def] at big; omega⟩

theorem nlz_spec {x : BitVec 32} (nonzero : x ≠ 0) :
    2 ^ 31 ≤ x.toNat * 2 ^ nlz x ∧ x.toNat * 2 ^ nlz x < 2 ^ 32 := by
  have start : Shifted x (32 - 2 * 16) (0, x) :=
    ⟨by simp, Nat.one_le_iff_ne_zero.2 fun zero => nonzero (eq_of_toNat_eq zero)⟩
  have sixteen : Shifted x (32 - 2 * 8) _ := start.skipZeros 0x0000FFFF (by decide) rfl
  have eight : Shifted x (32 - 2 * 4) _ := sixteen.skipZeros 0x00FFFFFF (by decide) rfl
  have four : Shifted x (32 - 2 * 2) _ := eight.skipZeros 0x0FFFFFFF (by decide) rfl
  obtain ⟨eq, large⟩ : Shifted x (32 - 2) _ := four.skipZeros 0x3FFFFFFF (by decide) rfl
  dsimp only [nlz]
  generalize skipZeros 0x3FFFFFFF 2 _ = s at eq large ⊢
  have bound := s.2.isLt
  split
  next small =>
    rw [le_def, show (0x7FFFFFFF : BitVec 32).toNat = 2 ^ 31 - 1 from rfl] at small
    rw [pow_add, ← Nat.mul_assoc, ← eq]
    omega
  next big =>
    rw [le_def, show (0x7FFFFFFF : BitVec 32).toNat = 2 ^ 31 - 1 from rfl] at big
    rw [← eq]
    omega

theorem nlz_lt {x : BitVec 32} (nonzero : x ≠ 0) : nlz x < 32 := by
  have pos : 1 ≤ x.toNat := Nat.one_le_iff_ne_zero.2 fun zero => nonzero (eq_of_toNat_eq zero)
  refine (Nat.pow_lt_pow_iff_right (by decide : 1 < 2)).1 ((Nat.le_mul_of_pos_left _ pos).trans_lt ?_)
  exact (nlz_spec nonzero).2

/-! ## The estimate -/

/-- `d / (2 * k)` is the leading 32 bits of `d`.  The error grows with the bits of `d` that were dropped, fewer
than `2 * k`, and with the quotient, less than `2 * t`; the two bounds multiply to a constant. -/
theorem estimate_close {n d k t : Nat} (whole : k * t = 2 ^ 31) (bound : n < 2 ^ 64)
    (normal : 2 ^ 31 ≤ d / (2 * k)) :
    n / d ≤ n / 2 / (d / (2 * k)) / k ∧ n / 2 / (d / (2 * k)) / k ≤ n / d + 1 := by
  have pos : 0 < k := Nat.pos_of_ne_zero fun zero => by simp [zero] at whole
  have split := div_add_mod d (2 * k)
  have dropped := mod_lt d (show 0 < 2 * k by omega)
  generalize d % (2 * k) = e at split dropped
  generalize d / (2 * k) = top at normal split ⊢
  have together : n / 2 / top / k = n / (2 * k * top) := by
    rw [Nat.div_div_eq_div_mul, Nat.div_div_eq_div_mul, mul_right_comm, mul_assoc 2]
  rw [together]
  have kept : 2 * k * 2 ^ 31 ≤ 2 * k * top := Nat.mul_le_mul_left _ normal
  refine ⟨Nat.div_le_div_left (by omega) (by omega), ?_⟩
  obtain zero | positive := Nat.eq_zero_or_pos (n / (2 * k * top))
  · rw [zero]
    exact Nat.zero_le _
  obtain ⟨p, quotient⟩ := Nat.exists_eq_add_one.2 positive
  -- it remains to bound `p * e`, what `p` times the divisor exceeds `p` times the leading bits by
  have low : (p + 1) * (2 * k * top) ≤ n := quotient ▸ Nat.div_mul_le_self n _
  have few : p + 1 < 2 * t := by
    refine Nat.lt_of_mul_lt_mul_right (a := k * 2 ^ 32) ?_
    calc (p + 1) * (k * 2 ^ 32) = (p + 1) * (2 * k * 2 ^ 31) := by ring
      _ ≤ (p + 1) * (2 * k * top) := Nat.mul_le_mul_left _ kept
      _ < 2 ^ 64 := low.trans_lt bound
      _ = 2 * t * (k * 2 ^ 32) := by rw [show 2 * t * (k * 2 ^ 32) = k * t * 2 ^ 33 by ring, whole]; rfl
  have error : p * e ≤ 2 * k * top := by
    refine le_trans ?_ kept
    obtain one | more : k = 1 ∨ 2 ≤ k := by omega
    · subst one
      calc p * e ≤ p * 1 := Nat.mul_le_mul_left _ (by omega)
        _ ≤ 2 * 1 * 2 ^ 31 := by omega
    · calc p * e ≤ 2 * t * (2 * k) := Nat.mul_le_mul (by omega) (by omega)
        _ = 4 * (k * t) := by ring
        _ = 4 * 2 ^ 31 := by rw [whole]
        _ ≤ 2 * k * 2 ^ 31 := Nat.mul_le_mul_right _ (by omega)
  rw [quotient]
  refine Nat.succ_le_succ ((Nat.le_div_iff_mul_le (by omega)).2 ?_)
  calc p * d = p * (2 * k * top) + p * e := by rw [← split]; ring
    _ ≤ p * (2 * k * top) + 2 * k * top := Nat.add_le_add_left error _
    _ = (p + 1) * (2 * k * top) := by ring
    _ ≤ n := low

/-- Shifting a number until its high half begins with a one: what that half is then, and that no bit is lost. -/
theorem leading_bits {d c t radix : Nat} (whole : c * t = radix) (pos : 0 < t) (high : d / radix * t < radix) :
    d * t < radix * radix ∧ d * t / radix = d / c ∧ d / radix * t ≤ d / c := by
  subst whole
  have short : d < c * (c * t) := (Nat.div_lt_iff_lt_mul (by omega)).1 (Nat.lt_of_mul_lt_mul_right high)
  refine ⟨?_, Nat.mul_div_mul_right _ _ pos, ?_⟩
  · calc d * t < c * (c * t) * t := Nat.mul_lt_mul_of_pos_right short pos
      _ = c * t * (c * t) := by ring
  · rw [← Nat.div_div_eq_div_mul]
    exact Nat.div_mul_le_self _ _

/-- The comparison after the estimate picks the quotient. -/
theorem estimate_corrected {n d q : Nat} (pos : 0 < d) (low : n / d ≤ q) (high : q ≤ n / d + 1) (one : 1 ≤ q) :
    (if n - (q - 1) * d < d then q - 1 else q) = n / d := by
  have whole := div_add_mod n d
  have small := mod_lt n pos
  rw [Nat.mul_comm d] at whole
  obtain rfl | rfl : q = n / d + 1 ∨ q = n / d := by omega
  · rw [Nat.add_sub_cancel, if_pos (by omega)]
  · have last := Nat.succ_mul (n / d - 1) d
    rw [Nat.succ_eq_add_one, Nat.sub_add_cancel one] at last
    rw [if_neg (by omega)]

/-! ## Quotients -/

theorem divl_eq {n : BitVec 64} {d : BitVec 32} (fits : n.toNat < 2 ^ 32 * d.toNat) :
    divl n d = some (.ofNat 32 (n.toNat / d.toNat)) ∧ n.toNat / d.toNat < 2 ^ 32 := by
  have pos : 0 < d.toNat := Nat.pos_of_ne_zero fun zero => by simp [zero] at fits
  have small := (Nat.div_lt_iff_lt_mul pos).2 fits
  exact ⟨if_pos ⟨fun zero => by simp [zero] at pos, small⟩, small⟩

theorem toNat_high (n : BitVec 64) : ((n >>> 32).setWidth 32).toNat = n.toNat / 2 ^ 32 := by
  have bound := n.isLt
  rw [toNat_setWidth, toNat_ushiftRight, Nat.shiftRight_eq_div_pow]
  omega

theorem high_eq_zero {n : BitVec 64} : n >>> 32 = 0 ↔ n.toNat / 2 ^ 32 = 0 := by
  rw [← toNat_inj, toNat_ushiftRight, Nat.shiftRight_eq_div_pow]
  rfl

theorem toNat_join (hi lo : BitVec 32) :
    (1#64 <<< 32 * hi.setWidth 64 + lo.setWidth 64).toNat = 2 ^ 32 * hi.toNat + lo.toNat := by
  have := hi.isLt
  have := lo.isLt
  simp only [toNat_add, toNat_mul, toNat_setWidth, show (1#64 <<< 32).toNat = 2 ^ 32 from rfl]
  omega

/-- A divisor of at most 32 bits: schoolbook division by digits of 32 bits. -/
theorem udiv64_short {n d : BitVec 64} (nonzero : d ≠ 0) (short : d >>> 32 = 0) : udiv64 n d = some (n / d) := by
  have small : d.toNat < 2 ^ 32 := Nat.lt_of_div_eq_zero (by decide) (high_eq_zero.1 short)
  have divisor : (d.setWidth 32).toNat = d.toNat := mod_eq_of_lt small
  have digits : n.toNat = 2 ^ 32 * ((n >>> 32).setWidth 32).toNat + (n.setWidth 32).toNat := by
    rw [toNat_high, toNat_setWidth, div_add_mod]
  simp only [udiv64, if_pos short]
  generalize (n >>> 32).setWidth 32 = n1 at digits ⊢
  generalize n.setWidth 32 = n0 at digits ⊢
  generalize d.setWidth 32 = d0 at divisor ⊢
  have pos : 0 < d0.toNat := divisor ▸ Nat.pos_of_ne_zero fun zero => nonzero (eq_of_toNat_eq zero)
  have rest := mod_lt n1.toNat pos
  have last := n0.isLt
  obtain ⟨ran, high⟩ := @divl_eq (1#64 <<< 32 * (n1 % d0).setWidth 64 + n0.setWidth 64) d0 (by
    rw [toNat_join, toNat_umod]
    omega)
  have sum : (2 ^ 32 * (n1.toNat % d0.toNat) + n0.toNat) / d0.toNat + 2 ^ 32 * (n1.toNat / d0.toNat)
      = n.toNat / d.toNat := by
    have whole := div_add_mod n1.toNat d0.toNat
    rw [← Nat.add_mul_div_left _ _ pos, mul_left_comm, ← divisor, digits]
    congr 1
    omega
  simp only [ran, Option.bind_eq_bind, Option.bind_some, Option.pure_def, Option.some.injEq]
  apply eq_of_toNat_eq
  rw [BitVec.add_comm, toNat_join, toNat_udiv, toNat_udiv, toNat_ofNat, mod_eq_of_lt high, toNat_join,
    toNat_umod, ← sum, Nat.add_comm]

/-- A divisor of more than 32 bits, by the estimate. -/
theorem udiv64_long {n d : BitVec 64} (long : d >>> 32 ≠ 0) (le : d ≤ n) : udiv64 n d = some (n / d) := by
  have nonzero : (d >>> 32).setWidth 32 ≠ 0 := by
    intro zero
    rw [← toNat_inj, toNat_high] at zero
    exact long (high_eq_zero.2 zero)
  have normal := nlz_spec nonzero
  have shift := nlz_lt nonzero
  simp only [udiv64, if_neg long, BitVec.not_lt.2 le, if_false]
  rw [toNat_high] at normal
  generalize nlz ((d >>> 32).setWidth 32) = s at normal shift ⊢
  have whole : 2 ^ (31 - s) * 2 ^ s = 2 ^ 31 := by rw [← pow_add]; congr 1; omega
  have double : 2 * 2 ^ (31 - s) * 2 ^ s = 2 ^ 32 := by rw [Nat.mul_assoc, whole]; rfl
  obtain ⟨fits, shifted, kept⟩ := leading_bits double (Nat.two_pow_pos s) normal.2
  have leading : ((d <<< s >>> 32).setWidth 32).toNat = d.toNat / (2 * 2 ^ (31 - s)) := by
    rw [toNat_high, toNat_shiftLeft, Nat.shiftLeft_eq, mod_eq_of_lt (show _ < 2 ^ 64 from fits), shifted]
  have large := normal.1.trans kept
  have bound := n.isLt
  have half : (n >>> 1).toNat = n.toNat / 2 := by rw [toNat_ushiftRight, Nat.shiftRight_eq_div_pow, Nat.pow_one]
  obtain ⟨ran, high⟩ := @divl_eq (n >>> 1) ((d <<< s >>> 32).setWidth 32) (by rw [half, leading]; omega)
  obtain ⟨below, above⟩ := estimate_close whole bound large
  simp only [ran, Option.bind_eq_bind, Option.bind_some, Option.pure_def, Option.some.injEq]
  rw [half, leading] at high ⊢
  have value : ((BitVec.ofNat 32 (n.toNat / 2 / (d.toNat / (2 * 2 ^ (31 - s)))) >>> (31 - s)).setWidth 64).toNat
      = n.toNat / 2 / (d.toNat / (2 * 2 ^ (31 - s))) / 2 ^ (31 - s) := by
    rw [toNat_setWidth_of_le (by decide), toNat_ushiftRight, Nat.shiftRight_eq_div_pow, toNat_ofNat,
      mod_eq_of_lt high]
  rw [← value] at below above
  generalize (BitVec.ofNat 32 _ >>> (31 - s)).setWidth 64 = q at below above ⊢
  have pos : 0 < d.toNat := Nat.pos_of_ne_zero fun zero => by simp [zero] at large
  have one : 1 ≤ q.toNat := (Nat.div_pos le pos).trans_le below
  have less : (q - 1).toNat = q.toNat - 1 := toNat_sub_of_le (y := 1) one
  have product : (q.toNat - 1) * d.toNat ≤ n.toNat :=
    (Nat.mul_le_mul_right _ (by omega)).trans (Nat.div_mul_le_self n.toNat d.toNat)
  have times : ((q - 1) * d).toNat = (q.toNat - 1) * d.toNat := by
    rw [toNat_mul, less, mod_eq_of_lt (product.trans_lt bound)]
  apply eq_of_toNat_eq
  rw [toNat_udiv, ← estimate_corrected pos below above one, apply_ite BitVec.toNat]
  simp only [lt_def, toNat_sub_of_le (le_def.2 (times ▸ product)), times, less]

theorem udiv64_eq {n d : BitVec 64} (nonzero : d ≠ 0) : udiv64 n d = some (n / d) := by
  by_cases short : d >>> 32 = 0
  · exact udiv64_short nonzero short
  · by_cases le : d ≤ n
    · exact udiv64_long short le
    · have lt : n < d := BitVec.not_le.1 le
      rw [udiv64, if_neg short, if_pos lt]
      exact congrArg some (eq_of_toNat_eq (Nat.div_eq_of_lt lt).symm)

theorem sdiv64_eq {n d : BitVec 64} (nonzero : d ≠ 0) : sdiv64 n d = some (.ofInt 64 (n.toInt.tdiv d.toInt)) := by
  have quotient : BitVec.ofInt 64 (n.toInt.tdiv d.toInt) = n.sdiv d := eq_of_toInt_eq (by rw [toInt_sdiv, toInt_ofInt])
  have negative (x : BitVec 64) : x.toInt < 0 ↔ x.msb := by simp [msb_eq_toInt]
  have opposite : -d ≠ 0 := by simpa using nonzero
  simp only [quotient, sdiv64, sdiv_eq, ← Int.not_lt, negative]
  cases n.msb <;> cases d.msb <;> simp [udiv64_eq nonzero, udiv64_eq opposite]

/-- Both quotients, for every dividend and every nonzero divisor: no divide error, and `udivdi3` returns the
quotient rounded down, `divdi3` the quotient rounded toward zero. -/
theorem division_correct {n d : BitVec 64} (nonzero : d ≠ 0) :
    udivdi3 n d = some (.ofNat 64 (n.toNat / d.toNat)) ∧ divdi3 n d = some (.ofInt 64 (n.toInt.tdiv d.toInt)) := by
  refine ⟨(udiv64_eq nonzero).trans (congrArg some ?_), sdiv64_eq nonzero⟩
  rw [← toNat_udiv, ofNat_toNat, setWidth_eq]

theorem division_correct_example :
    udivdi3 (.ofInt 64 (-1)) 0x100000001 = some 0xffffffff ∧ divdi3 (.ofInt 64 (-7)) 2 = some (.ofInt 64 (-3)) :=
  ⟨(division_correct (by decide)).1, (division_correct (by decide)).2⟩

/-! ## Remainders -/

theorem umod64_eq {n d : BitVec 64} (nonzero : d ≠ 0) : umod64 n d = some (.ofNat 32 (n.toNat % d.toNat)) := by
  have whole := div_add_mod n.toNat d.toNat
  have bound := n.isLt
  have product : (d * (n / d)).toNat = d.toNat * (n.toNat / d.toNat) := by
    rw [toNat_mul, toNat_udiv, mod_eq_of_lt (by omega)]
  simp only [umod64, udiv64_eq nonzero, Option.bind_eq_bind, Option.bind_some, Option.pure_def, Option.some.injEq]
  apply eq_of_toNat_eq
  rw [toNat_setWidth, toNat_sub_of_le (le_def.2 (by omega)), product, toNat_ofNat]
  congr 1
  omega

theorem smod64_eq {n d : BitVec 64} (nonzero : d ≠ 0) :
    smod64 n d = some (.ofInt 32 (n.toInt - d.toInt * n.toInt.tdiv d.toInt)) := by
  have divides : 2 ^ 32 ∣ 2 ^ 64 := by decide
  simp only [smod64, sdiv64_eq nonzero, Option.bind_eq_bind, Option.bind_some, Option.pure_def, Option.some.injEq]
  apply eq_of_toInt_eq
  rw [toInt_setWidth, toInt_ofInt, ← Int.bmod_bmod_of_dvd divides, ← toInt_eq_toNat_bmod, toInt_sub, toInt_mul,
    toInt_ofInt, Int.mul_bmod_bmod, Int.sub_bmod_bmod, Int.bmod_bmod_of_dvd divides]

/-- `umoddi3` returns the remainder if it has at most 32 bits, and `moddi3` if it is in the range of an `int32_t`; the
return types of `umod64` and `smod64` lose the others. -/
theorem remainder_correct_iff {n d : BitVec 64} (nonzero : d ≠ 0) :
    (umoddi3 n d = some (.ofNat 64 (n.toNat % d.toNat)) ↔ n.toNat % d.toNat < 2 ^ 32) ∧
      (moddi3 n d = some (.ofInt 64 (n.toInt - d.toInt * n.toInt.tdiv d.toInt)) ↔
        -2 ^ 31 ≤ n.toInt - d.toInt * n.toInt.tdiv d.toInt ∧ n.toInt - d.toInt * n.toInt.tdiv d.toInt < 2 ^ 31) := by
  rw [umoddi3, umod64_eq nonzero, moddi3, smod64_eq nonzero]
  refine ⟨?_, ?_⟩
  · have fits := (Nat.mod_le n.toNat d.toNat).trans_lt n.isLt
    rw [Option.map_some, Option.some.injEq, ← toNat_inj, toNat_setWidth, toNat_ofNat, toNat_ofNat]
    omega
  · have fits : (n.srem d).toInt.bmod (2 ^ 64) = (n.srem d).toInt := Int.bmod_eq_of_le (le_toInt _) toInt_lt
    rw [Option.map_some, Option.some.injEq, ← toInt_inj, toInt_signExtend_of_le (by decide), toInt_ofInt, toInt_ofInt,
      ← Int.tmod_def, ← toInt_srem, fits]
    refine ⟨fun whole => ?_, fun range => Int.bmod_eq_of_le range.1 range.2⟩
    rw [← whole]
    exact ⟨Int.le_bmod (by decide), Int.bmod_lt (by decide)⟩

theorem remainder_correct_iff_example :
    umoddi3 100 7 = some 2 ∧ moddi3 (.ofInt 64 (-100)) 7 = some (.ofInt 64 (-2)) :=
  ⟨(remainder_correct_iff (by decide)).1.2 (by decide), (remainder_correct_iff (by decide)).2.2 (by decide)⟩

/-- `2 ^ 32 % 2 ^ 33` comes out as `0`, and the signed `2 ^ 31 % 2 ^ 32` as `-2 ^ 31`. -/
theorem remainder_truncated :
    umoddi3 0x100000000 0x200000000 = some 0 ∧ 2 ^ 32 % 2 ^ 33 = 2 ^ 32 ∧
      moddi3 0x80000000 0x100000000 = some (.ofInt 64 (-2 ^ 31)) ∧ (2 ^ 31 : Int).tmod (2 ^ 32) = 2 ^ 31 := by
  decide

end Pintos.Lib
