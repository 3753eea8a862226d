import Pintos.Library.Transition
import Mathlib.Logic.Function.Basic
import Mathlib.Tactic.SplitIfs

/-! # The interrupt queue (`devices/intq.c`)

A producer and a consumer call `intq_putc` and `intq_getc`, with interrupts off: a call is left before its end only in
`lock_acquire`, `thread_block` and `lock_release`.  A side that is an interrupt handler makes the same steps, where
none of them blocks. -/

namespace Pintos.Devices

open Library Function List

inductive Side
  | producer
  | consumer
  deriving DecidableEq

def Side.other : Side → Side
  | producer => consumer
  | consumer => producer

/-- Where a side is in its call. -/
inductive Pc
  | outside
  -- At the test of the loop
  | testing
  -- In `lock_acquire`, in `thread_block`, and made ready by `signal`
  | locking
  | waiting
  | woken
  | panicked
  deriving DecidableEq

structure Intq where
  lock : Option Side
  -- `not_full`, for the producer, and `not_empty`
  waiter : Side → Bool
  buf : Nat → UInt8
  head : Nat
  tail : Nat
  pc : Side → Pc
  -- The argument of `intq_putc`.
  byte : UInt8
  -- History: what has been put into the queue, and what has been returned.
  put : List UInt8
  got : List UInt8

def next (pos : Nat) : Nat :=
  (pos + 1) % 64

def intqInit (buf : Nat → UInt8) : Intq where
  lock := none
  waiter _ := false
  buf := buf
  head := 0
  tail := 0
  pc _ := .outside
  byte := 0
  put := []
  got := []

namespace Intq

def intqEmpty (q : Intq) : Bool :=
  q.head = q.tail

def intqFull (q : Intq) : Bool :=
  next q.head = q.tail

/-- The condition of the loop. -/
def blocks (q : Intq) : Side → Bool
  | .producer => q.intqFull
  | .consumer => q.intqEmpty

def goTo (side : Side) (pc : Pc) (q : Intq) : Intq :=
  { q with pc := update q.pc side pc }

/-- `lock_acquire`, of a free lock, and `wait` -/
def wait (side : Side) (q : Intq) : Intq :=
  if q.blocks side then { q with lock := some side, waiter := update q.waiter side true }.goTo side .waiting
  else q.goTo side .panicked

/-- `signal`, with the waiter of the given side -/
def signal (side : Side) (q : Intq) : Intq :=
  if q.blocks side then q.goTo side.other .panicked
  else if q.waiter side then { q with waiter := update q.waiter side false }.goTo side .woken
  else q

/-- `intq_putc` and `intq_getc` after the loop -/
def transfer : Side → Intq → Intq
  | .producer, q => { q with buf := update q.buf q.head q.byte, head := next q.head, put := q.put ++ [q.byte] }
  | .consumer, q => { q with tail := next q.tail, got := q.got ++ [q.buf q.tail] }

def call (side : Side) (q : Intq) : Option Intq :=
  if q.pc side = .outside then some (q.goTo side .testing) else none

def run (side : Side) (q : Intq) : Option Intq :=
  match q.pc side with
  | .testing =>
    if q.blocks side then some (if q.lock = none then q.wait side else q.goTo side .locking)
    else some (((q.transfer side).goTo side .outside).signal side.other)
  | .locking => if q.lock = none then some (q.wait side) else none
  | .woken => some ({ q with lock := none }.goTo side .testing)
  | _ => none

end Intq

inductive Label
  | putc (byte : UInt8)
  | getc
  | run (side : Side)

def step : Label → Intq → Option Intq
  | .putc byte, q => { q with byte }.call .producer
  | .getc, q => q.call .consumer
  | .run side, q => q.run side

/-- No byte is put in or taken out while the other side waits for the lock. -/
def locksInTime : Label → Intq → Prop
  | .run side, q => q.pc side = .testing → q.blocks side = false → q.pc side.other ≠ .locking
  | _, _ => True

instance (label : Label) (q : Intq) : Decidable (locksInTime label q) := by
  unfold locksInTime
  split <;> infer_instance

namespace Intq

/-- What holds of a side that is at the given place. -/
def Consistent (holdsLock waits blocks : Bool) : Pc → Prop
  | .outside | .testing => holdsLock = false ∧ waits = false
  | .locking => holdsLock = false ∧ waits = false ∧ blocks = true
  | .waiting => holdsLock = true ∧ waits = true ∧ blocks = true
  | .woken => holdsLock = true ∧ waits = false
  | .panicked => False

/-- The bytes of the queue are the last ones that have been put in. -/
structure Ring (q : Intq) : Prop where
  head : q.head = q.put.length % 64
  tail : q.tail = q.got.length % 64
  order : q.got.length ≤ q.put.length
  room : q.put.length < q.got.length + 64
  returned : q.got = q.put.take q.got.length
  bytes : ∀ n < q.put.length, q.got.length ≤ n → q.put[n]? = some (q.buf (n % 64))

variable {q q' : Intq} {side : Side}

/-- After a transfer the other side does not block. -/
theorem Ring.transfer (ring : q.Ring) (free : q.blocks side = false) :
    (q.transfer side).Ring ∧ (q.transfer side).blocks side.other = false := by
  obtain ⟨head, tail, order, room, returned, bytes⟩ := ring
  cases side with
  | producer =>
    simp only [blocks, intqFull, next, decide_eq_false_iff_not, head, tail] at free
    refine ⟨⟨?_, tail, ?_, ?_, ?_, fun n inside old => ?_⟩, ?_⟩
    · simp [Intq.transfer, next, head]
    · simp [Intq.transfer]; omega
    · simp [Intq.transfer]; omega
    · simpa [Intq.transfer, take_append_of_le_length order] using returned
    · simp only [Intq.transfer, length_append, length_singleton] at inside old ⊢
      by_cases last : n = q.put.length
      · simp [last, head]
      · rw [getElem?_append_left (by omega), update_of_ne (by omega)]
        exact bytes n (by omega) old
    · simp [Intq.transfer, blocks, Side.other, intqEmpty, next, head, tail]
      omega
  | consumer =>
    simp only [blocks, intqEmpty, decide_eq_false_iff_not, head, tail] at free
    have byte := bytes q.got.length (by omega) (Nat.le_refl _)
    refine ⟨⟨head, ?_, ?_, ?_, ?_, fun n inside old => ?_⟩, ?_⟩
    · simp [Intq.transfer, next, tail]
    · simp [Intq.transfer]; omega
    · simp [Intq.transfer]; omega
    · simp [Intq.transfer, take_add_one, byte, ← returned, tail]
    · exact bytes n inside (by simp [Intq.transfer] at old; omega)
    · simp [Intq.transfer, blocks, Side.other, intqFull, next, head, tail]
      omega

structure Sound (q : Intq) : Prop where
  ring : q.Ring
  sides : ∀ side, Consistent (q.lock = some side) (q.waiter side) (q.blocks side) (q.pc side)

section

variable (sound : q.Sound)

include sound

/-- A step of one side that leaves the queue and the other side as they are. -/
theorem Sound.moved {lock : Option Side} {waiter : Side → Bool} {pc : Pc}
    (here : Consistent (lock = some side) (waiter side) (q.blocks side) pc)
    (same : (lock = some side.other) = (q.lock = some side.other))
    (sameWaiter : waiter side.other = q.waiter side.other) :
    ({ q with lock, waiter }.goTo side pc).Sound := by
  refine ⟨{ sound.ring with }, fun other => ?_⟩
  have there := sound.sides side.other
  simp only [← sameWaiter, ← same] at there
  clear same sameWaiter
  match side, other with
  | .producer, .producer | .consumer, .consumer => exact here
  | .producer, .consumer | .consumer, .producer => exact there

theorem Sound.wait (free : q.lock = none) (blocks : q.blocks side = true) : (q.wait side).Sound := by
  rw [Intq.wait, if_pos blocks]
  exact sound.moved ⟨by simp, update_self .., blocks⟩ (by cases side <;> simp [free, Side.other])
    (by cases side <;> rfl)

theorem Sound.call (called : q.call side = some q') : q'.Sound := by
  have here := sound.sides side
  unfold Intq.call at called
  split at called
  next outside =>
    rw [outside] at here
    cases called
    exact sound.moved here rfl rfl
  next => cases called

theorem Sound.transfer (testing : q.pc side = .testing) (free : q.blocks side = false)
    (inTime : q.pc side.other ≠ .locking) : (((q.transfer side).goTo side .outside).signal side.other).Sound := by
  obtain ⟨ring, ready⟩ := sound.ring.transfer free
  have here := sound.sides side
  have there := sound.sides side.other
  rw [testing] at here
  have notBlocked : ((q.transfer side).goTo side .outside).blocks side.other ≠ true := by
    cases side <;> exact Bool.eq_false_iff.mp ready
  rw [signal, if_neg notBlocked]
  cases place : q.pc side.other with rw [place] at there
  | waiting =>
    rw [if_pos (by cases side <;> exact there.2.1)]
    refine ⟨{ ring with }, fun other => ?_⟩
    cases side <;> cases other <;> first | exact here | exact ⟨there.1, rfl⟩
  | locking => exact absurd place inTime
  | panicked => exact there.elim
  | _ =>
    rw [if_neg (by cases side <;> exact Bool.eq_false_iff.mp there.2)]
    refine ⟨{ ring with }, fun other => ?_⟩
    cases side <;> cases other <;> first | exact here | exact (congrArg (Consistent _ _ _) place).mpr there

theorem Sound.step {label : Label} (inTime : locksInTime label q) (stepped : step label q = some q') :
    q'.Sound := by
  cases label with
  | putc byte => exact Sound.call (q := { q with byte }) ⟨{ sound.ring with }, sound.sides⟩ stepped
  | getc => exact sound.call stepped
  | run side =>
    have here := sound.sides side
    simp only [Devices.step, run] at stepped
    split at stepped
    next testing =>
      rw [testing] at here
      split_ifs at stepped with blocks free <;> cases stepped
      · exact sound.wait free blocks
      · exact sound.moved ⟨here.1, here.2, blocks⟩ rfl rfl
      · have free := Bool.eq_false_iff.mpr blocks
        exact sound.transfer testing free (inTime testing free)
    next locking =>
      rw [locking] at here
      split_ifs at stepped with free
      cases stepped
      exact sound.wait free here.2.2
    next woken =>
      rw [woken] at here
      cases stepped
      have held := of_decide_eq_true here.1
      exact sound.moved ⟨rfl, here.2⟩ (by cases side <;> simp [held, Side.other]) rfl
    next => cases stepped

end

end Intq

/-- What is returned is what was put in first, up to 63 bytes are in the queue, no assertion fails, and a side that is
blocked waits for a condition that does not hold yet. -/
theorem intq_fifo {buf : Nat → UInt8} {q : Intq} (reached : Reaches step locksInTime (intqInit buf) q) :
    q.got <+: q.put ∧ q.put.length ≤ q.got.length + 63 ∧ (∀ side, q.pc side ≠ .panicked) ∧
      ∀ side, q.pc side = .waiting ∨ q.pc side = .locking → q.blocks side = true := by
  have sound : q.Sound := by
    refine reached.invariant Intq.Sound ⟨?_, fun side => ⟨rfl, rfl⟩⟩ fun sound inTime stepped => sound.step
      inTime stepped
    exact ⟨rfl, rfl, Nat.le_refl 0, Nat.zero_lt_succ _, rfl, nofun⟩
  refine ⟨sound.ring.returned ▸ take_prefix _ _, Nat.le_of_lt_succ sound.ring.room, fun side isPanicked => ?_,
    fun side => ?_⟩
  · simpa [isPanicked, Intq.Consistent] using sound.sides side
  · have consistent := sound.sides side
    rintro (place | place) <;> rw [place] at consistent <;> exact consistent.2.2

/-- The consumer waits, is woken by a byte and returns it. -/
theorem intq_fifo_example : ∃ q, Reaches step locksInTime (intqInit fun _ => 0) q ∧ q.put = [7] ∧ q.got = [7] ∧
    q.got <+: q.put := by
  obtain ⟨q, reached, put, got⟩ := exists_reached step locksInTime (intqInit fun _ => 0)
    (fun q => q.put = [7] ∧ q.got = [7])
    [.getc, .run .consumer, .putc 7, .run .producer, .run .consumer, .run .consumer] (by decide +kernel)
  exact ⟨q, reached, put, got, (intq_fifo reached).1⟩

/-- The producer finds the queue full while the consumer, which has been woken, still holds the lock.  The consumer
releases the lock and takes a byte out; then the producer gets the lock, and the assertion of `wait` fails. -/
theorem wait_asserts : ∃ q, Reaches step (fun _ _ => True) (intqInit fun _ => 0) q ∧ q.pc .producer = .panicked :=
  exists_reached step _ _ _ ([.getc, .run .consumer] ++ (replicate 63 [.putc 0, .run .producer]).flatten ++
    [.putc 0, .run .producer, .run .consumer, .run .consumer, .run .producer]) (by decide +kernel)

end Pintos.Devices
