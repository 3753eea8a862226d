import Mathlib.Algebra.Order.SuccPred
import Mathlib.Data.Set.Basic

/-! # System calls and user memory

What `syscall_handler` reads and writes in the memory of the process that made the call.  `check_valid_pointer` looks
at one address: neither the rest of a word, nor the end of a buffer, nor the stack words that hold the pointers are
compared with `PHYS_BASE`.
-/

namespace Pintos.Syscall

open BitVec (lt_def toNat_add toNat_ofNat)

/-- An address, or an `int`. -/
abbrev Word := BitVec 32

def physBase : Word := 0xc0000000#32

def isUserVaddr (vaddr : Word) : Bool := vaddr < physBase

def nameMax : Nat := 14

/-- The number of bytes that a transfer of `(int) size` bytes asks for; a negative size asks for none. -/
def requested (size : Word) : Nat := size.toInt.toNat

/-- What an entry of the file list does for a call: how many bytes `file_read` and `file_write` transfer, and, if `d` is
not null, the length of the name that `dir_readdir` finds next. -/
structure FileElem where
  read : Word → Nat
  write : Word → Nat
  dir : Option (Option Nat)
  read_le : ∀ size, read size ≤ requested size
  write_le : ∀ size, write size ≤ requested size

/-- A process in a system call: its stack pointer, memory, page directory, supplementary page table and file list. -/
structure User where
  esp : Word
  memory : Word → UInt8
  pagedirGetPage : Word → Bool
  pageLookup : Word → Bool
  findFile : Word → Option FileElem

/-- What the handler reads or writes: the word at an address, the string that starts there, or a number of bytes. -/
inductive Access
  | word (pointer : Word)
  | string (pointer : Word)
  | bytes (pointer : Word) (length : Nat)
  deriving DecidableEq, Repr

/-- The handler with its accesses so far; none if it ends the process instead of performing the call.  A word that is
loaded again, unchanged, is recorded once. -/
abbrev Handler := StateT (List Access) Option

/-- System call numbers. -/
inductive Number
  | halt | exit | exec | wait | create | remove | open | filesize | read | write | seek | tell | close
  | mmap | munmap
  | chdir | mkdir | readdir | isdir | inumber
  deriving DecidableEq, Repr

/-- The `switch` over `syscall_no`. -/
def Number.ofWord (no : Word) : Option Number :=
  [halt, exit, exec, wait, create, remove, «open», filesize, read, write, seek, tell, close, mmap, munmap, chdir, mkdir,
    readdir, isdir, inumber][no.toNat]?

namespace User

variable (u : User)

/-- The word at an address, least significant byte first. -/
def load (p : Word) : Word :=
  let byte := fun i : Word => (u.memory (p + i)).toBitVec.setWidth 32
  byte 0 ||| byte 1 <<< 8 ||| byte 2 <<< 16 ||| byte 3 <<< 24

def checkValidPointer (pointer : Word) : Bool :=
  if !isUserVaddr pointer then false
  else if u.pagedirGetPage pointer then true
  else if u.pageLookup pointer then true
  else u.esp < pointer

/-- `(int*) f->esp + k` -/
def slot (k : Nat) : Word := u.esp + BitVec.ofNat 32 (4 * k)

/-- The call that the process asks for. -/
def number : Option Number := Number.ofWord (u.load u.esp)

end User

/-- `thread_exit` after a failed check -/
def threadExit {α : Type} : Handler α := fun _ => none

def touch (access : Access) : Handler Unit := fun log => some ((), log ++ [access])

/-- `*p` -/
def deref (u : User) (p : Word) : Handler Word := do
  touch (.word p)
  pure (u.load p)

/-- The calls that take one number: it is loaded if its own address passes the check. -/
def numberCall (u : User) : Handler Unit := do
  let arg := u.slot 1
  if u.checkValidPointer arg then
    let _ ← deref u arg
    pure ()
  else threadExit

/-- The calls that take a path: the pointer is loaded, and then checked. -/
def pathCall (u : User) : Handler Unit := do
  let buffer ← deref u (u.slot 1)
  if u.checkValidPointer buffer then touch (.string buffer) else threadExit

/-- `SYS_CHDIR` and `SYS_MKDIR` copy the path before they check it. -/
def directoryCall (u : User) : Handler Unit := do
  let buffer ← deref u (u.slot 1)
  touch (.string buffer)
  if u.checkValidPointer buffer then pure () else threadExit

/-- `SYS_EXIT`, and `SYS_HALT`, which falls through to it -/
def sysExit (u : User) : Handler Unit := do
  let arg := u.slot 1
  if !u.checkValidPointer arg then pure ()
  else
    let _ ← deref u arg
    pure ()

def sysCreate (u : User) : Handler Unit := do
  let buffer ← deref u (u.slot 1)
  let size := u.slot 2
  if u.checkValidPointer buffer && u.checkValidPointer size then
    let _ ← deref u size
    touch (.string buffer)
  else threadExit

def sysRead (u : User) : Handler Unit := do
  let arg := u.slot 1
  let buffer ← deref u (u.slot 2)
  let size := u.slot 3
  if u.checkValidPointer arg && u.checkValidPointer buffer && u.checkValidPointer size then
    let fd ← deref u arg
    -- `input_getc` reads one key, whatever the size, and does not store it in the buffer
    if fd = 0#32 then pure ()
    else match u.findFile fd with
      | some f =>
        let n ← deref u size
        touch (.bytes buffer (f.read n))
      | none => pure ()
  else threadExit

def sysWrite (u : User) : Handler Unit := do
  let arg := u.slot 1
  let buffer ← deref u (u.slot 2)
  let size := u.slot 3
  if u.checkValidPointer arg && u.checkValidPointer buffer && u.checkValidPointer size then
    let fd ← deref u arg
    if fd = 1#32 then
      let n ← deref u size
      -- `putbuf` takes the size as a `size_t`
      touch (.bytes buffer n.toNat)
    else match u.findFile fd with
      | some f =>
        let n ← deref u size
        touch (.bytes buffer (f.write n))
      | none => pure ()
  else threadExit

def sysSeek (u : User) : Handler Unit := do
  let arg := u.slot 1
  let size := u.slot 2
  if u.checkValidPointer arg && u.checkValidPointer size then
    let fd ← deref u arg
    match u.findFile fd with
    | some _ =>
      let _ ← deref u size
      pure ()
    | none => pure ()
  else threadExit

/-- The pages of the mapping are recorded here, and loaded when the process touches them. -/
def sysMmap (u : User) : Handler Unit := do
  let arg := u.slot 1
  let buffer ← deref u (u.slot 2)
  if u.checkValidPointer arg && isUserVaddr buffer then
    let fd ← deref u arg
    match u.findFile fd with
    | some _ => pure ()
    | none => threadExit
  else threadExit

def sysReaddir (u : User) : Handler Unit := do
  let arg := u.slot 1
  let buffer ← deref u (u.slot 2)
  if u.checkValidPointer arg && u.checkValidPointer buffer then
    let fd ← deref u arg
    match u.findFile fd with
    | some f => match f.dir with
      | none => threadExit
      | some none => pure ()
      | some (some length) => touch (.bytes buffer (min length nameMax + 1))
    | none => pure ()
  else threadExit

/-- The `case` of each call. -/
def Number.handler (u : User) : Number → Handler Unit
  | halt | exit => sysExit u
  | exec | remove | «open» => pathCall u
  | wait | filesize | tell | close | munmap | isdir | inumber => numberCall u
  | create => sysCreate u
  | read => sysRead u
  | write => sysWrite u
  | seek => sysSeek u
  | mmap => sysMmap u
  | chdir | mkdir => directoryCall u
  | readdir => sysReaddir u

namespace User

variable (u : User)

/-- The entry of the file list for the descriptor that is the first argument. -/
def file : Option FileElem := u.findFile (u.load (u.slot 1))

/-- How many stack words a call loads, from `f->esp` on. -/
@[simp] def words : Number → Nat
  | .halt | .exit => if u.checkValidPointer (u.slot 1) then 2 else 1
  | .read => if u.load (u.slot 1) = 0#32 ∨ u.file.isNone then 3 else 4
  | .write => if u.load (u.slot 1) ≠ 1#32 ∧ u.file.isNone then 3 else 4
  | .seek => if u.file.isNone then 2 else 3
  | .create | .mmap | .readdir => 3
  | _ => 2

@[simp] def takesPath : Number → Bool
  | .exec | .create | .remove | .open | .chdir | .mkdir => true
  | _ => false

/-- How many bytes a call transfers from or to the buffer that is its second argument. -/
@[simp] def transfer : Number → Nat
  | .read => if u.load (u.slot 1) = 0#32 then 0 else u.file.elim 0 fun f => f.read (u.load (u.slot 3))
  | .write =>
    if u.load (u.slot 1) = 1#32 then (u.load (u.slot 3)).toNat else u.file.elim 0 fun f => f.write (u.load (u.slot 3))
  | .readdir => ((u.file.bind FileElem.dir).bind id).elim 0 fun length => min length nameMax + 1
  | _ => 0

/-- The stack words of a call, its path and the part of its buffer that it transfers end below `PHYS_BASE`. -/
structure Fits (number : Number) : Prop where
  stack : u.esp.toNat + 4 * u.words number ≤ physBase.toNat
  path : takesPath number = true →
    ∃ n, (u.load (u.slot 1)).toNat + n < physBase.toNat ∧ u.memory (u.load (u.slot 1) + BitVec.ofNat 32 n) = 0
  buffer : 0 < u.transfer number → (u.load (u.slot 2)).toNat + u.transfer number ≤ physBase.toNat

end User

variable {u : User} {p : Word} {number : Number} {log accesses : List Access} {α : Type}

namespace User

@[simp] theorem slot_zero : u.slot 0 = u.esp :=
  BitVec.add_zero u.esp

end User

namespace User

/-! ## User addresses -/

end User

end Pintos.Syscall
