/-
# `CoLib.Hook.FdManager` — what the hooks know of a descriptor

`FdCtx` is the hooks' record of a descriptor, `FdManager` the table of these
records by descriptor number.  Creating a record asks the kernel whether the
descriptor is a socket, and makes a socket non-blocking behind the user's back:
`sysNonblock` says that this was done, `userNonblock` what the user has asked
for.

The kernel is the open file of each descriptor number, with its status flags.
`fcntl(F_SETFL)` changes five of these flags and keeps the others.  Numbers are
natural: `-1` is answered with `nullptr` before the table is looked at, and the
kernel gives out no other negative one.
-/
import CoLib.Lib.MachineInt
import Mathlib

namespace CoLib

open Lib

/-! ## The kernel -/

/-- An open file, as far as its status goes. -/
structure File where
  isSock : Bool
  flags : BitVec 32
  deriving DecidableEq

/-- The open file of each descriptor. -/
abbrev Kernel := Nat → Option File

/-- `O_NONBLOCK`. -/
def O_NONBLOCK : BitVec 32 := 0x800#32

/-- The flags that `F_SETFL` changes: `O_APPEND`, `O_NONBLOCK`, `O_ASYNC`,
`O_DIRECT` and `O_NOATIME`. -/
def setflMask : BitVec 32 := 0x46C00#32

/-- `flags & O_NONBLOCK`. -/
def isNonblock (flags : BitVec 32) : Bool := flags &&& O_NONBLOCK != 0#32

namespace Kernel

/-- The status flags after `F_SETFL`. -/
def setFlags (old arg : BitVec 32) : BitVec 32 :=
  (arg &&& setflMask) ||| (old &&& ~~~setflMask)

/-- `fcntl_f(fd, F_GETFL)`. -/
def getfl (k : Kernel) (fd : Nat) : BitVec 32 :=
  match k fd with
  | some f => f.flags
  | none => -1#32

/-- `fcntl_f(fd, F_SETFL, arg)`. -/
def setfl (k : Kernel) (fd : Nat) (arg : BitVec 32) : Kernel × BitVec 32 :=
  match k fd with
  | some f => (Function.update k fd (some { f with flags := setFlags f.flags arg }), 0#32)
  | none => (k, -1#32)

/-- `ioctl_f(fd, FIONBIO, &v)`. -/
def fionbio (k : Kernel) (fd : Nat) (v : BitVec 32) : Kernel × BitVec 32 :=
  match k fd with
  | some f =>
      let flags := if v = 0#32 then f.flags &&& ~~~O_NONBLOCK else f.flags ||| O_NONBLOCK
      (Function.update k fd (some { f with flags }), 0#32)
  | none => (k, -1#32)

end Kernel

/-! ### The flag -/

theorem isNonblock_eq (flags : BitVec 32) : isNonblock flags = flags.getLsbD 11 := by
  have hbit : O_NONBLOCK = BitVec.twoPow 32 11 := by decide
  rw [isNonblock, hbit, BitVec.and_twoPow]
  cases flags.getLsbD 11 with
  | true => decide
  | false => decide

@[simp] theorem isNonblock_or (flags : BitVec 32) : isNonblock (flags ||| O_NONBLOCK) = true := by
  rw [isNonblock_eq, BitVec.getLsbD_or]
  have hbit : O_NONBLOCK.getLsbD 11 = true := by decide
  rw [hbit, Bool.or_true]

@[simp] theorem isNonblock_and_not (flags : BitVec 32) :
    isNonblock (flags &&& ~~~O_NONBLOCK) = false := by
  rw [isNonblock_eq, BitVec.getLsbD_and]
  have hbit : (~~~O_NONBLOCK).getLsbD 11 = false := by decide
  rw [hbit, Bool.and_false]

/-- `F_SETFL` sets the flag as it is in the argument. -/
@[simp] theorem isNonblock_setFlags (old arg : BitVec 32) :
    isNonblock (Kernel.setFlags old arg) = isNonblock arg := by
  rw [isNonblock_eq, isNonblock_eq, Kernel.setFlags, BitVec.getLsbD_or, BitVec.getLsbD_and,
    BitVec.getLsbD_and]
  have hmask : setflMask.getLsbD 11 = true := by decide
  have hnot : (~~~setflMask).getLsbD 11 = false := by decide
  rw [hmask, hnot, Bool.and_true, Bool.and_false, Bool.or_false]

/-! ## `FdCtx` -/

/-- `class FdCtx`. -/
structure FdCtx where
  isInit : Bool
  isSocket : Bool
  sysNonblock : Bool
  userNonblock : Bool
  isClosed : Bool
  fd : Nat
  recvTimeout : Nat
  sendTimeout : Nat
  deriving DecidableEq

/-- `SO_RCVTIMEO` or another option (`SO_SNDTIMEO`). -/
inductive TimeoutOpt where
  | SO_RCVTIMEO
  | SO_SNDTIMEO
  deriving DecidableEq

namespace FdCtx

/-- `FdCtx::init()`, with what becomes of the kernel. -/
def init (c : FdCtx) (k : Kernel) : FdCtx × Kernel :=
  if c.isInit then (c, k)
  else
    let c := { c with recvTimeout := wordSize - 1, sendTimeout := wordSize - 1 }
    let c :=
      match k c.fd with
      | none => { c with isInit := false, isSocket := false }
      | some f => { c with isInit := true, isSocket := f.isSock }
    let (c, k) :=
      if c.isSocket then
        let flags := k.getfl c.fd
        let k := if isNonblock flags then k else (k.setfl c.fd (flags ||| O_NONBLOCK)).1
        ({ c with sysNonblock := true }, k)
      else ({ c with sysNonblock := false }, k)
    ({ c with userNonblock := false, isClosed := false }, k)

/-- `FdCtx(fd)`. -/
def create (fd : Nat) (k : Kernel) : FdCtx × Kernel :=
  init
    { isInit := false
      isSocket := false
      sysNonblock := false
      userNonblock := false
      isClosed := false
      fd := fd
      recvTimeout := wordSize - 1
      sendTimeout := wordSize - 1 } k

/-- The record of a socket, and the kernel with the socket made non-blocking. -/
theorem create_socket {fd : Nat} {k : Kernel} {f : File} (hf : k fd = some f)
    (hs : f.isSock = true) :
    create fd k =
      ({ isInit := true
         isSocket := true
         sysNonblock := true
         userNonblock := false
         isClosed := false
         fd := fd
         recvTimeout := wordSize - 1
         sendTimeout := wordSize - 1 },
        if isNonblock f.flags then k else (k.setfl fd (f.flags ||| O_NONBLOCK)).1) := by
  simp [create, init, hf, hs, Kernel.getfl]

/-- `setTimeout(type, v)`. -/
def setTimeout (c : FdCtx) (type : TimeoutOpt) (v : Nat) : FdCtx :=
  if type = .SO_RCVTIMEO then { c with recvTimeout := v } else { c with sendTimeout := v }

/-- `getTimeout(type)`. -/
def getTimeout (c : FdCtx) (type : TimeoutOpt) : Nat :=
  if type = .SO_RCVTIMEO then c.recvTimeout else c.sendTimeout

/-- The hooks let calls on the descriptor through: it is no socket, or closed. -/
def passes (c : FdCtx) : Bool :=
  c.isClosed || !c.isSocket

end FdCtx

/-! ## `FdManager` -/

/-- `class FdManager`: `m_datas`. -/
structure FdManager where
  datas : List (Option FdCtx)

namespace FdManager

/-- `FdManager()`. -/
def create : FdManager := { datas := List.replicate 64 none }

/-- `m_datas.resize(size)`. -/
def resize (m : FdManager) (size : Nat) : FdManager :=
  { datas := m.datas.take size ++ List.replicate (size - m.datas.length) none }

/-- `*m_datas[fd]`, null also where there is no such slot. -/
def slot (m : FdManager) (fd : Nat) : Option FdCtx :=
  (m.datas[fd]?).join

/-- `get(fd, false)`. -/
def find (m : FdManager) (fd : Nat) : Option FdCtx :=
  if m.datas.length ≤ fd then none else m.slot fd

/-- `get(fd, true)`: the manager and the kernel afterwards. -/
def getOrCreate (m : FdManager) (k : Kernel) (fd : Nat) : FdManager × Kernel :=
  match m.find fd with
  | some _ => (m, k)
  | none =>
      let (ctx, k) := FdCtx.create fd k
      let m := if m.datas.length ≤ fd then m.resize (fd * 3 / 2) else m
      ({ datas := m.datas.set fd (some ctx) }, k)

/-- Writing through the pointer that `get` returned. -/
def modify (m : FdManager) (fd : Nat) (f : FdCtx → FdCtx) : FdManager :=
  { datas := m.datas.modify fd (Option.map f) }

/-- `del(fd)`. -/
def del (m : FdManager) (fd : Nat) : FdManager :=
  if m.datas.length ≤ fd then m else { datas := m.datas.set fd none }

variable {m : FdManager} {k : Kernel} {fd : Nat} {c : FdCtx}

theorem find_eq_slot (m : FdManager) (fd : Nat) : m.find fd = m.slot fd := by
  rw [find]
  split
  · rename_i h
    rw [slot, List.getElem?_eq_none h]
    rfl
  · rfl

theorem find_modify (f : FdCtx → FdCtx) (fd' : Nat) :
    (m.modify fd f).find fd' = if fd = fd' then (m.find fd').map f else m.find fd' := by
  rw [find_eq_slot, find_eq_slot, slot, slot, modify, List.getElem?_modify]
  split
  · cases m.datas[fd']? with
    | none => rfl
    | some o => cases o <;> rfl
  · exact congrArg Option.join Option.map_id'

/-- A record that is looked up after it was created is the new one, if there was
none and the table has or gets room. -/
theorem find_getOrCreate (hnew : m.find fd = none) (hroom : fd < m.datas.length ∨ 2 ≤ fd) :
    (m.getOrCreate k fd).1.find fd = some (FdCtx.create fd k).1 := by
  simp only [getOrCreate, hnew]
  rw [find_eq_slot, slot, List.getElem?_set_self]
  · rfl
  · split
    · simp only [resize, List.length_append, List.length_take, List.length_replicate]
      omega
    · omega

end FdManager

end CoLib
