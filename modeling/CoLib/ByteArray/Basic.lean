/-
# `CoLib.ByteArray.Basic` — the chunked byte buffer of `bytearray.cc`

A `ByteArray` is a singly linked list of heap nodes of `m_base_size` bytes with
a read cursor, a write cursor and an end pointer.  Writing extends the list at
the end when it runs out of room; a node that has been read to its end is hung
behind the end node and written again later (`deallocNode`).

The embedding keeps the pointers: nodes live in a `Heap`, a pointer is an
address or null, and `memcpy` into a node goes through `Heap.store`.  Every
operation returns `none` where the source would dereference null, copy outside
an allocation, fail a `CO_LIB_ASSERT` or loop for ever.  The counters
(`size_t`) are natural numbers: together they count bytes of allocated nodes,
so a run in which every `new` succeeds never wraps one of them.  The
conversions of the `int` arguments are written out.

`Heap.fresh` holds what the memory of an allocation contains before it is
written, and is arbitrary.
-/
import CoLib.Lib.MachineInt
import CoLib.Lib.Splice
import Mathlib

namespace CoLib

open Lib

/-- A node's address. -/
abbrev Addr := Nat

/-- `ByteArray::Node`: `m_ptr` is the node's memory, `m_next` its successor. -/
structure Node where
  ptr : List UInt8
  next : Option Addr
  size : Nat

/-- The allocated nodes, the next address handed out, and the content of memory
that has not been written yet. -/
structure Heap where
  node : Addr → Option Node
  brk : Addr
  fresh : Addr → Nat → UInt8

namespace Heap

/-- `new Node(size)`. -/
def newNode (h : Heap) (size : Nat) : Heap :=
  { h with
    node := Function.update h.node h.brk
      (some ⟨(List.range size).map (h.fresh h.brk), none, size⟩)
    brk := h.brk + 1 }

/-- `memcpy(p->m_ptr + off, bs, |bs|)`. -/
def store (h : Heap) (p : Addr) (off : Nat) (bs : List UInt8) : Option Heap := do
  let nd ← h.node p
  if off + bs.length ≤ nd.ptr.length then
    some { h with node := Function.update h.node p (some { nd with ptr := splice nd.ptr off bs }) }
  else none

/-- The `len` bytes at `p->m_ptr + off`. -/
def load (h : Heap) (p : Addr) (off len : Nat) : Option (List UInt8) := do
  let nd ← h.node p
  if off + len ≤ nd.ptr.length then some ((nd.ptr.drop off).take len) else none

/-- `p->m_next = q`. -/
def setNext (h : Heap) (p : Addr) (q : Option Addr) : Option Heap := do
  let nd ← h.node p
  some { h with node := Function.update h.node p (some { nd with next := q }) }

end Heap

/-- `iovec`, its base split into the node and the offset in the node's memory. -/
structure Iovec where
  base : Addr
  off : Nat
  len : Nat
  deriving DecidableEq, Repr

/-- `class ByteArray`. -/
structure ByteArray where
  heap : Heap
  baseSize : Nat
  capacity : Nat
  dataSize : Nat
  writeIndex : Nat
  writeNode : Option Addr
  readIndex : Nat
  readNode : Option Addr
  endNode : Option Addr

namespace ByteArray

/-- One round of the loop of `updateCapacity`: a new node behind the end node. -/
def appendNode (s : ByteArray) : Option ByteArray := do
  let e ← s.endNode
  let h ← (s.heap.newNode s.baseSize).setNext e (some s.heap.brk)
  some { s with
    heap := h, endNode := some s.heap.brk, capacity := s.capacity + s.baseSize }

/-- `while (size >= m_capacity)`, at most `fuel` rounds. -/
def growLoop (size : Nat) : Nat → ByteArray → Option ByteArray
  | 0, s => if s.capacity ≤ size then none else some s
  | fuel + 1, s =>
      if s.capacity ≤ size then (appendNode s).bind (growLoop size fuel) else some s

/-- `updateCapacity(size_t size)`. -/
def updateCapacity (s : ByteArray) (size : Nat) : Option ByteArray :=
  growLoop size (size + 1) s

/-- `ByteArray(mBaseSize, mCapacity)`. -/
def create (fresh : Addr → Nat → UInt8) (baseSize capacity : Nat) : Option ByteArray :=
  updateCapacity
    { heap := Heap.newNode ⟨fun _ => none, 0, fresh⟩ baseSize
      baseSize, capacity := baseSize, dataSize := 0
      writeIndex := 0, writeNode := some 0
      readIndex := 0, readNode := some 0, endNode := some 0 }
    capacity

/-- The copy of one round of `write`; `buf` null copies nothing. -/
def copyIn (h : Heap) (p : Addr) (off : Nat) (buf : Option (List UInt8)) (wSize len : Nat) :
    Option Heap :=
  match buf with
  | none => some h
  | some bs => h.store p off ((bs.drop wSize).take len)

/-- The loop `while (size > 0)` of `write`, with its `w_size`. -/
def writeLoop (buf : Option (List UInt8)) :
    Nat → ByteArray → Nat → Nat → Option (ByteArray × Nat)
  | 0, s, size, wSize => if size = 0 then some (s, wSize) else none
  | fuel + 1, s, size, wSize =>
      if size = 0 then some (s, wSize) else do
        let w ← s.writeNode
        let room := s.baseSize - s.writeIndex
        if size < room then
          let h ← copyIn s.heap w s.writeIndex buf wSize size
          writeLoop buf fuel { s with heap := h, writeIndex := s.writeIndex + size } 0
            (wSize + size)
        else
          let h ← copyIn s.heap w s.writeIndex buf wSize room
          let nd ← h.node w
          let next ← nd.next
          writeLoop buf fuel { s with heap := h, writeIndex := 0, writeNode := some next }
            (size - room) (wSize + room)

/-- `write(const char *buf, int size)`: the new state and the returned count. -/
def write (s : ByteArray) (buf : Option (List UInt8)) (size : Int) :
    Option (ByteArray × Nat) := do
  let s ← s.updateCapacity (toSizeT size)
  let (s, wSize) ← writeLoop buf (size.toNat + 1) s size.toNat 0
  some ({ s with dataSize := s.dataSize + wSize, capacity := s.capacity - wSize }, wSize)

/-- `deallocNode(node)`: a consumed node goes behind the end node. -/
def deallocNode (s : ByteArray) (p : Addr) : Option ByteArray := do
  let h ← s.heap.setNext p none
  let e ← s.endNode
  let h ← h.setNext e (some p)
  let nd ← h.node p
  some { s with heap := h, endNode := some p, capacity := s.capacity + nd.size }

/-- The copy of one round of `read`; `buf` null copies nothing. -/
def copyOut (h : Heap) (p : Addr) (off len : Nat) (buf : Bool) : Option (List UInt8) :=
  if buf then h.load p off len else some []

/-- The loop `while (size > 0)` of `read`: `out` is what has been copied to
`buf`, `rSize` what has been consumed. -/
def readLoop (buf : Bool) :
    Nat → ByteArray → Nat → Nat → List UInt8 → Option (ByteArray × Nat × List UInt8)
  | 0, s, size, rSize, out => if size = 0 then some (s, rSize, out) else none
  | fuel + 1, s, size, rSize, out =>
      if size = 0 then some (s, rSize, out) else do
        let r ← s.readNode
        let room := s.baseSize - s.readIndex
        if size < room then
          let bs ← copyOut s.heap r s.readIndex size buf
          readLoop buf fuel { s with readIndex := s.readIndex + size } 0 (rSize + size)
            (out ++ bs)
        else
          let bs ← copyOut s.heap r s.readIndex room buf
          let nd ← s.heap.node r
          let s ← deallocNode { s with readIndex := 0, readNode := nd.next } r
          readLoop buf fuel s (size - room) (rSize + room) (out ++ bs)

/-- `read(char *buf, int size)`: the new state, the returned count and the
bytes copied to `buf`. -/
def read (s : ByteArray) (buf : Bool) (size : Int) :
    Option (ByteArray × Nat × List UInt8) := do
  let size : Int := if toSizeT size < s.dataSize then size else toInt s.dataSize
  let (s, rSize, out) ← readLoop buf (size.toNat + 1) s size.toNat 0 []
  some ({ s with dataSize := s.dataSize - rSize }, rSize, out)

/-- `write(const std::string &buf)`. -/
def writeString (s : ByteArray) (buf : List UInt8) : Option (ByteArray × Nat) :=
  s.write (some buf) (toInt buf.length)

/-- `PTRDIFF_MAX`: a `new char[n]` for more bytes throws. -/
def ptrdiffMax : Nat := 2 ^ 63 - 1

/-- The buffer of `read(size_t size)`: `new char[size + 1]`, which holds `garbage`, after
`read(buf.get(), size)`. -/
def readChars (garbage : Nat → UInt8) (s : ByteArray) (size : Nat) :
    Option (ByteArray × List UInt8) :=
  let len := addWord size 1
  if ptrdiffMax < len then none else do
    let (s, _, out) ← s.read true (toInt size)
    if out.length ≤ len then
      some (s, out ++ (List.range' out.length (len - out.length)).map garbage)
    else none

/-- The `std::string` that a `char *` is converted to: the bytes before the first NUL. -/
def cString (memory : List UInt8) : Option (List UInt8) :=
  if 0 ∈ memory then some (memory.takeWhile (· ≠ 0)) else none

/-- `read(size_t size)`.  `std::string(buf.get(), 0, size)` is the constructor that takes
a part of another string. -/
def readString (garbage : Nat → UInt8) (s : ByteArray) (size : Nat) :
    Option (ByteArray × List UInt8) := do
  let (s, memory) ← s.readChars garbage size
  let str ← cString memory
  some (s, str.take size)

/-- The loop of `getWriteBuffers`, on the local copies of the write cursor. -/
def writeWalk (h : Heap) (baseSize : Nat) :
    Nat → Option Addr → Nat → Nat → Option (List Iovec × Option Addr × Nat)
  | 0, p, i, size => if size = 0 then some ([], p, i) else none
  | fuel + 1, p, i, size =>
      if size = 0 then some ([], p, i) else do
        let w ← p
        let nd ← h.node w
        let room := baseSize - i
        if size < room then
          let (vs, q) ← writeWalk h baseSize fuel p (i + size) 0
          some (⟨w, i, size⟩ :: vs, q)
        else
          let (vs, q) ← writeWalk h baseSize fuel nd.next 0 (size - room)
          some (⟨w, i, room⟩ :: vs, q)

/-- `getWriteBuffers(buffers, size, is_update)`: the new state, the iovecs
appended to `buffers` and the returned count. -/
def getWriteBuffers (s : ByteArray) (size : Nat) (isUpdate : Bool) :
    Option (ByteArray × List Iovec × Nat) := do
  let s ← s.updateCapacity size
  let (vs, p, i) ← writeWalk s.heap s.baseSize (size + 1) s.writeNode s.writeIndex size
  if isUpdate then
    some ({ s with
      writeNode := p, writeIndex := i
      dataSize := s.dataSize + size, capacity := s.capacity - size }, vs, size)
  else some (s, vs, size)

/-- `updateNullWrite(size_t w_size)`. -/
def updateNullWrite (s : ByteArray) (wSize : Nat) : Option (ByteArray × Nat) :=
  s.write none (toInt wSize)

/-- The loop of `getReadBuffers`, on the local copies of the read cursor; with
`is_update` a node read to its end goes to `deallocNode` at once. -/
def readWalk (isUpdate : Bool) :
    Nat → ByteArray → Option Addr → Nat → Nat →
      Option (ByteArray × List Iovec × Option Addr × Nat)
  | 0, s, p, i, size => if size = 0 then some (s, [], p, i) else none
  | fuel + 1, s, p, i, size =>
      if size = 0 then some (s, [], p, i) else do
        let r ← p
        let nd ← s.heap.node r
        let room := s.baseSize - i
        if size < room then
          let (s, vs, q) ← readWalk isUpdate fuel s p (i + size) 0
          some (s, ⟨r, i, size⟩ :: vs, q)
        else
          let s ← if isUpdate then deallocNode s r else some s
          let (s, vs, q) ← readWalk isUpdate fuel s nd.next 0 (size - room)
          some (s, ⟨r, i, room⟩ :: vs, q)

/-- `getReadBuffers(buffers, size, is_update)`: the new state, the iovecs
appended to `buffers` and the returned count. -/
def getReadBuffers (s : ByteArray) (size : Nat) (isUpdate : Bool) :
    Option (ByteArray × List Iovec × Nat) := do
  let size := if size < s.dataSize then size else s.dataSize
  let (s, vs, p, i) ← readWalk isUpdate (size + 1) s s.readNode s.readIndex size
  if isUpdate then
    some ({ s with readNode := p, readIndex := i, dataSize := s.dataSize - size }, vs, size)
  else some (s, vs, size)

/-- `updateNullRead(size_t r_size)`. -/
def updateNullRead (s : ByteArray) (rSize : Nat) : Option (ByteArray × Nat × List UInt8) :=
  s.read false (toInt rSize)

/-- What a caller does with the iovecs of `getWriteBuffers`: fill them in order. -/
def fillIovecs : Heap → List Iovec → List UInt8 → Option Heap
  | h, [], _ => some h
  | h, v :: vs, bs =>
      (h.store v.base v.off (bs.take v.len)).bind fun h => fillIovecs h vs (bs.drop v.len)

/-- What a caller does with the iovecs of `getReadBuffers`: read them in order. -/
def readIovecs (h : Heap) : List Iovec → Option (List UInt8)
  | [] => some []
  | v :: vs => do
      let bs ← h.load v.base v.off v.len
      let rest ← readIovecs h vs
      some (bs ++ rest)

end ByteArray

end CoLib
