/-
# `CoLib.ByteArray.Tape` — the list of nodes behind the pointers

`Rep s front back` says what a well-formed buffer looks like: following
`m_next` from the read node meets `front ++ back`, every node once, and ends at
the end node; `front` are the nodes before the write node and `back` the write
node and what follows it.  Laid end to end (`flat`) the nodes are one tape, the
unread bytes are a window of it, and the two cursors are positions on it.

The specifications of the heap operations and of the two cursor walks are
stated on that tape.  Neither `memcpy` nor the relinking of nodes changes what
the other depends on: `SameShape` (pointers and sizes kept) and `SameBytes`
(contents kept) say so.
-/
import CoLib.ByteArray.Basic
import CoLib.Lib.Linked

namespace CoLib

open Lib

namespace Heap

/-- `p->m_next`. -/
def next (h : Heap) (p : Addr) : Option Addr := (h.node p).bind Node.next

/-- The memory of the node at `p`. -/
def bytes (h : Heap) (p : Addr) : List UInt8 := ((h.node p).map Node.ptr).getD []

/-- The memory of the nodes, laid end to end. -/
def flat (h : Heap) (ps : List Addr) : List UInt8 := ps.flatMap h.bytes

@[simp] theorem flat_nil (h : Heap) : h.flat [] = [] := rfl

@[simp] theorem flat_cons (h : Heap) (p : Addr) (ps : List Addr) :
    h.flat (p :: ps) = h.bytes p ++ h.flat ps := rfl

@[simp] theorem flat_append (h : Heap) (ps qs : List Addr) :
    h.flat (ps ++ qs) = h.flat ps ++ h.flat qs := List.flatMap_append

theorem flat_congr {h h' : Heap} {ps : List Addr} (heq : ∀ p ∈ ps, h'.bytes p = h.bytes p) :
    h'.flat ps = h.flat ps := List.flatMap_congr heq

/-- All of `ps` are allocated nodes of `b` bytes. -/
def Sized (b : Nat) (h : Heap) (ps : List Addr) : Prop :=
  ∀ p ∈ ps, ∃ nd, h.node p = some nd ∧ nd.size = b ∧ nd.ptr.length = b

theorem Sized.length_bytes {b : Nat} {h : Heap} {ps : List Addr} (hs : Sized b h ps)
    {p : Addr} (hp : p ∈ ps) : (h.bytes p).length = b := by
  obtain ⟨nd, hnd, -, hlen⟩ := hs p hp
  simp [bytes, hnd, hlen]

theorem Sized.length_flat {b : Nat} {h : Heap} {ps : List Addr} (hs : Sized b h ps) :
    (h.flat ps).length = b * ps.length := by
  induction ps with
  | nil => simp
  | cons p ps ih =>
      have htail : Sized b h ps := fun q hq => hs q (by simp [hq])
      rw [flat_cons, List.length_append, hs.length_bytes (by simp), ih htail,
        List.length_cons, Nat.mul_succ]
      omega

/-- The part of a node that `memcpy` leaves alone. -/
def shape (nd : Node) : Option Addr × Nat × Nat := (nd.next, nd.size, nd.ptr.length)

/-- Pointers, sizes and allocation are the same; contents may differ. -/
structure SameShape (h h' : Heap) : Prop where
  node : ∀ p, (h'.node p).map shape = (h.node p).map shape
  brk : h'.brk = h.brk
  fresh : h'.fresh = h.fresh

/-- Contents, sizes and allocation are the same; pointers may differ. -/
structure SameBytes (h h' : Heap) : Prop where
  node : ∀ p, (h'.node p).map (fun nd => (nd.ptr, nd.size))
    = (h.node p).map (fun nd => (nd.ptr, nd.size))
  brk : h'.brk = h.brk
  fresh : h'.fresh = h.fresh

theorem SameShape.refl (h : Heap) : SameShape h h := ⟨fun _ => rfl, rfl, rfl⟩

theorem SameShape.trans {h h' h'' : Heap} (h₁ : SameShape h h') (h₂ : SameShape h' h'') :
    SameShape h h'' :=
  ⟨fun p => (h₂.node p).trans (h₁.node p), h₂.brk.trans h₁.brk, h₂.fresh.trans h₁.fresh⟩

theorem SameBytes.refl (h : Heap) : SameBytes h h := ⟨fun _ => rfl, rfl, rfl⟩

theorem SameBytes.trans {h h' h'' : Heap} (h₁ : SameBytes h h') (h₂ : SameBytes h' h'') :
    SameBytes h h'' :=
  ⟨fun p => (h₂.node p).trans (h₁.node p), h₂.brk.trans h₁.brk, h₂.fresh.trans h₁.fresh⟩

theorem SameShape.symm {h h' : Heap} (hs : SameShape h h') : SameShape h' h :=
  ⟨fun p => (hs.node p).symm, hs.brk.symm, hs.fresh.symm⟩

theorem SameShape.node_some {h h' : Heap} (hs : SameShape h h') {p : Addr} {nd : Node}
    (hnd : h.node p = some nd) : ∃ nd', h'.node p = some nd' ∧ shape nd' = shape nd := by
  have hn := hs.node p
  rw [hnd, Option.map_some] at hn
  exact Option.map_eq_some_iff.mp hn

theorem SameShape.next {h h' : Heap} (hs : SameShape h h') (p : Addr) :
    h'.next p = h.next p := by
  have := hs.node p
  unfold Heap.next
  cases h1 : h'.node p <;> cases h2 : h.node p <;> simp_all [shape]

theorem SameShape.sized {h h' : Heap} (hs : SameShape h h') {b : Nat} {ps : List Addr}
    (hz : Sized b h ps) : Sized b h' ps := by
  intro p hp
  obtain ⟨nd, hnd, hsize, hlen⟩ := hz p hp
  have hn := hs.node p
  rw [hnd, Option.map_some, Option.map_eq_some_iff] at hn
  obtain ⟨nd', hnd', heq⟩ := hn
  simp only [shape, Prod.mk.injEq] at heq
  exact ⟨nd', hnd', heq.2.1.trans hsize, heq.2.2.trans hlen⟩

theorem SameBytes.bytes {h h' : Heap} (hs : SameBytes h h') (p : Addr) :
    h'.bytes p = h.bytes p := by
  have := hs.node p
  unfold Heap.bytes
  cases h1 : h'.node p <;> cases h2 : h.node p <;> simp_all

theorem SameBytes.flat {h h' : Heap} (hs : SameBytes h h') (ps : List Addr) :
    h'.flat ps = h.flat ps := flat_congr fun p _ => hs.bytes p

theorem SameBytes.sized {h h' : Heap} (hs : SameBytes h h') {b : Nat} {ps : List Addr}
    (hz : Sized b h ps) : Sized b h' ps := by
  intro p hp
  obtain ⟨nd, hnd, hsize, hlen⟩ := hz p hp
  have hn := hs.node p
  rw [hnd, Option.map_some, Option.map_eq_some_iff] at hn
  obtain ⟨nd', hnd', heq⟩ := hn
  simp only [Prod.mk.injEq] at heq
  exact ⟨nd', hnd', heq.2.trans hsize, heq.1 ▸ hlen⟩

/-- `memcpy` inside an allocated node: it overwrites that node's memory only. -/
theorem store_spec {h : Heap} {p : Addr} {nd : Node} {off : Nat} {bs : List UInt8}
    (hnd : h.node p = some nd) (hlen : off + bs.length ≤ nd.ptr.length) :
    ∃ h', h.store p off bs = some h' ∧ SameShape h h' ∧
      h'.bytes p = splice (h.bytes p) off bs ∧ ∀ q, q ≠ p → h'.bytes q = h.bytes q := by
  let nd' : Node := { nd with ptr := splice nd.ptr off bs }
  refine ⟨{ h with node := Function.update h.node p (some nd') }, ?_, ⟨?_, rfl, rfl⟩, ?_, ?_⟩
  · simp [store, hnd, hlen, nd']
  · intro q
    by_cases hq : q = p
    · subst hq
      simp [hnd, shape, length_splice hlen, nd']
    · simp [Function.update_of_ne hq]
  · simp [bytes, hnd, nd']
  · intro q hq
    simp [bytes, Function.update_of_ne hq]

/-- A `memcpy` of no bytes inside an allocated node changes nothing. -/
theorem store_nil {h : Heap} {p : Addr} {nd : Node} {off : Nat} (hnd : h.node p = some nd)
    (hoff : off ≤ nd.ptr.length) : h.store p off [] = some h := by
  have hupd : Function.update h.node p (some nd) = h.node := by
    rw [← hnd]
    exact Function.update_eq_self p h.node
  simp [store, hnd, hoff, hupd]

/-- A `memcpy` that goes through keeps the shape of the heap. -/
theorem SameShape.of_store {h h' : Heap} {p : Addr} {off : Nat} {bs : List UInt8}
    (hst : h.store p off bs = some h') : SameShape h h' := by
  cases hnd : h.node p with
  | none => simp [store, hnd] at hst
  | some nd =>
      by_cases hlen : off + bs.length ≤ nd.ptr.length
      · obtain ⟨h'', hst', hshape, -⟩ := store_spec hnd hlen
        obtain rfl : h'' = h' := by rw [hst] at hst'; exact (Option.some.inj hst').symm
        exact hshape
      · simp [store, hnd, hlen] at hst

/-- A copy out of an allocated node. -/
theorem load_spec {h : Heap} {p : Addr} {nd : Node} {off len : Nat}
    (hnd : h.node p = some nd) (hlen : off + len ≤ nd.ptr.length) :
    h.load p off len = some (((h.bytes p).drop off).take len) := by
  simp [load, bytes, hnd, hlen]

theorem SameBytes.load {h h' : Heap} (hs : SameBytes h h') (p : Addr) (off len : Nat) :
    h'.load p off len = h.load p off len := by
  have := hs.node p
  unfold Heap.load
  cases h1 : h'.node p <;> cases h2 : h.node p <;> simp_all

/-- A pointer write to an allocated node: it changes that node's `m_next` only. -/
theorem setNext_spec {h : Heap} {p : Addr} {nd : Node} (q : Option Addr)
    (hnd : h.node p = some nd) :
    ∃ h', h.setNext p q = some h' ∧ SameBytes h h' ∧
      h'.next p = q ∧ ∀ r, r ≠ p → h'.next r = h.next r := by
  refine ⟨{ h with node := Function.update h.node p (some { nd with next := q }) },
    ?_, ⟨?_, rfl, rfl⟩, ?_, ?_⟩
  · simp [setNext, hnd]
  · intro r
    by_cases hr : r = p
    · subst hr; simp [hnd]
    · simp [Function.update_of_ne hr]
  · simp [next]
  · intro r hr
    simp [next, Function.update_of_ne hr]

/-- A pointer write that goes through keeps every byte. -/
theorem SameBytes.of_setNext {h h' : Heap} {p : Addr} {q : Option Addr}
    (hset : h.setNext p q = some h') : SameBytes h h' := by
  cases hnd : h.node p with
  | none => simp [setNext, hnd] at hset
  | some nd =>
      obtain ⟨h'', hset', hbytes, -⟩ := setNext_spec q hnd
      obtain rfl : h'' = h' := by rw [hset] at hset'; exact (Option.some.inj hset').symm
      exact hbytes

/-- A new node is a fresh address; nothing else changes. -/
theorem newNode_spec (h : Heap) (b : Nat) :
    (∃ nd, (h.newNode b).node h.brk = some nd ∧ nd.size = b ∧ nd.ptr.length = b ∧
      nd.next = none) ∧
    (∀ p, p ≠ h.brk → (h.newNode b).node p = h.node p) ∧
    (h.newNode b).brk = h.brk + 1 ∧ (h.newNode b).fresh = h.fresh := by
  refine ⟨⟨⟨(List.range b).map (h.fresh h.brk), none, b⟩, by simp [newNode], rfl, by simp, rfl⟩,
    ?_, rfl, rfl⟩
  intro p hp
  simp [newNode, Function.update_of_ne hp]

end Heap

end CoLib
